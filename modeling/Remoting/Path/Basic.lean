import Remoting.Path.Segments
import Remoting.Digest.Xxh3

/-! Paths of calls: the root service, the chain of sub-services below it, and the method. No segment
of a path is empty. -/

namespace Remoting

inductive PathError
  | tooFewSegments (count : Nat)
  | emptySegment (index : Nat)
deriving DecidableEq, Repr

def PathError.message : PathError → String
  | tooFewSegments count =>
    "a service path needs a root and a method segment, got " ++ Nat.repr count ++ " segment(s)"
  | emptySegment index => "segment " ++ Nat.repr index ++ " of the service path is empty"

structure ServicePath where
  root : String
  chain : List String
  method : String
  nonempty : ∀ segment ∈ root :: (chain ++ [method]), segment ≠ ""
deriving DecidableEq

namespace ServicePath

def segments (path : ServicePath) : List String :=
  path.root :: (path.chain ++ [path.method])

/-- The path with the given segments, of which there must be two, and none empty. -/
def ofSegments : List String → Except PathError ServicePath
  | [] => .error (.tooFewSegments 0)
  | [_] => .error (.tooFewSegments 1)
  | root :: second :: rest =>
    match h : (root :: second :: rest).findIdx? (fun segment => segment = "") with
    | some index => .error (.emptySegment index)
    | none =>
      .ok {
        root := root
        chain := (second :: rest).dropLast
        method := (second :: rest).getLast (List.cons_ne_nil _ _)
        nonempty := by
          rw [List.dropLast_concat_getLast]
          intro segment hmem
          simpa using List.findIdx?_eq_none_iff.mp h segment hmem }

def ofMethod (above : List String) (method : String) : Except PathError ServicePath :=
  ofSegments (above ++ [method])

def parse (text : String) : Except PathError ServicePath :=
  ofSegments (segmentsOf text)

def format (path : ServicePath) : String :=
  joinSegments path.segments

/-- The number of the route: the digest of the formatted path. -/
def routeId (path : ServicePath) : UInt64 :=
  Xxh3.digest path.format.toUTF8

theorem segments_of_ofSegments {segments : List String} {path : ServicePath}
    (h : ofSegments segments = .ok path) : path.segments = segments := by
  unfold ofSegments at h
  split at h
  · cases h
  · cases h
  · split at h
    · cases h
    · cases h
      simp [ServicePath.segments, List.dropLast_concat_getLast]

end ServicePath

end Remoting
