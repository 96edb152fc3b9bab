/-! Text cut into segments at every separator, and segments joined by one. Cutting never gives an
empty list: a text without a separator is one segment. -/

namespace Remoting

def pathSeparator : Char := '/'

def cutSegments : List Char → List Char × List (List Char)
  | [] => ([], [])
  | c :: rest =>
    let (first, others) := cutSegments rest
    if c = pathSeparator then ([], first :: others) else (c :: first, others)

def segmentsOf (text : String) : List String :=
  let (first, others) := cutSegments text.toList
  String.ofList first :: others.map String.ofList

def joinSegments : List String → String
  | [] => ""
  | [segment] => segment
  | segment :: others => segment ++ pathSeparator.toString ++ joinSegments others

end Remoting
