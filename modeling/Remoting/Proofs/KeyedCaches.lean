import Mathlib
import Remoting.Proofs.FirstSuccesses

/-! Caches. A cache is a state with a table in it, which keeps the first success of each key. What
requests do to a cache is what they do to its table, and the rest of it stays as it is. -/

namespace Remoting

/-- Where the table of a cache is, and what a cache keeps under which keys. What it makes of a
request does not depend on what is in the table. -/
structure KeyedCache (σ ρ κ ε α : Type) where
  table : σ → Table κ α
  withTable : σ → Table κ α → σ
  key : ρ → κ
  make : σ → ρ → Except ε α
  withTable_table : ∀ state, withTable state (table state) = state
  table_withTable : ∀ state entries, table (withTable state entries) = entries
  withTable_withTable : ∀ state entries others,
    withTable (withTable state entries) others = withTable state others
  make_withTable : ∀ state entries, make (withTable state entries) = make state

namespace KeyedCache

variable {σ ρ κ ε α : Type} [DecidableEq κ] (cache : KeyedCache σ ρ κ ε α)

def ask (state : σ) (request : ρ) : Except ε (Nat × α) × σ :=
  let kept := (cache.table state).keep (cache.key request) (cache.make state request)
  (kept.1, cache.withTable state kept.2)

def after (state : σ) (requests : List ρ) : σ :=
  requests.foldl (fun state request => (cache.ask state request).2) state

/-- What is made of requests, with their keys. -/
def attempts (state : σ) (requests : List ρ) : List (κ × Except ε α) :=
  requests.map fun request => (cache.key request, cache.make state request)

variable {state : σ} {request : ρ} {found : Nat × α}

section Ask

theorem ask_eq_error_iff {error : ε} : (cache.ask state request).1 = .error error ↔
    (cache.table state).find? (cache.key request) = none ∧
      cache.make state request = .error error :=
  Table.keep_eq_error_iff

theorem eq_of_ask_error {error : ε} (h : (cache.ask state request).1 = .error error) :
    (cache.ask state request).2 = state := by
  rw [ask, Table.eq_of_keep_error h, cache.withTable_table]

theorem table_ask (state : σ) (request : ρ) : cache.table (cache.ask state request).2 =
    ((cache.table state).keep (cache.key request) (cache.make state request)).2 :=
  cache.table_withTable _ _

theorem ask_of_find? (h : (cache.table state).find? (cache.key request) = some found) :
    cache.ask state request = (.ok found, state) := by
  rw [ask, Table.keep_of_find? h, cache.withTable_table]

/-- What is made of a request for a new key is entered under it. -/
theorem ask_of_find?_eq_none {value : α}
    (hnone : (cache.table state).find? (cache.key request) = none)
    (h : cache.make state request = .ok value) :
    (cache.ask state request).1 = .ok ((cache.table state).size, value) ∧
      (cache.table (cache.ask state request).2).find? (cache.key request) =
        some ((cache.table state).size, value) := by
  rw [table_ask, ask, h, Table.keep_ok hnone]
  exact ⟨rfl, Table.find?_push_self hnone value⟩

theorem find?_ask_of_ne {key : κ} (h : key ≠ cache.key request) :
    (cache.table (cache.ask state request).2).find? key = (cache.table state).find? key := by
  rw [table_ask]
  exact Table.find?_keep_of_ne h _

end Ask

section After

theorem after_eq (state : σ) (requests : List ρ) : cache.after state requests =
    cache.withTable state ((cache.table state).keepAll (cache.attempts state requests)) := by
  induction requests generalizing state with
  | nil => exact (cache.withTable_table state).symm
  | cons request requests ih =>
    show cache.after (cache.ask state request).2 requests = _
    rw [ih, table_ask, ask, cache.withTable_withTable, attempts, cache.make_withTable]
    rfl

theorem table_after (state : σ) (requests : List ρ) : cache.table (cache.after state requests) =
    (cache.table state).keepAll (cache.attempts state requests) := by
  rw [after_eq, cache.table_withTable]

/-- What is found under a key is found ever after, and answered to each request for it. -/
theorem ask_after_of_find? (h : (cache.table state).find? (cache.key request) = some found)
    (later : List ρ) :
    (cache.table (cache.after state later)).find? (cache.key request) = some found ∧
      cache.ask (cache.after state later) request = (.ok found, cache.after state later) := by
  have hlater : (cache.table (cache.after state later)).find? (cache.key request) = some found := by
    rw [table_after]
    exact Table.find?_keepAll_of_find? h _
  exact ⟨hlater, cache.ask_of_find? hlater⟩

/-- Of a cache that was empty, a key has what was made first of the requests for it. -/
theorem map_find?_after (hempty : cache.table state = .empty) (requests : List ρ) (key : κ) :
    ((cache.table (cache.after state requests)).find? key).map (·.2) =
      Table.firstSuccess (cache.attempts state requests) key := by
  rw [table_after, hempty]
  exact Table.map_find?_keepAll _ key

theorem size_after (hempty : cache.table state = .empty) (requests : List ρ) :
    (cache.table (cache.after state requests)).size = {key | ∃ value request, request ∈ requests ∧
      cache.key request = key ∧ cache.make state request = .ok value}.ncard := by
  rw [table_after, hempty, Table.size_keepAll]
  simp only [attempts, List.mem_map, Prod.mk.injEq]

end After

end KeyedCache

end Remoting
