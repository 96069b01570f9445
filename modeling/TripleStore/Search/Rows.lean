import TripleStore.Query
import TripleStore.Search.Basic

/-!
# Rows of a query

The answers to a query: the solutions of its goals in which every reported variable has a ground value.
Other solutions are reported as incomplete and skipped. New variables are numbered from the size of the scope on and
without a bound: rows would have to use up about as many variables as there are 64-bit words before words made a
difference.
-/

namespace TripleStore

/-- The state of the rows of a query. -/
structure Rows where
  /-- The search for solutions. -/
  search : Search
  /-- True after an error. -/
  failed : Bool := false

namespace Rows

/-- The rows of a query, before the first of them. -/
def start (query : Query) : Rows := { search := .start .empty query.goals query.scope }

/-- One step to the next row, taken by a step of the search. -/
def stepBy (step : Search → Step Search Bindings) (query : Query) (rows : Rows) : Step Rows Row :=
  if rows.failed then ⟨.done, rows, []⟩
  else
    let taken := step rows.search
    let next := { rows with search := taken.next }
    match taken.progress with
    | .moved => ⟨.moved, next, taken.events⟩
    | .answer s =>
      match Row.decode s query.vars with
      | .ok row => ⟨.answer row, next, taken.events⟩
      | .error name => ⟨.moved, next, taken.events ++ [.incomplete name]⟩
    | .error e => ⟨.error e, { next with failed := true }, taken.events⟩
    | .done => ⟨.done, next, taken.events⟩

/-- One step to the next row. -/
def step (st : Store) (mode : Retrieval) (query : Query) (rows : Rows) : Step Rows Row :=
  rows.stepBy (Search.step st mode) query

end Rows

end TripleStore
