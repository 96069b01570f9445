import TripleStore.Scope

/-!
# Queries and their rows

A query is a list of goals together with the names of the variables to be reported. A row gives each of
these names a ground value.
-/

namespace TripleStore

/-- A conjunction of goals with the variables that its rows report. -/
structure Query where
  /-- The goals, in the order in which they are resolved. -/
  goals : List Goal
  /-- The reported names and their variables, in order of first mention. -/
  vars : List (String × Nat)
  /-- The number of variables of the query; later variables number from here. -/
  scope : Nat
  /-- Every variable of the goals is below `scope`. -/
  inScope : ∀ g ∈ goals, ∀ v ∈ g.vars, v < scope

/-- The query of goals whose variables a scope has given out. -/
def Query.ofGoals? (scope : Scope) (goals : List Goal) : Except Invalid Query :=
  match h : scope.escape? goals with
  | some (goal, var) => .error (.outOfScope goal var)
  | none => .ok ⟨goals, scope.named, scope.size, Scope.escape?_eq_none_iff.1 h⟩

/-- An answer to a query: a value for each name. -/
structure Row where
  /-- The names and values. -/
  fields : Fields Term
  deriving DecidableEq

namespace Row

/-- The row of a solution, or the first name whose variable has no ground value. -/
def decode (s : Bindings) (vars : List (String × Nat)) : Except String Row := do
  let values ← vars.mapM fun (name, v) =>
    match s.resolve? v with
    | some t => .ok (name, t)
    | none => .error name
  return ⟨Fields.ofList values⟩

/-- The value of a name. -/
def get? (row : Row) (name : String) : Option Term := Fields.get? name row.fields

/-- The text of a row: `name=value` for each field, with two blanks between them. -/
def display (row : Row) : String :=
  "  ".intercalate (row.fields.map fun (name, value) => name ++ "=" ++ value.display)

end Row

end TripleStore
