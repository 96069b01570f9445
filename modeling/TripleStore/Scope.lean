import TripleStore.Error

/-!
# Scopes

A scope gives out the variables of one query or one rule, numbered from zero. A name gets a variable when
it is first mentioned and keeps it; an anonymous variable is new every time.

The main statement is `escape?_eq_none_iff`: the scope check accepts a list of goals exactly when every
variable in them has been given out.
-/

namespace TripleStore

/-- The variables given out so far: the name of each variable, if it has one, in order of number. -/
structure Scope where
  /-- The names by variable number. -/
  names : List (Option String) := []
  deriving DecidableEq

namespace Scope

/-- No variable has been given out. -/
def empty : Scope := ⟨[]⟩

instance : Inhabited Scope := ⟨empty⟩

/-- The number of variables given out. -/
def size (s : Scope) : Nat := s.names.length

/-- True when no variable has been given out. -/
def isEmpty (s : Scope) : Bool := s.names.isEmpty

/-- The variable of a name: the one it has, or else a new one. -/
def var (name : String) (s : Scope) : Nat × Scope :=
  match s.names.findIdx? (· == some name) with
  | some v => (v, s)
  | none => (s.size, ⟨s.names ++ [some name]⟩)

/-- A new variable without a name. -/
def fresh (s : Scope) : Nat × Scope := (s.size, ⟨s.names ++ [none]⟩)

/-- The names and their variables, in order of first mention. -/
def named (s : Scope) : List (String × Nat) :=
  s.names.zipIdx.filterMap fun (name?, v) => name?.map fun name => (name, v)

/-- The first goal that mentions a variable outside the scope, with the largest of its variables. -/
def escape? (s : Scope) (goals : List Goal) : Option (Goal × Nat) :=
  goals.findSome? fun g =>
    match g.maxVar? with
    | some v => if v < s.size then none else some (g, v)
    | none => none

/-- The scope check finds nothing exactly when every variable of every goal has been given out. -/
theorem escape?_eq_none_iff {s : Scope} {goals : List Goal} :
    s.escape? goals = none ↔ ∀ g ∈ goals, ∀ v ∈ g.vars, v < s.size := by
  simp only [escape?, List.findSome?_eq_none_iff]
  refine forall₂_congr fun g _ => ?_
  rcases h : g.maxVar? with _ | m
  · simp [Goal.maxVar?] at h
    simp [h]
  · have hm := List.max?_eq_some_iff.1 h
    constructor
    · intro hnone v hv
      have : m < s.size := by
        by_cases hlt : m < s.size
        · exact hlt
        · simp [hlt] at hnone
      exact Nat.lt_of_le_of_lt (hm.2 v hv) this
    · intro hall
      simp [hall m hm.1]

end Scope

end TripleStore
