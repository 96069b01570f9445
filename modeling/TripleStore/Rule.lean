import TripleStore.Scope

/-!
# Rules

A rule derives its head from its body. Its variables are numbered from zero within the rule; each use of
the rule renames them into a range of their own. In 64-bit words a range that begins too close to the largest word goes
on at zero.
-/

namespace TripleStore

/-- A derivation rule: the head holds when every goal of the body does. -/
structure Rule where
  /-- The name that traces show. -/
  name? : Option String
  /-- The triples that the rule derives. -/
  head : Triple
  /-- The goals to be met, in order. -/
  body : List Goal
  /-- The number of variables of the rule. -/
  varCount : Nat
  /-- Every variable of the rule is below `varCount`. -/
  inScope : ∀ g ∈ Goal.pattern head :: body, ∀ v ∈ g.vars, v < varCount

namespace Rule

/-- The rule whose head is the first of the goals and whose body is the rest. -/
def ofGoals? (scope : Scope) (goals : List Goal) : Except Invalid Rule :=
  match h : scope.escape? goals with
  | some (goal, var) => .error (.outOfScope goal var)
  | none =>
    match goals, h with
    | [], _ => .error .noHead
    | .check condition :: _, _ => .error (.headNotPattern condition)
    | .pattern head :: body, h => .ok ⟨none, head, body, scope.size, Scope.escape?_eq_none_iff.1 h⟩

/-- The rule under a name. -/
def named (name : String) (r : Rule) : Rule := { r with name? := some name }

/-- The head with its variables renamed into the range that begins at `base`. -/
def headAt (r : Rule) (base : Nat) : Triple := r.head.shift base

/-- The body with its variables renamed into the range that begins at `base`. -/
def bodyAt (r : Rule) (base : Nat) : List Goal := r.body.map (Goal.shift base)

/-- The head as `headAt` has it, with the numbers added as `ν` says. -/
def headIn (ν : Numbering) (r : Rule) (base : Nat) : Triple := r.head.shiftIn ν base

/-- The body as `bodyAt` has it, with the numbers added as `ν` says. -/
def bodyIn (ν : Numbering) (r : Rule) (base : Nat) : List Goal := r.body.map (Goal.shiftIn ν base)

end Rule

end TripleStore
