import TripleStore.Bindings
import TripleStore.Term.Display

/-!
# Goals

A goal is either a pattern to be matched against the store or a check on terms. A check binds nothing: it
passes or fails, and it refuses to run before its arguments have ground values.
-/

namespace TripleStore

/-- A condition on the values of terms. -/
inductive Check where
  /-- The two terms have different values. -/
  | distinct (left right : Term)
  /-- A named condition holds of the values of the arguments. -/
  | assert (label : String) (args : List Term) (holds : List Term → Bool)

/-- One conjunct of a query or of the body of a rule. -/
inductive Goal where
  /-- A triple that has to be in the store or follow from it. -/
  | pattern (triple : Triple)
  /-- A condition that has to hold. -/
  | check (condition : Check)

/-- A check met an argument whose value is not ground. -/
structure Uninstantiated where
  /-- The kind of the check. -/
  operator : String
  /-- The value of the argument. -/
  term : Term
  deriving DecidableEq

/-- The message about an argument that is not instantiated. -/
def Uninstantiated.message (e : Uninstantiated) : String :=
  "arguments to `" ++ e.operator ++ "` must be fully instantiated, got " ++ e.term.display

namespace Check

/-- The kind of a check. -/
def operator : Check → String
  | .distinct .. => "neq"
  | .assert .. => "assert"

/-- The arguments of a check. -/
def args : Check → List Term
  | .distinct left right => [left, right]
  | .assert _ args _ => args

/-- Applies a function to each argument. -/
def map (f : Term → Term) : Check → Check
  | .distinct left right => .distinct (f left) (f right)
  | .assert label args holds => .assert label (args.map f) holds

/-- The variables of a check, from left to right. -/
def vars (c : Check) : List Nat := Term.varsAll c.args

/-- The text of a check. -/
def display : Check → String
  | .distinct left right => left.display ++ " != " ++ right.display
  | .assert label args _ => label ++ "(" ++ Term.displayList args ++ ")"

/-- The value of an argument, which has to be ground. -/
def instantiate (operator : String) (s : Bindings) (t : Term) : Except Uninstantiated Term :=
  let value := s.reify t
  if value.isGround then .ok value else .error ⟨operator, value⟩

/-- Decides a check. The first argument whose value is not ground is an error. -/
def run (s : Bindings) : Check → Except Uninstantiated Bool
  | .distinct left right => do
    let left ← instantiate "neq" s left
    let right ← instantiate "neq" s right
    return left != right
  | .assert _ args holds => do
    let values ← args.mapM (instantiate "assert" s)
    return holds values

end Check

/-! ### Comparisons -/

/-- The comparisons of integers. -/
inductive Comparison where
  /-- Less than. -/
  | lt
  /-- At most. -/
  | le
  /-- Greater than. -/
  | gt
  /-- At least. -/
  | ge
  deriving DecidableEq

namespace Comparison

/-- The name of a comparison. -/
def name : Comparison → String
  | lt => "lt"
  | le => "le"
  | gt => "gt"
  | ge => "ge"

/-- The comparison of the given name. -/
def ofName? (name : String) : Option Comparison := [lt, le, gt, ge].find? fun op => op.name == name

/-- Compares two integers. -/
def holds : Comparison → Int64 → Int64 → Bool
  | lt, m, n => m < n
  | le, m, n => m ≤ n
  | gt, m, n => n < m
  | ge, m, n => n ≤ m

/-- Compares two terms; terms that are not both integers do not compare. -/
def holdsOf (op : Comparison) : List Term → Bool
  | [.int m, .int n] => op.holds m n
  | _ => false

end Comparison

/-- The check that two terms compare as integers. -/
def Check.compare (op : Comparison) (left right : Term) : Check :=
  .assert op.name [left, right] op.holdsOf

namespace Goal

/-- Applies a function to each term of a goal. -/
def map (f : Term → Term) : Goal → Goal
  | .pattern t => .pattern (t.map f)
  | .check c => .check (c.map f)

/-- Renames every variable of a goal by adding `base` to its number. -/
def shift (base : Nat) : Goal → Goal := map (Term.shift base)

/-- Renames every variable of a goal to what its number and `base` add up to. -/
def shiftIn (ν : Numbering) (base : Nat) : Goal → Goal := map (Term.shiftIn ν base)

/-- The variables of a goal, from left to right. -/
def vars : Goal → List Nat
  | .pattern t => t.vars
  | .check c => c.vars

/-- The largest variable of a goal, if it has any. -/
def maxVar? (g : Goal) : Option Nat := g.vars.max?

/-- The text of a goal. -/
def display : Goal → String
  | .pattern t => t.display
  | .check c => c.display

end Goal

end TripleStore
