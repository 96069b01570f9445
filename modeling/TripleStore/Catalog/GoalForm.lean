import TripleStore.Failure
import TripleStore.Json.Reading
import TripleStore.Json.Terms
import TripleStore.Query

/-!
# Goals as JSON texts

A goal is written in one of three forms: an array of three terms, an object with `neq` and two terms, or
an object with `compare`, the name of a comparison, and `args`, two terms. The forms are tried in this
order. Other members of an object are ignored, but a member that a form looks for must not be repeated.

Reading has two stages. First the forms of all goals are recognised; only then are their terms read, from
left to right, in one scope.
-/

namespace TripleStore

/-- A goal whose terms have not been read. -/
inductive GoalForm where
  /-- A pattern. -/
  | pattern (entity attr value : Json)
  /-- Two terms that have to be different. -/
  | distinct (left right : Json)
  /-- Two terms that have to compare. -/
  | compare (op : Comparison) (left right : Json)

namespace GoalForm

/-- The value of a member, if exactly one member has the given name. -/
def member? (name : String) (members : List (List Json.Written.Piece × Json.Written)) :
    Option Json.Written :=
  match members.filter fun m => Json.Written.text? m.1 = some name with
  | [m] => some m.2
  | _ => none

/-- The values of an array of two. -/
def pair? (w : Json.Written) : Option (Json × Json) :=
  match w with
  | .array [left, right] => do
    let left ← left.json? Json.Written.maxNesting
    let right ← right.json? Json.Written.maxNesting
    return (left, right)
  | _ => none

/-- The comparison that a value names: by its name, or by an object whose only member has that name and
the value `null`. -/
def comparison? : Json.Written → Option Comparison
  | .string pieces => (Json.Written.text? pieces).bind Comparison.ofName?
  | .object [(pieces, .null)] => (Json.Written.text? pieces).bind Comparison.ofName?
  | _ => none

/-- The form with `neq`. -/
def distinct? (members : List (List Json.Written.Piece × Json.Written)) : Option GoalForm := do
  let (left, right) ← pair? (← member? "neq" members)
  return .distinct left right

/-- The form with `compare` and `args`. -/
def compare? (members : List (List Json.Written.Piece × Json.Written)) : Option GoalForm := do
  let op ← comparison? (← member? "compare" members)
  let (left, right) ← pair? (← member? "args" members)
  return .compare op left right

/-- The form of a written goal whose arrays and objects may be nested `room` deep. The whole goal needs a
value, members that are ignored included. -/
def ofWritten? (room : Nat) (w : Json.Written) : Option GoalForm := do
  let value ← w.json? room
  match w, value with
  | .array _, .array [entity, attr, value] => return .pattern entity attr value
  | .object members, _ => distinct? members <|> compare? members
  | _, _ => none

/-- The forms of an array of goals. -/
def listOfWritten? (room : Nat) : Json.Written → Option (List GoalForm)
  | .array items => items.mapM (ofWritten? (room - 1))
  | _ => none

/-- Reads the terms of a goal. -/
def goal : GoalForm → Scoping Goal
  | pattern entity attr value => do
    let entity ← Term.ofPattern entity
    let attr ← Term.ofPattern attr
    let value ← Term.ofPattern value
    return .pattern ⟨entity, attr, value⟩
  | distinct left right => do
    let left ← Term.ofPattern left
    let right ← Term.ofPattern right
    return .check (.distinct left right)
  | compare op left right => do
    let left ← Term.ofPattern left
    let right ← Term.ofPattern right
    return .check (.compare op left right)

/-- Reads the terms of a list of goals. -/
def goals : List GoalForm → Scoping (List Goal)
  | [] => pure []
  | form :: rest => do
    let g ← form.goal
    let gs ← goals rest
    return g :: gs

end GoalForm

namespace Query

/-- The query of a list of forms. -/
def ofForms (forms : List GoalForm) : Except Invalid Query := do
  let (goals, scope) ← (GoalForm.goals forms).run .empty
  ofGoals? scope goals

/-- Reads the goals of a query. -/
def ofText? (text : String) : Except Failure Query :=
  match (Json.Written.ofText? text).bind (GoalForm.listOfWritten? Json.Written.maxNesting) with
  | none => .error (.malformed .queryGoals)
  | some forms => (ofForms forms).mapError fun cause => .error (.invalid cause)

end Query

end TripleStore
