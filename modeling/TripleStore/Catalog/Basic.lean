import TripleStore.Catalog.GoalForm
import TripleStore.Rule

/-!
# Rule catalogs

A catalog is an array of rules. A rule is an object with `name`, `head` and, if it has a body, `body`; or
an array with these in this order. Members of other names are ignored, whatever their values; the three
names must not be repeated. A rule is built in a scope of its own, its head first.
-/

namespace TripleStore

/-- A rule whose terms have not been read. -/
structure RuleForm where
  /-- The name of the rule. -/
  name : String
  /-- The three terms of the head. -/
  head : GoalForm
  /-- The goals of the body. -/
  body : List GoalForm

namespace RuleForm

/-- A name. -/
def name? : Json.Written → Option String
  | .string pieces => Json.Written.text? pieces
  | _ => none

/-- A head: an array of three values. -/
def head? (room : Nat) : Json.Written → Option GoalForm
  | .array [entity, attr, value] => do
    let entity ← entity.json? (room - 1)
    let attr ← attr.json? (room - 1)
    let value ← value.json? (room - 1)
    return .pattern entity attr value
  | _ => none

/-- The members of the given name. -/
def named (name : String) (members : List (String × Json.Written)) : List Json.Written :=
  (members.filter fun m => m.1 = name).map (·.2)

/-- A rule written as an object. -/
def ofMembers? (room : Nat) (members : List (String × Json.Written)) : Option RuleForm :=
  match named "name" members, named "head" members, named "body" members with
  | [name], [head], [] => do
    return ⟨← name? name, ← head? (room - 1) head, []⟩
  | [name], [head], [body] => do
    return ⟨← name? name, ← head? (room - 1) head, ← GoalForm.listOfWritten? (room - 1) body⟩
  | _, _, _ => none

/-- A rule written as an object or as an array. -/
def ofWritten? (room : Nat) : Json.Written → Option RuleForm
  | .object members => do
    let members ← members.mapM fun m => (Json.Written.text? m.1).map fun name => (name, m.2)
    ofMembers? room members
  | .array [name, head] => do
    return ⟨← name? name, ← head? (room - 1) head, []⟩
  | .array [name, head, body] => do
    return ⟨← name? name, ← head? (room - 1) head, ← GoalForm.listOfWritten? (room - 1) body⟩
  | _ => none

/-- Builds the rule of a form. -/
def rule (form : RuleForm) : Except Invalid Rule := do
  let (goals, scope) ← (GoalForm.goals (form.head :: form.body)).run .empty
  let r ← Rule.ofGoals? scope goals
  return r.named form.name

end RuleForm

/-- A list of rules. -/
structure Catalog where
  /-- The rules in order. -/
  rules : List Rule := []

namespace Catalog

/-- The number of rules. -/
def size (c : Catalog) : Nat := c.rules.length

/-- True when there are no rules. -/
def isEmpty (c : Catalog) : Bool := c.rules.isEmpty

/-- The forms of an array of rules. -/
def forms? : Json.Written → Option (List RuleForm)
  | .array items => items.mapM (RuleForm.ofWritten? (Json.Written.maxNesting - 1))
  | _ => none

/-- Reads the rules of a catalog. -/
def ofText? (text : String) : Except Failure Catalog :=
  match (Json.Written.ofText? text).bind forms? with
  | none => .error (.malformed .ruleCatalog)
  | some forms => do
    let rules ← forms.mapM fun form => form.rule.mapError fun cause => Failure.rule form.name cause
    return ⟨rules⟩

/-- Reads the rules of a file with the given content, if the file can be read. -/
def ofFile? (name : String) (content? : Option String) : Except Failure Catalog :=
  match content? with
  | none => .error (.unreadable (.catalog name))
  | some text => ofText? text

end Catalog

end TripleStore
