import TripleStore.Json.Reading
import TripleStore.Yaml.Node

/-!
# Reading settings from values

Settings are written in JSON or in YAML. What both have in common is a reader: the ways in which a value of
the format can be read as a part of settings. In JSON parts may also be given by their places in a list, and
a choice as the only member of an object. In YAML a value may be a reference to another one.
-/

namespace TripleStore

/-- The ways to read a value as a part of settings. -/
structure SettingsReader (α : Type) where
  /-- The named values that a value consists of, in the order of the text. -/
  members? : α → Option (List (String × α))
  /-- The values that a value consists of, where these are told apart by their places. -/
  items? : α → Option (List α)
  /-- A value as a truth value. -/
  bool? : α → Option Bool
  /-- A value as a number below `2 ^ 64`, or as none. -/
  limit? : α → Option (Option Nat)
  /-- A value as the name of a choice. -/
  choice? : α → Option String

namespace SettingsReader

/-- Numbers that a limit can be. -/
def isLimit (n : Nat) : Bool := n < UInt64.size

/-! ### JSON -/

/-- A JSON value as a limit. -/
def limitOfJson? : Json.Written → Option (Option Nat)
  | .null => some none
  | .number n =>
    match Json.Number.ofWritten? n with
    | some (.integer n) => if 0 ≤ n && isLimit n.toNat then some (some n.toNat) else none
    | _ => none
  | _ => none

/-- A JSON value as a choice: a text, or an object with one member that is `null`. -/
def choiceOfJson? : Json.Written → Option String
  | .string pieces => Json.Written.text? pieces
  | .object [(name, .null)] => Json.Written.text? name
  | _ => none

/-- The ways to read a JSON value. -/
def json : SettingsReader Json.Written where
  members?
    | .object members => members.mapM fun (name, value) => (Json.Written.text? name).map (·, value)
    | _ => none
  items?
    | .array items => some items
    | _ => none
  bool?
    | .bool b => some b
    | _ => none
  limit? := limitOfJson?
  choice? := choiceOfJson?

/-! ### YAML -/

/-- The scalar that is meant where a node stands. -/
def scalarOfYaml? (document : Yaml.Document) (node : Yaml.Node) : Option Yaml.Scalar :=
  match document.content? node with
  | some (.scalar s) => some s
  | _ => none

/-- The members of the mapping that is meant where a node stands; none where nothing is written. -/
def membersOfYaml? (document : Yaml.Document) (node : Yaml.Node) : Option (List (String × Yaml.Node)) :=
  match document.content? node with
  | some (.mapping members) =>
    members.mapM fun (key, value) => (scalarOfYaml? document key).map fun s => (s.text, value)
  | some (.scalar s) => if s.isBlank then some [] else none
  | _ => none

/-- A YAML node as a limit. -/
def limitOfYaml? (document : Yaml.Document) (node : Yaml.Node) : Option (Option Nat) := do
  match ← (← scalarOfYaml? document node).numberOrNull? with
  | none => return none
  | some n => if isLimit n then return some n else none

/-- The ways to read a node of a YAML document. -/
def yaml (document : Yaml.Document) : SettingsReader Yaml.Node where
  members? := membersOfYaml? document
  items? _ := none
  bool? node := (scalarOfYaml? document node).bind Yaml.Scalar.bool?
  limit? := limitOfYaml? document
  choice? node := (scalarOfYaml? document node).bind Yaml.Scalar.choice?

/-! ### Parts -/

/-- The member of the given name, if there is one; a name must not be repeated. -/
def part? {α : Type} (name : String) (members : List (String × α)) : Option (Option α) :=
  match members.filter fun m => m.1 = name with
  | [] => some none
  | [m] => some (some m.2)
  | _ => none

/-- Reads a part, if there is one, and takes a default if there is none. -/
def partOr? {α β : Type} (default : β) (read? : α → Option β) : Option α → Option β
  | none => some default
  | some value => read? value

end SettingsReader

end TripleStore
