import TripleStore.Database.Basic
import TripleStore.Settings.Reader

/-!
# Settings

The settings of a database: its schema, whether searches are traced, how many rows a query gives and how
candidates are found. Each part has a default. Settings and attribute declarations are written by name or
as a list of parts in a fixed order.
-/

namespace TripleStore

/-! ### Declarations of attributes -/

namespace AttributeSpec

/-- An attribute declaration of the given parts. -/
def ofParts? {α : Type} (r : SettingsReader α) (many reference : Option α) : Option AttributeSpec := do
  return {
    many := ← SettingsReader.partOr? false r.bool? many
    reference := ← SettingsReader.partOr? false r.bool? reference }

/-- An attribute declaration by name, where other names are ignored, or as a list of at most two truth
values. -/
def ofValue? {α : Type} (r : SettingsReader α) (value : α) : Option AttributeSpec :=
  match r.items? value with
  | some items => if items.length ≤ 2 then ofParts? r items[0]? items[1]? else none
  | none => do
    let members ← r.members? value
    ofParts? r (← SettingsReader.part? "many" members) (← SettingsReader.part? "reference" members)

end AttributeSpec

/-- A schema: attribute declarations by name. Of the declarations of one name the last counts, but each
has to be valid. -/
def Schema.ofValue? {α : Type} (r : SettingsReader α) (value : α) : Option Schema := do
  let members ← r.members? value
  let specs ← members.mapM fun (name, value) =>
    (AttributeSpec.ofValue? r value).map fun spec => (name, spec)
  return ⟨Fields.ofList specs⟩

/-! ### Parts -/

/-- The settings of a database. -/
structure Settings where
  /-- What is declared of attributes. -/
  schema : Schema := {}
  /-- True when the steps of searches are reported. -/
  trace : Bool := false
  /-- The number of rows after which a query stops. -/
  limit? : Option Nat := none
  /-- How candidates are found. -/
  retrieval : Retrieval := .indexed
  deriving Inhabited

namespace Settings

/-- The way to find candidates that a name stands for. -/
def retrievalOfName? : String → Option Retrieval
  | "indexed" => some .indexed
  | "full_scan" => some .fullScan
  | _ => none

/-- The names of the parts of settings. -/
def names : List String := ["schema", "trace", "limit", "search"]

/-- Settings of the given parts. -/
def ofParts? {α : Type} (r : SettingsReader α) (schema trace limit search : Option α) :
    Option Settings := do
  return {
    schema := ← SettingsReader.partOr? {} (Schema.ofValue? r) schema
    trace := ← SettingsReader.partOr? false r.bool? trace
    limit? := ← SettingsReader.partOr? none r.limit? limit
    retrieval :=
      ← SettingsReader.partOr? .indexed (fun value => (r.choice? value).bind retrievalOfName?) search }

/-- Settings by name, where no other names are allowed, or as a list of at most four parts. -/
def ofValue? {α : Type} (r : SettingsReader α) (value : α) : Option Settings :=
  match r.items? value with
  | some items =>
    if items.length ≤ 4 then ofParts? r items[0]? items[1]? items[2]? items[3]? else none
  | none => do
    let members ← r.members? value
    guard (members.all fun m => names.contains m.1)
    ofParts? r (← SettingsReader.part? "schema" members) (← SettingsReader.part? "trace" members)
      (← SettingsReader.part? "limit" members) (← SettingsReader.part? "search" members)

/-! ### Files -/

/-- The last part of a path. -/
def fileName (path : String) : List Char :=
  (path.toList.reverse.takeWhile (· ≠ '/')).reverse

/-- The extension of a file name: what follows its last dot, unless the name begins with that dot. -/
def extension? (path : String) : Option String :=
  let name := fileName path
  let last := name.reverse.takeWhile (· ≠ '.')
  if last.length + 1 < name.length then some (String.ofList last.reverse) else none

/-- The format of a file of settings. -/
inductive Format where
  /-- JSON. -/
  | json
  /-- YAML. -/
  | yaml
  deriving DecidableEq

/-- Reads settings in a format. -/
def Format.settings? (text : String) : Format → Option Settings
  | .json => (Json.Written.ofText? text).bind (ofValue? .json)
  | .yaml => (Yaml.Document.ofText? text).bind fun document => ofValue? (.yaml document) document.root

/-- The format that the extension of a file name stands for. -/
def format? (path : String) : Option Format :=
  match extension? path with
  | some "json" => some .json
  | some "yaml" => some .yaml
  | some "yml" => some .yaml
  | _ => none

/-- Reads the settings of a file with the given content, if the file can be read. -/
def ofFile? (name : String) (content? : Option String) : Except Failure Settings :=
  match content?, format? name with
  | none, _ => .error (.unreadable (.config name))
  | some _, none => .error (.unknownFormat name)
  | some text, some format =>
    match format.settings? text with
    | some settings => .ok settings
    | none => .error (.malformed (.file name))

/-- The database without entries for some settings. -/
def database (settings : Settings) : Database :=
  (Database.withSchema settings.schema).setRetrieval settings.retrieval

end Settings

end TripleStore
