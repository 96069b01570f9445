import TripleStore.Command.Help
import TripleStore.Database.Record
import TripleStore.Settings.Basic

/-!
# Running commands

A command loads the settings, then the entities, then the rules, and only then reads the goals or keys. It
ends with an exit code, with what it prints and with what it reports: the lines of a trace, and the
headline of a failure. Rows that were found before a failure are printed.
-/

namespace TripleStore.Command

/-- Where a command runs. -/
structure Environment where
  /-- The content of a file, if it can be read as a text. -/
  read? : String → Option String
  /-- True when texts are styled. -/
  colour : Bool
  /-- The number of steps that one search may take. -/
  steps : Nat

/-- What comes of a command. -/
structure Outcome where
  /-- The exit code. -/
  exitCode : Nat
  /-- The text for the standard output. -/
  stdout : String
  /-- The text for the standard error. -/
  stderr : String
  deriving DecidableEq

namespace Outcome

/-- The outcome of a command that prints and reports some lines and may fail after them. -/
def ofLines (printed reported : List String) (failure? : Option Failure) : Outcome :=
  match failure? with
  | none => ⟨0, unlines printed, unlines reported⟩
  | some failure => ⟨1, unlines printed, unlines (reported ++ ["Error: " ++ failure.headline])⟩

/-- The outcome of a command that fails before it prints anything. -/
def failed (failure : Failure) : Outcome := ofLines [] [] (some failure)

end Outcome

/-! ### Loading -/

/-- The settings of a file, or the default ones. -/
def settings (env : Environment) : Option String → Except Failure Settings
  | none => .ok {}
  | some name => Settings.ofFile? name (env.read? name)

/-- The entity document of a file. -/
def document (env : Environment) (name : String) : Except Failure Json :=
  match env.read? name with
  | none => .error (.unreadable (.data name))
  | some text =>
    match Json.ofText? text with
    | none => .error (.malformed (.file name))
    | some data => .ok data

/-- The database of a file of entities and a file of rules. -/
def database (env : Environment) (settings : Settings) (data : String) (rules? : Option String) :
    Except Failure Database := do
  let content ← document env data
  let (_, db) ← (settings.database.loadEntities content).mapError (.loading data)
  match rules? with
  | none => return db
  | some name =>
    let catalog ← Catalog.ofFile? name (env.read? name)
    return db.addCatalog catalog

/-! ### Queries -/

/-- The line of a row. -/
def rowLine (colour json : Bool) (row : Row) : String :=
  if json then (Json.object (row.fields.map fun (name, t) => (name, t.toJson))).compact
  else
    "  ".intercalate (row.fields.map fun (name, t) =>
      Text.styled colour .bold name ++ "=" ++ t.display)

/-- The line after the rows, with their number. -/
def countLine (colour : Bool) (count : Nat) : String :=
  Text.styled colour (if count = 0 then .yellow else .green) (toString count ++ " row(s)")

/-- The failure that a drain ends with, if it does. -/
def failure? : Ending → Option Failure
  | .exhausted => none
  | .limit => none
  | .error e => some (.error (.uninstantiated e))
  | .outOfSteps => some .outOfSteps

/-- Runs a query. -/
def runQuery (env : Environment) (c : QueryCommand) : Outcome :=
  let prepared := do
    let settings ← settings env c.config?
    let db ← database env settings c.data c.rules?
    let query ← Query.ofText? c.goals
    return (settings, db, query)
  match prepared with
  | .error failure => .failed failure
  | .ok (settings, db, query) =>
    let drain := db.rows env.steps query (c.limit?.or settings.limit?)
    let trace := if c.trace || settings.trace then Event.lines env.colour drain.events.toList else []
    let rows := drain.items.toList.map (rowLine env.colour c.json)
    let failure? := failure? drain.ending
    let count := if c.json || failure?.isSome then [] else [countLine env.colour drain.items.size]
    .ofLines (rows ++ count) trace failure?

/-! ### Records -/

/-- Projects an entity. -/
def runPull (env : Environment) (c : PullCommand) : Outcome :=
  let prepared := do
    let settings ← settings env c.config?
    let db ← database env settings c.data c.rules?
    let keys ← PullKey.listOfText? c.keys
    return (settings, db, keys)
  match prepared with
  | .error failure => .failed failure
  | .ok (settings, db, keys) =>
    let record := db.pull env.steps (.str c.id) keys
    let trace := if settings.trace then Event.lines env.colour record.events else []
    match record.result with
    | .ok record => .ofLines [record.pretty] trace none
    | .error failure => .ofLines [] trace (some failure)

/-! ### Summaries -/

/-- The name of an attribute in a summary. -/
def attributeName (t : Term) : String := t.text?.getD t.display

/-- The lines that summarise a store. -/
def summary (colour : Bool) (st : Store) : List String := [
  Text.styled colour .boldYellow "STORE SUMMARY",
  "  Facts:      " ++ toString st.factCount,
  "  Rules:      " ++ toString st.ruleCount,
  "  Entities:   " ++ toString st.entities.length,
  "  Attributes: " ++ ", ".intercalate (st.attributes.map attributeName)]

/-- Summarises a store. -/
def runStats (env : Environment) (c : StatsCommand) : Outcome :=
  match database env {} c.data c.rules? with
  | .error failure => .failed failure
  | .ok db => .ofLines (summary env.colour db.store) [] none

/-! ### The program -/

/-- Does what the program is asked to do. -/
def run (env : Environment) : Invocation → Outcome
  | .query c => runQuery env c
  | .pull c => runPull env c
  | .stats c => runStats env c
  | .help topic? => ⟨0, helpText topic?, ""⟩
  | .version => ⟨0, versionLine, ""⟩
  | .usage => ⟨2, "", helpText none⟩

end TripleStore.Command
