import TripleStore.Command.Arguments

/-!
# Invocations

The commands of the program, and how they are given by arguments.
-/

namespace TripleStore.Command

/-- Runs a query and prints its rows. -/
structure QueryCommand where
  /-- The file of entities. -/
  data : String
  /-- The file of rules. -/
  rules? : Option String
  /-- The file of settings. -/
  config? : Option String
  /-- True when the steps of the search are to be printed. -/
  trace : Bool
  /-- The number of rows after which the query stops. -/
  limit? : Option Nat
  /-- True when rows are printed as JSON. -/
  json : Bool
  /-- The goals of the query. -/
  goals : String
  deriving DecidableEq

/-- Projects an entity to a record and prints it. -/
structure PullCommand where
  /-- The file of entities. -/
  data : String
  /-- The file of rules. -/
  rules? : Option String
  /-- The file of settings. -/
  config? : Option String
  /-- The identifier of the entity. -/
  id : String
  /-- The keys to pull. -/
  keys : String
  deriving DecidableEq

/-- Prints a summary of a store. -/
structure StatsCommand where
  /-- The file of entities. -/
  data : String
  /-- The file of rules. -/
  rules? : Option String
  deriving DecidableEq

/-- The names of the commands. -/
inductive Topic where
  /-- The command that runs a query. -/
  | query
  /-- The command that projects an entity. -/
  | pull
  /-- The command that summarises a store. -/
  | stats
  deriving DecidableEq

/-- What the program is asked to do. -/
inductive Invocation where
  /-- To run a query. -/
  | query (command : QueryCommand)
  /-- To project an entity. -/
  | pull (command : PullCommand)
  /-- To summarise a store. -/
  | stats (command : StatsCommand)
  /-- To say how it is used, in general or for one command. -/
  | help (topic? : Option Topic)
  /-- To say which version it is. -/
  | version
  /-- Nothing that it can do. -/
  | usage
  deriving DecidableEq

/-- A number of rows: decimal digits below `2 ^ 64`, after a plus sign if there is one. -/
def limit? (s : String) : Option Nat :=
  let digits := match s.toList with
    | '+' :: rest => rest
    | cs => cs
  if digits.isEmpty ∨ ¬ digits.all Char.isDigit then none
  else
    let n := digits.foldl (fun n c => n * 10 + (c.toNat - '0'.toNat)) 0
    if n < UInt64.size then some n else none

/-- The option for the file of entities. -/
def dataSwitch : Switch := ⟨"data", some 'd', some fun s => !s.isEmpty⟩

/-- The option for the file of rules. -/
def rulesSwitch : Switch := ⟨"rules", some 'r', some fun s => !s.isEmpty⟩

/-- The option for the file of settings. -/
def configSwitch : Switch := ⟨"config", some 'c', some fun s => !s.isEmpty⟩

/-- The option to print the steps of the search. -/
def traceSwitch : Switch := ⟨"trace", none, none⟩

/-- The option for the number of rows. -/
def limitSwitch : Switch := ⟨"limit", some 'l', some fun s => (limit? s).isSome⟩

/-- The option to print rows as JSON. -/
def jsonSwitch : Switch := ⟨"json", none, none⟩

namespace Invocation

/-- The options of a command. -/
def switches : Topic → List Switch
  | .query => [dataSwitch, rulesSwitch, configSwitch, traceSwitch, limitSwitch, jsonSwitch]
  | .pull => [dataSwitch, rulesSwitch, configSwitch]
  | .stats => [dataSwitch, rulesSwitch]

/-- The number of positional arguments of a command. -/
def positionals : Topic → Nat
  | .query => 1
  | .pull => 2
  | .stats => 0

/-- The invocation of a command with divided arguments. -/
def ofParts (topic : Topic) (args : Arguments) : Invocation :=
  match args.value? "data", topic, args.positionals with
  | some data, .query, [goals] =>
    .query {
      data := data
      rules? := args.value? "rules"
      config? := args.value? "config"
      trace := args.has "trace"
      limit? := (args.value? "limit").bind limit?
      json := args.has "json"
      goals := goals }
  | some data, .pull, [id, keys] =>
    .pull {
      data := data
      rules? := args.value? "rules"
      config? := args.value? "config"
      id := id
      keys := keys }
  | some data, .stats, [] => .stats { data := data, rules? := args.value? "rules" }
  | _, _, _ => .usage

/-- The invocation of a command with arguments. -/
def ofTopic (topic : Topic) (args : List String) : Invocation :=
  match Arguments.divide (switches topic) (positionals topic) {} args with
  | .ok args => ofParts topic args
  | .error .usage => .usage
  | .error .help => .help (some topic)

/-- The command of a name. -/
def topic? : String → Option Topic
  | "query" => some .query
  | "pull" => some .pull
  | "stats" => some .stats
  | _ => none

/-- The invocation of the program with arguments. -/
def ofArguments : List String → Invocation
  | [] => .usage
  | arg :: rest =>
    match topic? arg with
    | some topic => ofTopic topic rest
    | none =>
      match Arguments.kind arg, rest with
      | .long "version" none, _ => .version
      | .long "help" none, _ => .help none
      | .short 'V' _, _ => .version
      | .short 'h' _, _ => .help none
      | .positional, [] => if arg = "help" then .help none else .usage
      | .positional, [name] =>
        match topic? name with
        | some topic => if arg = "help" then .help (some topic) else .usage
        | none => .usage
      | _, _ => .usage

/-- The files that an invocation reads. -/
def files : Invocation → List String
  | query c => c.config?.toList ++ c.data :: c.rules?.toList
  | pull c => c.config?.toList ++ c.data :: c.rules?.toList
  | stats c => c.data :: c.rules?.toList
  | _ => []

end Invocation

end TripleStore.Command
