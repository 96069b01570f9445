import TripleStore.Command.Invocation

/-!
# Help texts

How the program and its commands are used.
-/

namespace TripleStore.Command

/-- The version of the program. -/
def versionLine : String := "triplog 0.3.0\n"

/-- The summary of a command. -/
def Topic.summary : Topic → String
  | query => "Run a conjunctive query"
  | pull => "Project an entity into a nested record"
  | stats => "Summarise the loaded store"

/-- The options and arguments of a command on one line. -/
def Topic.usage : Topic → String
  | query => "triplog query [OPTIONS] --data <DATA> <GOALS>"
  | pull => "triplog pull [OPTIONS] --data <DATA> <ID> <KEYS>"
  | stats => "triplog stats [OPTIONS] --data <DATA>"

/-- The lines about the arguments and options of a command. -/
def Topic.details : Topic → List String
  | query => [
      "Arguments:",
      "  <GOALS>  Goal list, e.g. '[[\"?p\", \"name\", \"Adam\"], [\"?p\", \"father_of\", \"?c\"]]'",
      "",
      "Options:",
      "  -d, --data <DATA>      Entity document: \x7b \"id\": \x7b \"attribute\": value \x7d \x7d",
      "  -r, --rules <RULES>    Rule catalog (JSON)",
      "  -c, --config <CONFIG>  Configuration file (json/yaml/yml)",
      "      --trace            Print every resolution step to stderr",
      "  -l, --limit <LIMIT>    Stop after this many rows",
      "      --json             Emit rows as JSON",
      "  -h, --help             Print help"]
  | pull => [
      "Arguments:",
      "  <ID>    Entity id",
      "  <KEYS>  Pull pattern, e.g. '[\"name\", \x7b\"father_of\": [\"name\"]\x7d]'",
      "",
      "Options:",
      "  -d, --data <DATA>      ",
      "  -r, --rules <RULES>    ",
      "  -c, --config <CONFIG>  ",
      "  -h, --help             Print help"]
  | stats => [
      "Options:",
      "  -d, --data <DATA>    ",
      "  -r, --rules <RULES>  ",
      "  -h, --help           Print help"]

/-- The lines about the program. -/
def overview : List String := [
  "In-process deductive triple store with backtracking rule resolution",
  "",
  "Usage: triplog <COMMAND>",
  "",
  "Commands:",
  "  query  Run a conjunctive query",
  "  pull   Project an entity into a nested record",
  "  stats  Summarise the loaded store",
  "  help   Print this message or the help of the given subcommand(s)",
  "",
  "Options:",
  "  -h, --help     Print help",
  "  -V, --version  Print version"]

/-- Joins lines, each with a line break at its end. -/
def unlines (lines : List String) : String := String.join (lines.map fun line => line ++ "\n")

/-- The help text for the program or for one command. -/
def helpText : Option Topic → String
  | none => unlines overview
  | some topic => unlines ([topic.summary, "", "Usage: " ++ topic.usage, ""] ++ topic.details)

end TripleStore.Command
