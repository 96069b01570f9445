import TripleStore.Error

/-!
# Failures

Why a document could not be used. A failure has a headline, which says what was being done, and a message,
which also says what went wrong inside a rule.
-/

namespace TripleStore

/-- A file that is read. -/
inductive Document where
  /-- A file of settings. -/
  | config (name : String)
  /-- A file of entities. -/
  | data (name : String)
  /-- A file of rules. -/
  | catalog (name : String)
  deriving DecidableEq

/-- The words for a file that is read. -/
def Document.describe : Document → String
  | config name => "config " ++ name
  | data name => "data " ++ name
  | catalog name => "rule catalog " ++ name

/-- A text that has to follow a format. -/
inductive Subject where
  /-- The goals of a query. -/
  | queryGoals
  /-- The rules of a catalog. -/
  | ruleCatalog
  /-- The keys of a pull. -/
  | pullPattern
  /-- A whole file. -/
  | file (name : String)
  deriving DecidableEq

/-- The words for a text that has to follow a format. -/
def Subject.describe : Subject → String
  | queryGoals => "query goals"
  | ruleCatalog => "rule catalog"
  | pullPattern => "pull pattern"
  | file name => name

/-- Why a document could not be used. -/
inductive Failure where
  /-- A file could not be read. -/
  | unreadable (document : Document)
  /-- The name of a file of settings does not tell its format. -/
  | unknownFormat (name : String)
  /-- A text does not follow its format. -/
  | malformed (subject : Subject)
  /-- A rule of a catalog is not valid. -/
  | rule (name : String) (cause : Invalid)
  /-- The entities of a file are not valid. -/
  | loading (name : String) (cause : Invalid)
  /-- An error in the use of the database. -/
  | error (e : Error)
  /-- A search took more steps than allowed. -/
  | outOfSteps

namespace Failure

/-- What was being done when the failure came up. -/
def headline : Failure → String
  | unreadable document => "reading " ++ document.describe
  | unknownFormat name => "config " ++ name ++ " must be json/yaml/yml"
  | malformed subject => "parsing " ++ subject.describe
  | rule name _ => "building rule `" ++ name ++ "`"
  | loading name _ => "loading " ++ name
  | error e => e.message
  | outOfSteps => "search stopped before its end"

/-- The headline and, for a rule or a file of entities, the message about its content. -/
def message : Failure → String
  | rule name cause => headline (rule name cause) ++ ": " ++ cause.message
  | loading name cause => headline (loading name cause) ++ ": " ++ cause.message
  | failure => headline failure

end Failure

end TripleStore
