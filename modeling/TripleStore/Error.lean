import TripleStore.Goal
import TripleStore.Json.Printer

/-!
# Errors

Why an input is refused, and the message for each cause.
-/

namespace TripleStore

/-- Why an input is not valid. -/
inductive Invalid where
  /-- A fact has a variable in one of its positions. -/
  | factNotGround (fact : Triple) (position : Term)
  /-- A rule begins with a check. -/
  | headNotPattern (condition : Check)
  /-- A rule has no goal at all. -/
  | noHead
  /-- A goal mentions a variable that its scope has not given out. -/
  | outOfScope (goal : Goal) (var : Nat)
  /-- A question mark with no name after it. -/
  | missingName
  /-- A null where a term is needed. -/
  | nullTerm
  /-- A number that is not a 64-bit integer where a term is needed. -/
  | numberTerm (n : Json.Number)
  /-- An object where a term is needed. -/
  | objectTerm (value : Json)
  /-- The entities of a document are not named. -/
  | documentNotObject
  /-- The attributes of an entity are not named. -/
  | entityNotObject (id : Term)
  /-- The identifier of an entity is the empty text. -/
  | emptyId
  /-- The columns of a row are not named. -/
  | rowNotObject (row : Nat)
  /-- A row has no value in its identifier column. -/
  | rowWithoutId (row : Nat) (column : String)

namespace Invalid

/-- The description of a cause. -/
def describe : Invalid → String
  | factNotGround fact position =>
    "fact " ++ fact.display ++ " is not ground: " ++ position.display
  | headNotPattern condition => "rule head must be a triple pattern, got " ++ condition.display
  | noHead => "rule has no head"
  | outOfScope goal var =>
    "goal " ++ goal.display ++ " uses variable " ++ (Term.var var).display ++ " outside its scope"
  | missingName => "variable name missing after `?`"
  | nullTerm => "null has no term form"
  | numberTerm n => "unsupported number " ++ n.display
  | objectTerm value => "object " ++ value.compact ++ " has no term form"
  | documentNotObject => "entity data must be a JSON object"
  | entityNotObject id => "entity " ++ id.display ++ " must map attributes to values"
  | emptyId => "entity id must not be empty"
  | rowNotObject row => "row " ++ toString row ++ " is not an object"
  | rowWithoutId row column => "row " ++ toString row ++ " has no `" ++ column ++ "` identifier"

/-- The message about an invalid input. -/
def message (cause : Invalid) : String := "invalid input: " ++ cause.describe

end Invalid

/-- What can go wrong in the use of a database. -/
inductive Error where
  /-- An input was refused. -/
  | invalid (cause : Invalid)
  /-- A check was reached before its arguments were instantiated. -/
  | uninstantiated (argument : Uninstantiated)

/-- The message of an error. -/
def Error.message : Error → String
  | invalid cause => cause.message
  | uninstantiated argument => argument.message

end TripleStore
