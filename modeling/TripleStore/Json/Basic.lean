import TripleStore.Fields

/-!
# JSON values

A JSON value as its readers see it: the members of an object are fields, and a number is either an
integer or a floating-point number.
-/

namespace TripleStore

/-- A JSON number. -/
inductive Json.Number where
  /-- An integer, written without fraction and exponent. -/
  | integer (n : Int)
  /-- A floating-point number. -/
  | decimal (x : Float)
  deriving Inhabited

/-- A JSON value. -/
inductive Json where
  /-- The value `null`. -/
  | null
  /-- A truth value. -/
  | bool (b : Bool)
  /-- A number. -/
  | number (n : Json.Number)
  /-- A text. -/
  | string (s : String)
  /-- A list of values. -/
  | array (items : List Json)
  /-- Named values, in ascending order of their names. -/
  | object (members : List (String × Json))
  deriving Inhabited

namespace Json

/-- An integer as a value. -/
def ofInt (n : Int) : Json := .number (.integer n)

/-- The members of an object. -/
def members? : Json → Option (Fields Json)
  | .object members => some members
  | _ => none

/-- The object with the given members, in which the last value of each name counts. -/
def ofFields (members : List (String × Json)) : Json := .object (Fields.ofList members)

end Json

end TripleStore
