import TripleStore.Database.Basic

/-!
# Records

A pull projects an entity to a record: an attribute becomes its value, or the list of its values if it is
declared to have many, and a relation becomes the list of the records of the related entities. When a name
is mentioned more than once the last mention counts.
-/

namespace TripleStore

/-- What a pull takes from an entity. -/
inductive PullKey where
  /-- The value or values of an attribute. -/
  | attr (name : String)
  /-- The related entities of some relations, each with the keys to pull from them. -/
  | nested (relations : List (String × List PullKey))
  deriving Inhabited

namespace PullKey

/-! ### Reading -/

mutual

/-- A key: a text, or an object of arrays of keys. -/
def ofWritten? : Json.Written → Option PullKey
  | .string pieces => (Json.Written.text? pieces).map .attr
  | .object members => (relations? members).map fun relations => .nested (Fields.ofList relations)
  | _ => none

/-- A list of keys. -/
def keys? : List Json.Written → Option (List PullKey)
  | [] => some []
  | item :: rest => do
    let key ← ofWritten? item
    let keys ← keys? rest
    return key :: keys

/-- Relations with the keys to pull from the related entities. -/
def relations? : List (List Json.Written.Piece × Json.Written) →
    Option (List (String × List PullKey))
  | [] => some []
  | (pieces, .array items) :: rest => do
    let name ← Json.Written.text? pieces
    let keys ← keys? items
    let relations ← relations? rest
    return (name, keys) :: relations
  | _ :: _ => none

end

/-- The keys of an array, which may not be nested too deep. -/
def listOfWritten? (w : Json.Written) : Option (List PullKey) := do
  let _ ← w.json? Json.Written.maxNesting
  match w with
  | .array items => keys? items
  | _ => none

/-- Reads the keys of a pull. -/
def listOfText? (text : String) : Except Failure (List PullKey) :=
  match (Json.Written.ofText? text).bind listOfWritten? with
  | some keys => .ok keys
  | none => .error (.malformed .pullPattern)

end PullKey

namespace Database

/-- The value or values of an attribute of an entity. -/
def attributeValue (db : Database) (steps : Nat) (id : Term) (attr : String) : Traced Json :=
  if db.schema.isMany attr then do
    let values ← db.findAll steps id attr
    return .array (values.map Term.toJson)
  else do
    let value? ← db.find steps id attr
    return (value?.map Term.toJson).getD .null

mutual

/-- Adds what a key takes from an entity to a record. -/
def pullKey (db : Database) (steps : Nat) (id : Term) (record : Fields Json) :
    PullKey → Traced (Fields Json)
  | .attr name => do
    let value ← db.attributeValue steps id name
    return Fields.insert name value record
  | .nested relations => pullRelations db steps id record relations

/-- Adds what some keys take from an entity to a record. -/
def pullKeys (db : Database) (steps : Nat) (id : Term) (record : Fields Json) :
    List PullKey → Traced (Fields Json)
  | [] => pure record
  | key :: rest => do
    let record ← pullKey db steps id record key
    pullKeys db steps id record rest

/-- Adds the records of related entities to a record. -/
def pullRelations (db : Database) (steps : Nat) (id : Term) (record : Fields Json) :
    List (String × List PullKey) → Traced (Fields Json)
  | [] => pure record
  | (relation, keys) :: rest => do
    let children ← db.findAll steps id relation
    let records ← children.mapM fun child => pullKeys db steps child [] keys
    pullRelations db steps id (Fields.insert relation (.array (records.map .object)) record) rest

end

/-- The record of an entity. -/
def pull (db : Database) (steps : Nat) (id : Term) (keys : List PullKey) : Traced Json := do
  let record ← db.pullKeys steps id [] keys
  return .object record

end Database

end TripleStore
