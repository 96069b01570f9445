import TripleStore.Fields
import TripleStore.Term.Basic

/-!
# Schemas

A schema says of some attributes whether they have many values per entity and whether their values are
entities.
-/

namespace TripleStore

/-- What a schema says of an attribute. -/
structure AttributeSpec where
  /-- True when an entity may have several values. -/
  many : Bool := false
  /-- True when the values are entities. -/
  reference : Bool := false
  deriving DecidableEq, Inhabited

/-- What is said of attributes, by their names. -/
structure Schema where
  /-- The attributes that are declared. -/
  attributes : Fields AttributeSpec := []
  deriving DecidableEq, Inhabited

namespace Schema

/-- What is said of an attribute; nothing special if it is not declared. -/
def get (schema : Schema) (name : String) : AttributeSpec :=
  (Fields.get? name schema.attributes).getD {}

/-- True when an attribute may have several values per entity. -/
def isMany (schema : Schema) (name : String) : Bool := (schema.get name).many

/-- The attributes whose values are entities. -/
def references (schema : Schema) : List Term :=
  (schema.attributes.filter fun f => f.2.reference).map fun f => .str f.1

end Schema

end TripleStore
