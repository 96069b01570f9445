import TripleStore.Json.Terms

/-!
# Facts from documents

An entity document maps entity identifiers to attributes with values; a table is a list of rows with the
identifier in one of the columns. An array is several values of one attribute, in the order of its items;
an array inside an array is a sequence. Facts come in the order of the document, the attributes of an
entity in the order of their names.
-/

namespace TripleStore

/-- The entity named by the key of a document. -/
def entityOfKey (key : String) : Except Invalid Term :=
  if key = "" then .error .emptyId else .ok (.str key)

namespace Facts

/-- The values of an attribute. -/
def values : Json → Except Invalid (List Term)
  | .array items => Term.ofJsons items
  | value => (Term.ofJson value).map fun t => [t]

/-- The facts of the attributes of an entity. -/
def ofMembers (id : Term) : List (String × Json) → Except Invalid (List Triple)
  | [] => .ok []
  | (name, value) :: rest => do
    let terms ← values value
    let facts ← ofMembers id rest
    return terms.map (fun t => ⟨id, .str name, t⟩) ++ facts

/-- The facts of an entity. -/
def ofEntity (id : Term) (body : Json) : Except Invalid (List Triple) :=
  match body.members? with
  | some members => ofMembers id members
  | none => .error (.entityNotObject id)

/-- The facts of the entities of a document. -/
def ofEntities : List (String × Json) → Except Invalid (List Triple)
  | [] => .ok []
  | (key, body) :: rest => do
    let id ← entityOfKey key
    let facts ← ofEntity id body
    let others ← ofEntities rest
    return facts ++ others

/-- The facts of an entity document. -/
def ofDocument (data : Json) : Except Invalid (List Triple) :=
  match data.members? with
  | some entities => ofEntities entities
  | none => .error .documentNotObject

/-- The identifier of a row, from the value in its identifier column. -/
def rowId (row : Nat) (column : String) : Option Json → Except Invalid Term
  | none => .error (.rowWithoutId row column)
  | some .null => .error (.rowWithoutId row column)
  | some (.string s) => entityOfKey s
  | some value => Term.ofJson value

/-- The facts of a row. -/
def ofRow (column : String) (row : Nat) (value : Json) : Except Invalid (List Triple) :=
  match value.members? with
  | some columns => do
    let id ← rowId row column (Fields.get? column columns)
    ofMembers id (Fields.erase column columns)
  | none => .error (.rowNotObject row)

/-- The facts of rows that are numbered from `row` on. -/
def ofRowsFrom (column : String) (row : Nat) : List Json → Except Invalid (List Triple)
  | [] => .ok []
  | value :: rest => do
    let facts ← ofRow column row value
    let others ← ofRowsFrom column (row + 1) rest
    return facts ++ others

/-- The facts of a table. -/
def ofRows (column : String) (rows : List Json) : Except Invalid (List Triple) :=
  ofRowsFrom column 0 rows

end Facts

end TripleStore
