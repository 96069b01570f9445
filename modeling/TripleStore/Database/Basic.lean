import TripleStore.Database.Facts
import TripleStore.Database.Traced
import TripleStore.Catalog.Basic
import TripleStore.Schema
import TripleStore.Search.Rows

/-!
# Databases

A database is a store with a schema, a way to find candidates and a counter for generated identifiers.
Documents are loaded as a whole or not at all. Questions are answered by searches; each takes a bound on
the number of steps of one search.
-/

namespace TripleStore

/-- A store with what is needed to use it. -/
structure Database where
  /-- The facts and rules. -/
  store : Store := .empty
  /-- What is declared of attributes. -/
  schema : Schema := {}
  /-- How candidates are found. -/
  retrieval : Retrieval := .indexed
  /-- The number of the latest generated identifier. -/
  lastId : Nat := 0

namespace Database

/-- The database without entries. -/
def empty : Database := {}

instance : Inhabited Database := ⟨empty⟩

/-- The database without entries for a schema. -/
def withSchema (schema : Schema) : Database :=
  { store := .withReferences schema.references, schema := schema }

/-- Replaces the schema; the store is indexed anew for its reference attributes. -/
def setSchema (schema : Schema) (db : Database) : Database :=
  { db with store := db.store.setReferences schema.references, schema := schema }

/-- Chooses how candidates are found. -/
def setRetrieval (retrieval : Retrieval) (db : Database) : Database := { db with retrieval := retrieval }

/-! ### Additions -/

/-- Appends a fact. -/
def addFact (db : Database) (fact : Triple) : Except Invalid Database :=
  (db.store.addFact fact).map fun store => { db with store := store }

/-- Appends a rule. -/
def addRule (db : Database) (r : Rule) : Database := { db with store := db.store.addRule r }

/-- Appends the rules of a catalog. -/
def addCatalog (db : Database) (catalog : Catalog) : Database := catalog.rules.foldl addRule db

/-- Appends facts one by one. One that is refused is the last to be looked at, and those before it stay. -/
def addFacts (db : Database) : List Triple → Except Invalid Unit × Database
  | [] => (.ok (), db)
  | fact :: rest =>
    match db.addFact fact with
    | .ok db => addFacts db rest
    | .error cause => (.error cause, db)

/-- Appends the facts that have been read from some input, if it could be read, and returns their number. -/
def load (db : Database) (read : Except Invalid (List Triple)) : Except Invalid Nat × Database :=
  match read with
  | .ok facts =>
    let (added, db) := db.addFacts facts
    (added.map fun _ => facts.length, db)
  | .error cause => (.error cause, db)

/-- Appends the facts of an entity document and returns their number. -/
def loadEntities (db : Database) (data : Json) : Except Invalid (Nat × Database) :=
  let (count, db) := db.load (Facts.ofDocument data)
  count.map fun n => (n, db)

/-- The database of an entity document. -/
def ofEntities (data : Json) : Except Invalid Database := (empty.loadEntities data).map (·.2)

/-- Appends the facts of rows whose identifiers are in the given column and returns their number. -/
def loadRows (db : Database) (rows : List Json) (column : String) : Except Invalid (Nat × Database) :=
  let (count, db) := db.load (Facts.ofRows column rows)
  count.map fun n => (n, db)

/-- The identifier that is generated for a number. -/
def generatedId (n : Nat) : Term := .str ("e" ++ toString n)

/-- The first number after `n` whose identifier no entry has, within a number of tries. -/
def freshNumber (store : Store) : (tries : Nat) → (n : Nat) → Nat
  | 0, n => n + 1
  | tries + 1, n =>
    if store.hasEntity (generatedId (n + 1)) then freshNumber store tries (n + 1) else n + 1

/-- Appends an entity under a generated identifier and returns the identifier. The identifier is used up
even when the attributes are refused. A store has at most as many entities as entries, so one more try
than it has entries is enough. -/
def insert (db : Database) (attributes : Json) : Except Invalid Term × Database :=
  let n := freshNumber db.store db.store.size db.lastId
  let (count, db) := load { db with lastId := n } (Facts.ofEntity (generatedId n) attributes)
  (count.map fun _ => generatedId n, db)

/-! ### Questions -/

/-- One step to the next row of a query. -/
def rowStep (db : Database) (query : Query) : Rows → Step Rows Row :=
  Rows.step db.store db.retrieval query

/-- The rows of a query, up to a number of rows if one is given. -/
def rows (db : Database) (steps : Nat) (query : Query) (limit? : Option Nat) : Drain Rows Row :=
  Step.drain (db.rowStep query) limit? steps (.start query)

/-- The first row of a query, if there is one. -/
def firstRow (db : Database) (steps : Nat) (query : Query) : Traced (Option Row) :=
  let pull := Step.pull (db.rowStep query) steps (.start query)
  let result :=
    match pull.result with
    | .answer row => .ok (some row)
    | .done => .ok none
    | .error e => .error (.error (.uninstantiated e))
    | .outOfSteps => .error .outOfSteps
  ⟨result, pull.events.toList⟩

/-- All rows of a query. -/
def allRows (db : Database) (steps : Nat) (query : Query) : Traced (List Row) :=
  let drain := db.rows steps query none
  let result :=
    match drain.ending with
    | .exhausted => .ok drain.items.toList
    | .limit => .ok drain.items.toList
    | .error e => .error (.error (.uninstantiated e))
    | .outOfSteps => .error .outOfSteps
  ⟨result, drain.events.toList⟩

/-- A query whose goals mention one named variable. -/
def queryOf (name : String) (goals : Term → List Goal) : Traced Query :=
  let (v, scope) := Scope.empty.var name
  Traced.lift ((Query.ofGoals? scope (goals (.var v))).mapError fun cause => .error (.invalid cause))

/-- The query for the values of an attribute of an entity. -/
def valueQuery (id : Term) (attr : String) : Traced Query :=
  queryOf "value" fun value => [.pattern ⟨id, .str attr, value⟩]

/-- The first value of an attribute of an entity. -/
def find (db : Database) (steps : Nat) (id : Term) (attr : String) : Traced (Option Term) := do
  let query ← valueQuery id attr
  let row? ← db.firstRow steps query
  return row?.bind fun row => row.get? "value"

/-- All values of an attribute of an entity. -/
def findAll (db : Database) (steps : Nat) (id : Term) (attr : String) : Traced (List Term) := do
  let query ← valueQuery id attr
  let rows ← db.allRows steps query
  return rows.filterMap fun row => row.get? "value"

/-- The entities that have every one of some attributes with some values, each once, in the order in which
they are found. -/
def entitiesWhere (db : Database) (steps : Nat) (params : List (String × Term)) : Traced (List Term) := do
  let query ← queryOf "id" fun id => params.map fun (attr, value) => .pattern ⟨id, .str attr, value⟩
  let rows ← db.allRows steps query
  return (rows.filterMap fun row => row.get? "id").eraseDups

end Database

end TripleStore
