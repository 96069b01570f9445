import TripleStore.Proofs.Database.Loading
import TripleStore.Proofs.Fields

/-!
# Documents as tables

An entity document can be written as a table with a row for each entity: the attributes of the entity and, in one more
column, its name (`Json.row`). The table has the facts of the document, and where the reader refuses the document it
refuses the table for the same reason (`Facts.ofRows_rows`). So it does not matter which of them is loaded
(**`Database.loadRows_like_loadEntities`**).
-/

namespace TripleStore

/-- The document of some entities, each a name with attributes. -/
def Json.document (entities : List (String × Fields Json)) : Json := .object (entities.map fun e => (e.1, .object e.2))

/-- The row of an entity: its attributes, and its name in the column. -/
def Json.row (column : String) (entity : String × Fields Json) : Json :=
  .object (Fields.insert column (.string entity.1) entity.2)

namespace Facts

variable {column : String} {entity : String × Fields Json} {entities : List (String × Fields Json)}

/-- The row of an entity is read as its attributes are, under its name. -/
theorem ofRow_row (h : column ∉ entity.2.map Prod.fst) (row : Nat) :
    ofRow column row (Json.row column entity) = (do
      let id ← entityOfKey entity.1
      ofEntity id (.object entity.2)) := by
  have hid : rowId row column (Fields.get? column (Fields.insert column (.string entity.1) entity.2))
      = entityOfKey entity.1 := by
    rw [Fields.get?_insert, if_pos rfl, rowId]
  rw [Json.row, ofRow, Json.members?]
  dsimp only
  rw [hid, Fields.erase_insert h]
  rfl

theorem ofRowsFrom_rows (h : ∀ entity ∈ entities, column ∉ entity.2.map Prod.fst) (row : Nat) :
    ofRowsFrom column row (entities.map (Json.row column)) = ofEntities (entities.map fun e => (e.1, .object e.2)) := by
  induction entities generalizing row with
  | nil => rfl
  | cons entity entities ih =>
    obtain ⟨hentity, hentities⟩ := List.forall_mem_cons.1 h
    rw [List.map_cons, List.map_cons, ofRowsFrom, ofEntities, ofRow_row hentity, bind_assoc, ih hentities]

/-- **The table of a document** has the facts of the document, or is refused for the same reason. -/
theorem ofRows_rows (h : ∀ entity ∈ entities, column ∉ entity.2.map Prod.fst) :
    ofRows column (entities.map (Json.row column)) = ofDocument (Json.document entities) := ofRowsFrom_rows h 0

end Facts

namespace Database

/-- **A document may be loaded as a table.** For every database, every identifier column and every document of entities
without an attribute of the name of this column, loading the rows of the entities comes to the same as loading the
document: either both return the same count and leave the same database, or both are refused for the same reason and
leave the database as it was. -/
theorem loadRows_like_loadEntities (db : Database) {column : String} {entities : List (String × Fields Json)}
    (h : ∀ entity ∈ entities, column ∉ entity.2.map Prod.fst) :
    (∃ count db', db.load (Facts.ofRows column (entities.map (Json.row column))) = (.ok count, db') ∧
      db.load (Facts.ofDocument (Json.document entities)) = (.ok count, db') ∧
        db.loadRows (entities.map (Json.row column)) column = .ok (count, db') ∧
          db.loadEntities (Json.document entities) = .ok (count, db')) ∨
      ∃ cause, db.load (Facts.ofRows column (entities.map (Json.row column))) = (.error cause, db) ∧
        db.load (Facts.ofDocument (Json.document entities)) = (.error cause, db) ∧
          db.loadRows (entities.map (Json.row column)) column = .error cause ∧
            db.loadEntities (Json.document entities) = .error cause := by
  have hload : AllOrNothing (Facts.OfDocument (Json.document entities)) List.length db
      (db.load (Facts.ofDocument (Json.document entities))) :=
    .load db (fun _ => Facts.ofDocument_eq_ok_iff) fun _ h => Facts.Read.isGround (.document h)
  simp only [loadRows, loadEntities, Facts.ofRows_rows h]
  rcases hload with ⟨cause, heq, -⟩ | ⟨facts, db', heq, -⟩
  · exact .inr ⟨cause, heq, heq, by rw [heq]; rfl, by rw [heq]; rfl⟩
  · exact .inl ⟨facts.length, db', heq, heq, by rw [heq]; rfl, by rw [heq]; rfl⟩

/-- Two parents of Ann in one array, and an entity of which nothing is said. -/
def newborns : List (String × Fields Json) :=
  [("ann", [("parent", .array [.string "bob", .string "cid"])]), ("dan", [])]

/-- Ann with an age that is no term, and after her an entity without a name. -/
def misfits : List (String × Fields Json) := [("ann", [("age", .null)]), ("", [])]

/-- Of Ann and Dan there are two facts to load, either way; and the age of Ann is what is refused either way, not the
name that is missing later. -/
theorem loadRows_newborns_misfits :
    (∃ db', family.loadRows (newborns.map (Json.row "id")) "id" = .ok (2, db') ∧
      family.loadEntities (Json.document newborns) = .ok (2, db')) ∧
      family.loadRows (misfits.map (Json.row "id")) "id" = .error .nullTerm ∧
        family.loadEntities (Json.document misfits) = .error .nullTerm := by
  have hnewborns : ∀ entity ∈ newborns, "id" ∉ entity.2.map Prod.fst := by decide
  have hmisfits : ∀ entity ∈ misfits, "id" ∉ entity.2.map Prod.fst := by decide
  have hloaded : family.loadEntities (Json.document newborns)
      = .ok (2, (family.load (Facts.ofDocument (Json.document newborns))).2) := rfl
  have hrefused : family.loadEntities (Json.document misfits) = .error .nullTerm := rfl
  constructor
  · rcases loadRows_like_loadEntities family hnewborns with ⟨_, db', -, -, hrows, hentities⟩ | ⟨_, -, -, -, hentities⟩
    · cases hentities.symm.trans hloaded
      exact ⟨_, hrows, hentities⟩
    · cases hentities.symm.trans hloaded
  · rcases loadRows_like_loadEntities family hmisfits with ⟨_, _, -, -, -, hentities⟩ | ⟨_, -, -, hrows, hentities⟩
    · cases hentities.symm.trans hrefused
    · cases hentities.symm.trans hrefused
      exact ⟨hrows, hrefused⟩

end Database

end TripleStore
