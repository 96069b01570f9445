import TripleStore.Proofs.Database.Loading
import TripleStore.Settings.Basic

/-!
# The index of a database is never stale

A call that may change a database (`Database.Change`) either pushes entries, possibly none, or gives the database
another schema (`Database.apply_cases`), whether it succeeds or is refused. Both keep the index that of the entries, for
the references of the schema. So after any calls on a new database the index is what indexing its entries anew would
give (**`Database.wellIndexed_applyAll`**), and each of its parts lists what it is for: positions in ascending order,
with every position under one entity or among the open ones, and likewise for attributes.
-/

namespace TripleStore

/-! ### What the index is -/

/-- The buckets and the rest share out the positions before `n`: each is in the rest or in one bucket, and no other
position is in any. -/
structure Index.Partitions {κ : Type} (bucket : κ → List Nat) (rest : List Nat) (n : Nat) : Prop where
  covered : ∀ p, p < n ↔ p ∈ rest ∨ ∃ key, p ∈ bucket key
  apart : ∀ p ∈ rest, ∀ key, p ∉ bucket key
  disjoint : ∀ p key key', p ∈ bucket key → p ∈ bucket key' → key = key'

/-- Every part of the index lists positions in ascending order, each once. -/
structure Index.Ascending (index : Index) : Prop where
  byEntity : ∀ key, (Buckets.positions key index.byEntity).Pairwise (· < ·)
  openEntity : index.openEntity.toList.Pairwise (· < ·)
  byAttribute : ∀ key, (Buckets.positions key index.byAttribute).Pairwise (· < ·)
  openAttribute : index.openAttribute.toList.Pairwise (· < ·)
  rulesByAttribute : ∀ key, (Buckets.positions key index.rulesByAttribute).Pairwise (· < ·)
  joins : ∀ key, (Buckets.positions key index.joins).Pairwise (· < ·)

namespace Index.Lists

variable {references : List Term} {entries : List Entry} {index : Index}

theorem ascending (h : Lists references entries index) : index.Ascending where
  byEntity key := h.byEntity key ▸ pairwise_positionsWhere _ _
  openEntity := h.openEntity ▸ pairwise_positionsWhere _ _
  byAttribute key := h.byAttribute key ▸ pairwise_positionsWhere _ _
  openAttribute := h.openAttribute ▸ pairwise_positionsWhere _ _
  rulesByAttribute key := h.rulesByAttribute key ▸ pairwise_positionsWhere _ _
  joins key := h.joins key ▸ pairwise_positionsWhere _ _

end Index.Lists

/-- Entries are shared out by a term of each: those for which it is ground by what it is, and the others. -/
theorem partitions_positionsWhere (part : Entry → Term) (entries : List Entry) :
    Index.Partitions (fun key => positionsWhere (fun e => (part e).isGround && part e == key) entries)
      (positionsWhere (fun e => !(part e).isGround) entries) entries.length where
  covered p := by
    simp only [mem_positionsWhere]
    constructor
    · intro hp
      have he : entries[p]? = some entries[p] := List.getElem?_eq_getElem hp
      by_cases hground : (part entries[p]).isGround = true
      · exact .inr ⟨part entries[p], _, he, by simp [hground]⟩
      · exact .inl ⟨_, he, by simpa using hground⟩
    · rintro (⟨e, he, -⟩ | ⟨key, e, he, -⟩) <;> exact (List.getElem?_eq_some_iff.1 he).1
  apart p hp key hkey := by
    obtain ⟨e, he, hopen⟩ := mem_positionsWhere.1 hp
    obtain ⟨e', he', hground⟩ := mem_positionsWhere.1 hkey
    obtain rfl : e = e' := Option.some.inj (he.symm.trans he')
    simp_all
  disjoint p key key' hkey hkey' := by
    obtain ⟨e, he, hpart⟩ := mem_positionsWhere.1 hkey
    obtain ⟨e', he', hpart'⟩ := mem_positionsWhere.1 hkey'
    obtain rfl : e = e' := Option.some.inj (he.symm.trans he')
    simp only [Bool.and_eq_true, beq_iff_eq] at hpart hpart'
    exact hpart.2.symm.trans hpart'.2

namespace Database

variable {db : Database}

/-- The index of the database is that of its entries for the references of its schema, facts are ground, and the parts
of the index are as they should be. -/
structure WellIndexed (db : Database) : Prop where
  references : db.store.references = db.schema.references
  index : db.store.index = .ofEntries db.schema.references db.store.entries.toList
  ground : ∀ e ∈ db.store.entries, e.isFact = true → e.head.isGround = true
  ascending : db.store.index.Ascending
  entities : Index.Partitions (fun key => Buckets.positions key db.store.index.byEntity)
    db.store.index.openEntity.toList db.store.size
  attributes : Index.Partitions (fun key => Buckets.positions key db.store.index.byAttribute)
    db.store.index.openAttribute.toList db.store.size

/-! ### Changes -/

/-- The databases that are built without another one. -/
inductive New : Database → Prop
  | empty : New .empty
  | withSchema (schema : Schema) : New (.withSchema schema)
  | ofEntities {data : Json} {db : Database} : ofEntities data = .ok db → New db
  | ofSettings (settings : Settings) : New settings.database

/-- A call that may change a database. -/
inductive Change where
  /-- Append a fact. -/
  | fact (t : Triple)
  /-- Append a rule. -/
  | rule (r : Rule)
  /-- Append the rules of a catalog. -/
  | catalog (catalog : Catalog)
  /-- Load an entity document. -/
  | entities (data : Json)
  /-- Load a table with the given identifier column. -/
  | rows (rows : List Json) (column : String)
  /-- Insert an entity under a generated identifier. -/
  | insert (attributes : Json)
  /-- Replace the schema. -/
  | schema (schema : Schema)
  /-- Choose how candidates are found. -/
  | retrieval (retrieval : Retrieval)

/-- The database after a call, whether it succeeds or is refused. -/
def apply (db : Database) : Change → Database
  | .fact t =>
    match db.addFact t with
    | .ok db => db
    | .error _ => db
  | .rule r => db.addRule r
  | .catalog catalog => db.addCatalog catalog
  | .entities data => (db.load (Facts.ofDocument data)).2
  | .rows rows column => (db.load (Facts.ofRows column rows)).2
  | .insert attributes => (db.insert attributes).2
  | .schema schema => db.setSchema schema
  | .retrieval retrieval => db.setRetrieval retrieval

/-- The database after some calls. -/
def applyAll (db : Database) (changes : List Change) : Database := changes.foldl apply db

/-- **What a call can do**: push entries and leave the schema, or replace the schema. -/
theorem apply_cases (db : Database) (c : Change) :
    db.store.Extended (db.apply c).store ∧ (db.apply c).schema = db.schema ∨
      ∃ schema, db.apply c = db.setSchema schema := by
  cases c with
  | fact t =>
    refine .inl ?_
    rw [apply]
    split
    · rename_i db' h
      obtain ⟨st, -, rfl⟩ := addFact_eq_ok h
      exact ⟨addFact_extended h, rfl⟩
    · exact ⟨.refl, rfl⟩
  | rule r => exact .inl ⟨.single (.inr ⟨r, rfl⟩), rfl⟩
  | catalog catalog => exact .inl ⟨addCatalog_extended db catalog, addCatalog_schema db catalog⟩
  | entities data => exact .inl ⟨load_extended db _, load_schema db _⟩
  | rows rows column => exact .inl ⟨load_extended db _, load_schema db _⟩
  | insert attributes =>
    let n := freshNumber db.store db.store.size db.lastId
    have hschema := load_schema { db with lastId := n } (Facts.ofEntity (generatedId n) attributes)
    exact .inl ⟨insert_extended db attributes, hschema⟩
  | schema schema => exact .inr ⟨schema, rfl⟩
  | retrieval retrieval => exact .inl ⟨.refl, rfl⟩

/-- The store of the database has been built step by step, and its references are those of the schema. -/
def Consistent (db : Database) : Prop := db.store.Reachable ∧ db.store.references = db.schema.references

theorem Consistent.of_extended {db' : Database} (h : db.Consistent) (hextended : db.store.Extended db'.store)
    (hschema : db'.schema = db.schema) : db'.Consistent :=
  ⟨hextended.reachable h.1, by rw [hextended.references_eq, hschema, h.2]⟩

theorem New.consistent (h : New db) : db.Consistent := by
  cases h with
  | empty => exact ⟨.withReferences [], rfl⟩
  | withSchema schema => exact ⟨.withReferences _, rfl⟩
  | ofSettings settings => exact ⟨.withReferences _, rfl⟩
  | @ofEntities data _ h =>
    cases hload : Database.empty.loadEntities data with
    | error cause =>
      rw [Database.ofEntities, hload] at h
      cases h
    | ok loaded =>
      rw [Database.ofEntities, hload] at h
      cases h
      have hload := loadEntities_eq_ok_iff.1 hload
      have hschema := load_schema .empty (Facts.ofDocument data)
      rw [hload] at hschema
      exact .of_extended ⟨.withReferences [], rfl⟩ (extended_of_load hload) hschema

/-- A call keeps the references of the store those of the schema. -/
theorem Consistent.apply (h : db.Consistent) (c : Change) : (db.apply c).Consistent := by
  rcases apply_cases db c with ⟨hextended, hschema⟩ | ⟨schema, heq⟩
  · exact h.of_extended hextended hschema
  · rw [heq]
    exact ⟨.setReferences _ h.1, rfl⟩

theorem Consistent.applyAll (h : db.Consistent) (changes : List Change) : (db.applyAll changes).Consistent := by
  induction changes generalizing db with
  | nil => exact h
  | cons c changes ih => exact ih (h.apply c)

/-- A call leaves the entries where they are. -/
theorem prefix_apply (db : Database) (c : Change) : db.store.entries.toList <+: (db.apply c).store.entries.toList := by
  rcases apply_cases db c with ⟨hextended, -⟩ | ⟨schema, heq⟩
  · exact hextended.prefix_entries
  · rw [heq]
    exact List.prefix_rfl

theorem prefix_applyAll (db : Database) (changes : List Change) :
    db.store.entries.toList <+: (db.applyAll changes).store.entries.toList := by
  induction changes generalizing db with
  | nil => exact List.prefix_rfl
  | cons c changes ih => exact (prefix_apply db c).trans (ih (db.apply c))

theorem Consistent.wellIndexed (h : db.Consistent) : db.WellIndexed := by
  have hlists := h.1.lists
  refine ⟨h.2, ?_, ?_, hlists.ascending, ?_, ?_⟩
  · rw [← h.2]
    exact h.1.index_eq
  · rintro (⟨t, ground⟩ | r) - hfact
    · exact ground
    · cases hfact
  · rw [hlists.openEntity, funext hlists.byEntity, Store.size, ← Array.length_toList]
    exact partitions_positionsWhere (fun e => e.head.entity) _
  · rw [hlists.openAttribute, funext hlists.byAttribute, Store.size, ← Array.length_toList]
    exact partitions_positionsWhere (fun e => e.head.attr) _

/-- **The index is never stale.** After any calls on a new database, those that are refused included, the index is what
indexing its entries anew for its schema would give; a fact is accepted exactly when it is ground; and whatever calls
come later, the entries stay where they are. -/
theorem wellIndexed_applyAll (h : New db) (changes : List Change) :
    (db.applyAll changes).WellIndexed ∧
      (∀ t, (∃ db', (db.applyAll changes).addFact t = .ok db') ↔ t.isGround = true) ∧
      ∀ later, (db.applyAll changes).store.entries.toList <+:
        ((db.applyAll changes).applyAll later).store.entries.toList := by
  refine ⟨(h.consistent.applyAll changes).wellIndexed, fun t => ⟨?_, fun ground => ⟨_, addFact_of_isGround ground⟩⟩,
    prefix_applyAll _⟩
  rintro ⟨db', hadd⟩
  obtain ⟨st, hadd, -⟩ := addFact_eq_ok hadd
  obtain ⟨ground, -⟩ := Store.addFact_eq_ok hadd
  exact ground

/-! ### An example -/

/-- Ann and her son, a rule, a document that is refused at its end, a sister of Ann, and a schema without references. -/
def Change.family : List Change :=
  [.fact ⟨.str "ann", .str "parent", .str "bob"⟩, .rule .ancestor,
    .entities (.object [("bob", .object [("parent", .string "cid")]), ("cid", .object [("parent", .null)])]),
    .insert (.object [("sister", .string "ann")]), .schema {}]

/-- Three of these calls have added an entry, and the index has followed. -/
theorem wellIndexed_family : ((withSchema family.schema).applyAll Change.family).store.size = 3 ∧
    ((withSchema family.schema).applyAll Change.family).WellIndexed :=
  ⟨rfl, (wellIndexed_applyAll (.withSchema _) _).1⟩

end Database

end TripleStore
