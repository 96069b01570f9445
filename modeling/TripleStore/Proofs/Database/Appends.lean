import TripleStore.Database.Basic
import TripleStore.Proofs.Search.Additions
import TripleStore.Proofs.Search.ClauseOrder

/-!
# Appending to a database

However something is appended to a database, entries are pushed to its store one by one and nothing else happens to it
(`Database.Appends.extended`): the entries that it had stay where they are, and others follow
(`Store.Extended.prefix_entries`). So if the rows of a query come to their end after appending, they did before, and
what has been appended has only put more rows between them (**`Database.rows_sublist_of_appends`**).
-/

namespace TripleStore

open Relation

namespace Store

variable {st st' : Store}

/-- The second store is the first one after a fact or a rule has been added. -/
def Added (st st' : Store) : Prop := (∃ t, st.addFact t = .ok st') ∨ ∃ r, st.addRule r = st'

/-- The second store is the first one after some facts and rules have been added. -/
def Extended : Store → Store → Prop := ReflTransGen Added

theorem Added.exists_push (h : st.Added st') : ∃ e, st' = st.push e := by
  rcases h with ⟨t, h⟩ | ⟨r, rfl⟩
  · obtain ⟨ground, rfl⟩ := addFact_eq_ok h
    exact ⟨_, rfl⟩
  · exact ⟨_, rfl⟩

theorem Extended.references_eq (h : st.Extended st') : st'.references = st.references := by
  induction h with
  | refl => rfl
  | tail _ hadded ih =>
    obtain ⟨e, rfl⟩ := hadded.exists_push
    exact ih

theorem Extended.prefix_entries (h : st.Extended st') : st.entries.toList <+: st'.entries.toList := by
  induction h with
  | refl => exact List.prefix_rfl
  | tail _ hadded ih =>
    obtain ⟨e, rfl⟩ := hadded.exists_push
    refine ih.trans ?_
    rw [push, Array.toList_push]
    exact List.prefix_append _ _

theorem Extended.reachable (h : st.Extended st') (hst : st.Reachable) : st'.Reachable := by
  induction h with
  | refl => exact hst
  | tail _ hadded ih =>
    rcases hadded with ⟨t, ht⟩ | ⟨r, rfl⟩
    · exact .addFact ih ht
    · exact .addRule r ih

end Store

namespace Database

variable {db db' : Database}

/-- The second database is the first one after something has been appended to it. -/
inductive Appends : Database → Database → Prop
  | fact {db db' : Database} {t : Triple} : db.addFact t = .ok db' → Appends db db'
  | rule (db : Database) (r : Rule) : Appends db (db.addRule r)
  | catalog (db : Database) (catalog : Catalog) : Appends db (db.addCatalog catalog)
  | entities {db db' : Database} {data : Json} {count : Nat} : db.loadEntities data = .ok (count, db') → Appends db db'
  | rows {db db' : Database} {rows : List Json} {column : String} {count : Nat} :
      db.loadRows rows column = .ok (count, db') → Appends db db'
  | insert {db db' : Database} {attributes : Json} {id : Term} :
      db.insert attributes = (.ok id, db') → Appends db db'

/-- The databases that the operations lead to from an empty one, in any order. An insertion that is refused counts, as
it uses up an identifier. -/
inductive Reachable : Database → Prop
  | withSchema (schema : Schema) : Reachable (.withSchema schema)
  | setSchema {db : Database} (schema : Schema) : Reachable db → Reachable (db.setSchema schema)
  | setRetrieval {db : Database} (retrieval : Retrieval) : Reachable db → Reachable (db.setRetrieval retrieval)
  | appends {db db' : Database} : Reachable db → db.Appends db' → Reachable db'
  | refused {db db' : Database} {attributes : Json} {cause : Invalid} :
      Reachable db → db.insert attributes = (.error cause, db') → Reachable db'

theorem addFact_eq_ok {t : Triple} (h : db.addFact t = .ok db') :
    ∃ st, db.store.addFact t = .ok st ∧ db' = { db with store := st } := by
  unfold addFact at h
  cases hadd : db.store.addFact t with
  | error cause =>
    rw [hadd] at h
    cases h
  | ok st =>
    rw [hadd] at h
    cases h
    exact ⟨st, rfl, rfl⟩

theorem addFact_extended {t : Triple} (h : db.addFact t = .ok db') : db.store.Extended db'.store := by
  obtain ⟨st, hadd, rfl⟩ := addFact_eq_ok h
  exact .single (.inl ⟨t, hadd⟩)

theorem addFacts_extended (db : Database) (facts : List Triple) :
    db.store.Extended (db.addFacts facts).2.store := by
  induction facts generalizing db with
  | nil => exact .refl
  | cons t facts ih =>
    rw [addFacts]
    split
    · rename_i db₁ h
      exact (addFact_extended h).trans (ih db₁)
    · exact .refl

/-- Only the store of a database is different after appending facts. -/
theorem addFacts_rest (db : Database) (facts : List Triple) :
    (db.addFacts facts).2 = { db with store := (db.addFacts facts).2.store } := by
  induction facts generalizing db with
  | nil => rfl
  | cons t facts ih =>
    rw [addFacts]
    split
    · rename_i db₁ h
      obtain ⟨st, -, rfl⟩ := addFact_eq_ok h
      exact ih { db with store := st }
    · rfl

/-- Whatever has been read, and whether or not all of it is accepted, entries are pushed. -/
theorem load_extended (db : Database) (read : Except Invalid (List Triple)) :
    db.store.Extended (db.load read).2.store := by
  cases read with
  | error cause => exact .refl
  | ok facts => exact addFacts_extended db facts

theorem load_rest (db : Database) (read : Except Invalid (List Triple)) :
    (db.load read).2 = { db with store := (db.load read).2.store } := by
  cases read with
  | error cause => rfl
  | ok facts => exact addFacts_rest db facts

theorem load_schema (db : Database) (read : Except Invalid (List Triple)) : (db.load read).2.schema = db.schema := by
  rw [load_rest]

theorem addCatalog_extended (db : Database) (catalog : Catalog) :
    db.store.Extended (db.addCatalog catalog).store := by
  unfold addCatalog
  induction catalog.rules generalizing db with
  | nil => exact .refl
  | cons r rules ih => exact .head (.inr ⟨r, rfl⟩) (ih (db.addRule r))

theorem addCatalog_schema (db : Database) (catalog : Catalog) : (db.addCatalog catalog).schema = db.schema := by
  unfold addCatalog
  induction catalog.rules generalizing db with
  | nil => rfl
  | cons r rules ih => exact ih (db.addRule r)

/-- What has been loaded into a database is a count and the database that the call leaves, if it is not refused. -/
theorem loaded_eq_ok_iff {outcome : Except Invalid Nat × Database} {count : Nat} :
    (outcome.1.map fun n => (n, outcome.2)) = .ok (count, db') ↔ outcome = (.ok count, db') := by
  obtain ⟨cause | n, left⟩ := outcome <;> simp [Except.map]

theorem loadEntities_eq_ok_iff {data : Json} {count : Nat} :
    db.loadEntities data = .ok (count, db') ↔ db.load (Facts.ofDocument data) = (.ok count, db') := loaded_eq_ok_iff

theorem loadRows_eq_ok_iff {rows : List Json} {column : String} {count : Nat} :
    db.loadRows rows column = .ok (count, db') ↔ db.load (Facts.ofRows column rows) = (.ok count, db') :=
  loaded_eq_ok_iff

theorem extended_of_load {read : Except Invalid (List Triple)} {count : Nat} (h : db.load read = (.ok count, db')) :
    db.store.Extended db'.store := by
  have hextended := load_extended db read
  rwa [h] at hextended

/-- An insertion that is refused pushes nothing but what comes before the refusal. -/
theorem insert_extended (db : Database) (attributes : Json) : db.store.Extended (db.insert attributes).2.store :=
  let n := freshNumber db.store db.store.size db.lastId
  load_extended { db with lastId := n } (Facts.ofEntity (generatedId n) attributes)

/-- **Appending pushes entries.** -/
theorem Appends.extended (h : db.Appends db') : db.store.Extended db'.store := by
  cases h with
  | fact h => exact addFact_extended h
  | rule r => exact .single (.inr ⟨r, rfl⟩)
  | catalog catalog => exact addCatalog_extended db catalog
  | entities h => exact extended_of_load (loadEntities_eq_ok_iff.1 h)
  | rows h => exact extended_of_load (loadRows_eq_ok_iff.1 h)
  | @insert _ attributes _ h =>
    have hextended := insert_extended db attributes
    rwa [h] at hextended

theorem extended_of_appends (h : ReflTransGen Appends db db') : db.store.Extended db'.store := by
  induction h with
  | refl => exact .refl
  | tail _ happends ih => exact ih.trans happends.extended

/-- The stores of these databases are stores that can be built. -/
theorem Reachable.store (h : db.Reachable) : db.store.Reachable := by
  induction h with
  | withSchema schema => exact .withReferences _
  | setSchema schema _ ih => exact .setReferences _ ih
  | setRetrieval retrieval _ ih => exact ih
  | appends _ happends ih => exact happends.extended.reachable ih
  | @refused db _ attributes _ _ h ih =>
    have hextended := insert_extended db attributes
    rw [h] at hextended
    exact hextended.reachable ih

/-- **Appending is strictly additive.** If the rows of a query on a database to which things have been appended come to
their end without an error, then so did its rows before, and they are some of the rows after, in the same order and
each no more often. -/
theorem rows_sublist_of_appends (hdb : db.Reachable) (happends : ReflTransGen Appends db db') {scope : Scope}
    {goals : List Goal} {query : Query} (hquery : Query.ofGoals? scope goals = .ok query) (mode mode' : Retrieval)
    {rows' : List Row} (h : Step.Exhausts (Rows.step db'.store mode' query) (Rows.start query) rows') :
    ∃ rows, Step.Exhausts (Rows.step db.store mode query) (Rows.start query) rows ∧ rows.Sublist rows' := by
  have hextended := extended_of_appends happends
  exact rows_sublist_of_entries_sublist hdb.store (hextended.reachable hdb.store) hextended.prefix_entries.sublist
    hquery mode mode' h

end Database

/-! ### An example -/

/-- The family, with parents declared to be entities. -/
def Database.family : Database := { store := .family, schema := ⟨[("parent", { reference := true })]⟩ }

theorem Database.reachable_family : family.Reachable := by
  have hfact : (withSchema family.schema).addFact ⟨.str "ann", .str "parent", .str "bob"⟩ = .ok { family with
      store := (Store.withReferences [.str "parent"]).push (.fact _ Triple.isGround_parent) } := rfl
  have hrule := Appends.rule { family with
      store := (Store.withReferences [.str "parent"]).push (.fact _ Triple.isGround_parent) } .ancestor
  exact .appends (.appends (.withSchema _) (.fact hfact)) hrule

/-- Who is a parent of Bob? -/
def Query.parents : Query where
  goals := [.pattern ⟨.var 0, .str "parent", .str "bob"⟩]
  vars := [("x", 0)]
  scope := 1
  inScope := by decide

/-- When another parent of Bob is inserted, Ann stays one. -/
theorem Database.rows_sublist_family : ∃ rows,
    Step.Exhausts (Rows.step family.store .fullScan .parents) (Rows.start .parents) rows ∧
      rows.Sublist [⟨[("x", .str "ann")]⟩, ⟨[("x", .str "e1")]⟩] := by
  have hinsert : family.insert (.object [("parent", .string "bob")])
      = (.ok (.str "e1"), (family.insert (.object [("parent", .string "bob")])).2) := Prod.ext rfl rfl
  have hrows : Step.Exhausts (Rows.step (family.insert (.object [("parent", .string "bob")])).2.store .indexed .parents)
      (Rows.start .parents) [⟨[("x", .str "ann")]⟩, ⟨[("x", .str "e1")]⟩] := Step.exhausts_iff.2 ⟨7, by rfl⟩
  have hquery : Query.ofGoals? ⟨[some "x"]⟩ Query.parents.goals = .ok .parents := rfl
  exact rows_sublist_of_appends reachable_family (.single (.insert hinsert)) hquery .fullScan .indexed hrows

end TripleStore
