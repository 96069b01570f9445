import TripleStore.Proofs.Database.Appends
import TripleStore.Proofs.Database.Facts
import TripleStore.Proofs.Store.Facts

/-!
# Loading is all or nothing

Documents, tables and the attributes of an entity are read before anything is stored, and what has been read is ground,
so the store accepts each of its facts: the loop that appends them is never left in the middle
(`Database.addFacts_appended`). Hence what is loaded is either refused, and then the database is as it was, or the facts
that it says are all appended, in their order (**`Database.load_allOrNothing`**). An insertion uses up an identifier
first, whatever becomes of it.
-/

namespace TripleStore.Database

variable {db db' : Database} {facts : List Triple} {α : Type}

/-! ### Appending all of some facts -/

/-- The second database is the first one after all of some facts have been appended: its entries are followed by a fact
for each, in their order, the index goes on to be that of the entries, and nothing else is different. -/
structure Appended (facts : List Triple) (db db' : Database) : Prop where
  entries : ∃ added, db'.store.entries.toList = db.store.entries.toList ++ added ∧
    List.Forall₂ (fun t e => ∃ ground, e = .fact t ground) facts added
  index : db.store.IndexUpToDate → db'.store.IndexUpToDate
  references : db'.store.references = db.store.references
  rest : db' = { db with store := db'.store }

theorem Appended.facts_eq (h : Appended facts db db') : db'.store.facts = db.store.facts ++ facts := by
  obtain ⟨added, hentries, hadded⟩ := h.entries
  rw [Store.facts, hentries, List.filterMap_append, filterMap_fact? hadded, Store.facts]

theorem addFact_of_isGround {t : Triple} (ground : t.isGround = true) :
    db.addFact t = .ok { db with store := db.store.push (.fact t ground) } := by
  have hstore : db.store.addFact t = .ok (db.store.push (.fact t ground)) := by
    unfold Store.addFact
    split
    · rename_i position h
      rw [Triple.openPosition?_eq_none_iff.2 ground] at h
      cases h
    · rfl
  rw [addFact, hstore]
  rfl

/-- **Ground facts are all appended.** -/
theorem addFacts_appended (db : Database) (ground : ∀ t ∈ facts, t.isGround = true) :
    (db.addFacts facts).1 = .ok () ∧ Appended facts db (db.addFacts facts).2 := by
  have hextended := addFacts_extended db facts
  induction facts generalizing db with
  | nil => exact ⟨rfl, ⟨[], by simp [addFacts], .nil⟩, id, rfl, rfl⟩
  | cons t facts ih =>
    obtain ⟨ht, hfacts⟩ := List.forall_mem_cons.1 ground
    have hrest := addFacts_rest db (t :: facts)
    rw [addFacts, addFact_of_isGround ht] at hrest hextended ⊢
    obtain ⟨hok, ⟨added, hentries, hadded⟩, hindex, -⟩ :=
      ih { db with store := db.store.push (.fact t ht) } hfacts (addFacts_extended _ facts)
    refine ⟨hok, ⟨.fact t ht :: added, ?_, .cons ⟨ht, rfl⟩ hadded⟩, fun h => hindex (h.push _),
      hextended.references_eq, hrest⟩
    dsimp only
    rw [hentries, Store.push, Array.toList_push, List.append_assoc, List.singleton_append]

/-! ### Loading -/

/-- The outcome of putting some input into a database. Either the input says nothing that can be stored, and it is
refused and the database is as it was; or it says some facts and no others, the answer is the one for these facts, and
they have all been appended. -/
def AllOrNothing (Says : List Triple → Prop) (answer : List Triple → α) (db : Database)
    (outcome : Except Invalid α × Database) : Prop :=
  (∃ cause, outcome = (.error cause, db) ∧ ∀ facts, ¬ Says facts) ∨
    ∃ facts db', outcome = (.ok (answer facts), db') ∧ (∀ facts', Says facts' ↔ facts' = facts) ∧ Appended facts db db'

theorem lt_freshNumber (store : Store) (tries n : Nat) : n < freshNumber store tries n := by
  induction tries generalizing n with
  | zero => exact Nat.lt_succ_self n
  | succ tries ih =>
    rw [freshNumber]
    split
    · exact Nat.lt_of_succ_lt (ih (n + 1))
    · exact Nat.lt_succ_self n

theorem AllOrNothing.map {β : Type} {Says : List Triple → Prop} {answer : List Triple → α}
    {outcome : Except Invalid α × Database} (h : AllOrNothing Says answer db outcome) (f : α → β) :
    AllOrNothing Says (fun facts => f (answer facts)) db (outcome.1.map f, outcome.2) := by
  rcases h with ⟨cause, rfl, hnone⟩ | ⟨facts, db', rfl, honly, happended⟩
  · exact .inl ⟨cause, rfl, hnone⟩
  · exact .inr ⟨facts, db', rfl, honly, happended⟩

/-- What is read as ground facts is loaded as a whole or not at all. -/
theorem AllOrNothing.load {Says : List Triple → Prop} {read : Except Invalid (List Triple)} (db : Database)
    (hread : ∀ facts, read = .ok facts ↔ Says facts)
    (ground : ∀ facts, read = .ok facts → ∀ t ∈ facts, t.isGround = true) :
    AllOrNothing Says List.length db (db.load read) := by
  cases read with
  | error cause =>
    refine .inl ⟨cause, rfl, fun facts hsays => ?_⟩
    cases (hread facts).2 hsays
  | ok facts =>
    obtain ⟨hok, happended⟩ := addFacts_appended db (ground facts rfl)
    refine .inr ⟨facts, (db.addFacts facts).2, ?_, fun facts' => ?_, happended⟩
    · simp only [Database.load, hok, Except.map]
    · rw [← hread facts', Except.ok.injEq]
      exact eq_comm

/-- The attributes of a new entity are refused or stored as a whole. -/
theorem insert_allOrNothing (db : Database) (attributes : Json) :
    AllOrNothing (Facts.OfAttributes (generatedId (freshNumber db.store db.store.size db.lastId)) attributes)
      (fun _ => generatedId (freshNumber db.store db.store.size db.lastId))
      { db with lastId := freshNumber db.store db.store.size db.lastId } (db.insert attributes) := by
  let n := freshNumber db.store db.store.size db.lastId
  have hload : AllOrNothing (Facts.OfAttributes (generatedId n) attributes) List.length { db with lastId := n }
      (load { db with lastId := n } (Facts.ofEntity (generatedId n) attributes)) :=
    .load _ (fun _ => Facts.ofEntity_eq_ok_iff) fun _ h => Facts.Read.isGround (.attributes rfl h)
  exact hload.map fun _ => generatedId n

/-- **Loading is all or nothing.** An entity document, a table or the attributes of a new entity are refused and leave
the database as it was, but for the identifier that an insertion uses up, or they have facts, one for each of their
cells, and these are all appended; a refusal in the middle of appending does not happen. -/
theorem load_allOrNothing (db : Database) :
    (∀ data, AllOrNothing (Facts.OfDocument data) List.length db (db.load (Facts.ofDocument data)) ∧
      db.loadEntities data
          = (db.load (Facts.ofDocument data)).1.map fun n => (n, (db.load (Facts.ofDocument data)).2)) ∧
      (∀ rows column, AllOrNothing (Facts.OfTable column rows) List.length db (db.load (Facts.ofRows column rows)) ∧
        db.loadRows rows column
          = (db.load (Facts.ofRows column rows)).1.map fun n => (n, (db.load (Facts.ofRows column rows)).2)) ∧
      (∀ attributes, ∃ n, db.lastId < n ∧ AllOrNothing (Facts.OfAttributes (generatedId n) attributes)
        (fun _ => generatedId n) { db with lastId := n } (db.insert attributes)) ∧
      ∀ facts, Facts.Read facts → (∀ t ∈ facts, t.isGround = true) ∧ (db.addFacts facts).1 = .ok () := by
  refine ⟨fun data => ⟨?_, rfl⟩, fun rows column => ⟨?_, rfl⟩, fun attributes => ?_, fun facts h => ?_⟩
  · exact .load db (fun _ => Facts.ofDocument_eq_ok_iff) fun _ h => Facts.Read.isGround (.document h)
  · exact .load db (fun _ => Facts.ofRows_eq_ok_iff) fun _ h => Facts.Read.isGround (.table h)
  · exact ⟨_, lt_freshNumber _ _ _, insert_allOrNothing db attributes⟩
  · exact ⟨h.isGround, (addFacts_appended db h.isGround).1⟩

/-! ### An example -/

/-- Two parents of Ann, in one array. -/
def parentsDocument : Json := .object [("ann", .object [("parent", .array [.string "bob", .string "cid"])])]

/-- What the document says of Ann is stored without a refusal. -/
theorem load_allOrNothing_parents :
    (family.addFacts [⟨.str "ann", .str "parent", .str "bob"⟩, ⟨.str "ann", .str "parent", .str "cid"⟩]).1 = .ok () :=
  ((load_allOrNothing family).2.2.2 _ (@Facts.Read.document parentsDocument _ rfl)).2

end TripleStore.Database
