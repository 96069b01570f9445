import Mathlib.Data.Fintype.EquivFin
import Mathlib.Order.Bounds.Basic
import Std.Data.String.ToNat
import TripleStore.Proofs.Database.Indexing

/-!
# Generated identifiers

Looking for a number whose identifier no entry has comes to an end, as a store has no more entities than entries
(`exists_freeAfter`), and what is found is the first such number after the latest one (`isLeast_freshNumber`). Every
insertion looks on from where the last one stopped, also if it was refused, so the numbers that are taken only grow
(`pairwise_numbersTaken`), whatever is done in between. An identifier that has been found is new to the store, and what
the store says of it afterwards is what has been inserted (**`insert_fresh`**).
-/

namespace TripleStore.Database

variable {db : Database} {st : Store} {n k tries : Nat}

/-! ### The search for a number -/

theorem generatedId_injective : Function.Injective generatedId := by
  intro m n h
  have htext : "e" ++ toString m = "e" ++ toString n := Term.str.inj h
  exact Nat.repr_injective ((String.append_right_inj _).1 htext)

/-- The number comes after `n`, and no entry has its identifier. -/
def FreeAfter (st : Store) (n k : Nat) : Prop := n < k ∧ st.hasEntity (generatedId k) = false

/-- **Some identifier is free**, as there are more numbers to try than entries that could have them. -/
theorem exists_freeAfter (hst : st.Reachable) (n : Nat) : ∃ k, FreeAfter st n k ∧ k ≤ n + st.size + 1 := by
  by_contra hnone
  have htaken (i : Fin (st.size + 1)) : ∃ p : Fin st.size, st.entries[p].head.entity = generatedId (n + i + 1) := by
    have hhas : st.hasEntity (generatedId (n + i + 1)) = true := by
      by_contra hfree
      exact hnone ⟨n + i + 1, ⟨by omega, by simpa using hfree⟩, by omega⟩
    obtain ⟨-, e, he, hentity⟩ := hst.hasEntity_iff.1 hhas
    obtain ⟨p, hp, rfl⟩ := Array.mem_iff_getElem.1 he
    exact ⟨⟨p, hp⟩, hentity⟩
  choose position hposition using htaken
  have hinjective : Function.Injective position := by
    intro i j hij
    have hid : generatedId (n + i + 1) = generatedId (n + j + 1) := by rw [← hposition i, ← hposition j, hij]
    have hnumber := generatedId_injective hid
    omega
  have hcard := Fintype.card_le_of_injective position hinjective
  simp only [Fintype.card_fin] at hcard
  omega

theorem isLeast_succ (h : st.hasEntity (generatedId (n + 1)) = false) : IsLeast {j | FreeAfter st n j} (n + 1) :=
  ⟨⟨Nat.lt_succ_self n, h⟩, fun _ hj => hj.1⟩

theorem FreeAfter.succ (h : FreeAfter st n k) (htaken : st.hasEntity (generatedId (n + 1)) = true) :
    FreeAfter st (n + 1) k := by
  refine ⟨Nat.lt_of_le_of_ne h.1 ?_, h.2⟩
  rintro rfl
  rw [h.2] at htaken
  cases htaken

/-- The search finds the first free number, if there are enough tries for some free number. -/
theorem isLeast_freshNumber (hk : FreeAfter st n k) (htried : k ≤ n + tries + 1) :
    IsLeast {j | FreeAfter st n j} (freshNumber st tries n) := by
  induction tries generalizing n with
  | zero =>
    obtain ⟨hlt, hfree⟩ := hk
    obtain rfl : k = n + 1 := by omega
    exact isLeast_succ hfree
  | succ tries ih =>
    rw [freshNumber]
    split
    · rename_i htaken
      obtain ⟨hfound, hleast⟩ := ih (hk.succ htaken) (by omega)
      exact ⟨⟨Nat.lt_of_succ_lt hfound.1, hfound.2⟩, fun j hj => hleast (FreeAfter.succ hj htaken)⟩
    · rename_i hfree
      exact isLeast_succ (by simpa using hfree)

/-- **The number of tries is no limit** if there are at least as many as entries. -/
theorem isLeast_freshNumber_of_size_le (hst : st.Reachable) (n : Nat) (htries : st.size ≤ tries) :
    IsLeast {j | FreeAfter st n j} (freshNumber st tries n) := by
  obtain ⟨k, hk, hle⟩ := exists_freeAfter hst n
  exact isLeast_freshNumber hk (by omega)

/-! ### The numbers that are taken -/

/-- The number that the next insertion takes. -/
def nextNumber (db : Database) : Nat := freshNumber db.store db.store.size db.lastId

/-- The number that a call takes: an insertion takes one, whether it succeeds or is refused. -/
def numberTaken? (db : Database) : Change → Option Nat
  | .insert _ => some db.nextNumber
  | _ => none

/-- The numbers that are taken by some calls, in their order. -/
def numbersTaken (db : Database) : List Change → List Nat
  | [] => []
  | c :: changes => (db.numberTaken? c).toList ++ (db.apply c).numbersTaken changes

theorem load_lastId (db : Database) (read : Except Invalid (List Triple)) : (db.load read).2.lastId = db.lastId := by
  rw [load_rest]

theorem insert_lastId (db : Database) (attributes : Json) : (db.insert attributes).2.lastId = db.nextNumber :=
  load_lastId { db with lastId := db.nextNumber } (Facts.ofEntity (generatedId db.nextNumber) attributes)

theorem addCatalog_lastId (db : Database) (catalog : Catalog) : (db.addCatalog catalog).lastId = db.lastId := by
  unfold addCatalog
  induction catalog.rules generalizing db with
  | nil => rfl
  | cons r rules ih => exact ih (db.addRule r)

/-- The latest number is the one that the call takes, if it takes one. -/
theorem lastId_apply (db : Database) (c : Change) : (db.apply c).lastId = (db.numberTaken? c).getD db.lastId := by
  cases c with
  | fact t =>
    rw [apply]
    split
    · rename_i db' h
      obtain ⟨st, -, rfl⟩ := addFact_eq_ok h
      rfl
    · rfl
  | rule r => rfl
  | catalog catalog => exact addCatalog_lastId db catalog
  | entities data => exact load_lastId db _
  | rows rows column => exact load_lastId db _
  | insert attributes => exact insert_lastId db attributes
  | schema schema => rfl
  | retrieval retrieval => rfl

theorem lt_of_mem_numberTaken? {c : Change} (h : n ∈ (db.numberTaken? c).toList) : db.lastId < n := by
  cases c with
  | insert attributes =>
    obtain rfl := List.mem_singleton.1 h
    exact lt_freshNumber _ _ _
  | _ => cases h

theorem lastId_le_apply (db : Database) (c : Change) : db.lastId ≤ (db.apply c).lastId := by
  rw [lastId_apply]
  cases htaken : db.numberTaken? c with
  | none => exact le_rfl
  | some n => exact (lt_of_mem_numberTaken? (Option.mem_toList.2 htaken)).le

theorem lastId_le_applyAll (db : Database) (changes : List Change) : db.lastId ≤ (db.applyAll changes).lastId := by
  induction changes generalizing db with
  | nil => exact le_rfl
  | cons c changes ih => exact (lastId_le_apply db c).trans (ih (db.apply c))

theorem le_applyAll_of_mem_numbersTaken {changes : List Change} (h : n ∈ db.numbersTaken changes) :
    n ≤ (db.applyAll changes).lastId := by
  induction changes generalizing db with
  | nil => cases h
  | cons c changes ih =>
    rcases List.mem_append.1 h with h | h
    · have hlast : (db.apply c).lastId = n := by
        rw [lastId_apply, Option.mem_toList.1 h, Option.getD_some]
      exact hlast.symm.le.trans (lastId_le_applyAll (db.apply c) changes)
    · exact ih h

theorem lt_of_mem_numbersTaken {changes : List Change} (h : n ∈ db.numbersTaken changes) : db.lastId < n := by
  induction changes generalizing db with
  | nil => cases h
  | cons c changes ih =>
    rcases List.mem_append.1 h with h | h
    · exact lt_of_mem_numberTaken? h
    · exact (lastId_le_apply db c).trans_lt (ih h)

/-- **The numbers that are taken only grow**, whatever else is done in between. -/
theorem pairwise_numbersTaken (db : Database) (changes : List Change) :
    (db.numbersTaken changes).Pairwise (· < ·) := by
  induction changes generalizing db with
  | nil => exact .nil
  | cons c changes ih =>
    refine List.pairwise_append.2 ⟨?_, ih (db.apply c), fun m hm n hn => ?_⟩
    · cases db.numberTaken? c <;> simp
    · have hlast : (db.apply c).lastId = m := by
        rw [lastId_apply, Option.mem_toList.1 hm, Option.getD_some]
      rw [← hlast]
      exact lt_of_mem_numbersTaken hn

/-! ### Insertions -/

/-- An insertion takes the number `n`. It is the first one after the latest number whose identifier no entry has, and the
search for it stops there by itself. The attributes are refused, and nothing but the latest number is different, or the
identifier is returned, and the facts about it are those that the attributes say, in their order. -/
structure Takes (db : Database) (attributes : Json) (n : Nat) : Prop where
  least : IsLeast {k | FreeAfter db.store db.lastId k} n
  found : ∀ tries, db.store.size ≤ tries → freshNumber db.store tries db.lastId = n
  unused : ∀ e ∈ db.store.entries, e.head.entity ≠ generatedId n
  outcome : (∃ cause, db.insert attributes = (.error cause, { db with lastId := n })) ∨
    ∃ db', db.insert attributes = (.ok (generatedId n), db') ∧ db'.lastId = n ∧
      Facts.OfAttributes (generatedId n) attributes (db'.store.facts.filter fun t => t.entity = generatedId n)

/-- Where nothing is said of an entity, what is said of it after some facts about it have been appended is these. -/
theorem filter_facts_of_appended {db' : Database} {facts : List Triple} {id : Term} (happended : Appended facts db db')
    (hunused : ∀ e ∈ db.store.entries, e.head.entity ≠ id) (hfacts : ∀ t ∈ facts, t.entity = id) :
    (db'.store.facts.filter fun t => t.entity = id) = facts := by
  have hbefore : (db.store.facts.filter fun t => t.entity = id) = [] := by
    refine List.filter_eq_nil_iff.2 fun t ht => ?_
    obtain ⟨ground, he⟩ := Store.mem_facts_iff.1 ht
    exact fun heq => hunused _ he (of_decide_eq_true heq)
  have hadded : (facts.filter fun t => t.entity = id) = facts :=
    List.filter_eq_self.2 fun t ht => decide_eq_true (hfacts t ht)
  rw [happended.facts_eq, List.filter_append, hbefore, hadded, List.nil_append]

theorem entity_eq_of_ofAttributes {id : Term} {attributes : Json} {facts : List Triple}
    (h : Facts.OfAttributes id attributes facts) : ∀ t ∈ facts, t.entity = id := by
  obtain ⟨members, -, hsays⟩ := h
  intro t ht
  obtain ⟨c, hc, hentity, -⟩ := exists_mem_of_forall₂_right hsays ht
  simp only [Cell.ofMembers, List.mem_flatMap, List.mem_map] at hc
  obtain ⟨m, -, v, -, rfl⟩ := hc
  exact hentity

theorem takes_nextNumber (hst : db.store.Reachable) (attributes : Json) : db.Takes attributes db.nextNumber := by
  have hleast : IsLeast {k | FreeAfter db.store db.lastId k} db.nextNumber :=
    isLeast_freshNumber_of_size_le hst db.lastId le_rfl
  have hunused : ∀ e ∈ db.store.entries, e.head.entity ≠ generatedId db.nextNumber := by
    intro e he hentity
    have hhas := hst.hasEntity_iff.2 ⟨rfl, e, he, hentity⟩
    rw [hleast.1.2] at hhas
    cases hhas
  refine ⟨hleast, fun tries htries => ?_, hunused, ?_⟩
  · exact (isLeast_freshNumber_of_size_le hst db.lastId htries).unique hleast
  · rcases insert_allOrNothing db attributes with ⟨cause, heq, -⟩ | ⟨facts, db', heq, honly, happended⟩
    · exact .inl ⟨cause, heq⟩
    · have hsays := (honly facts).2 rfl
      have hlast : db'.lastId = db.nextNumber := congrArg Database.lastId happended.rest
      refine .inr ⟨db', heq, hlast, ?_⟩
      have hfilter := filter_facts_of_appended happended hunused (entity_eq_of_ofAttributes hsays)
      exact hfilter ▸ hsays

/-- **Generated identifiers are fresh.** However a new database has been used, the numbers that insertions have taken are
strictly increasing and their identifiers distinct, those of refused insertions included. The next insertion takes a
larger number, whose identifier no fact and no head of a rule has, and if it succeeds, the facts about this identifier
are those that have been inserted. -/
theorem insert_fresh (h : New db) (changes : List Change) :
    (db.numbersTaken changes).Pairwise (· < ·) ∧ ((db.numbersTaken changes).map generatedId).Nodup ∧
      ∀ attributes, (∀ m ∈ db.numbersTaken changes, m < (db.applyAll changes).nextNumber) ∧
        (db.applyAll changes).Takes attributes (db.applyAll changes).nextNumber := by
  have hpairwise := pairwise_numbersTaken db changes
  have hdistinct := (List.nodup_map_iff generatedId_injective).2 (hpairwise.imp Nat.ne_of_lt)
  refine ⟨hpairwise, hdistinct, fun attributes => ⟨fun m hm => ?_, ?_⟩⟩
  · exact (le_applyAll_of_mem_numbersTaken hm).trans_lt (lt_freshNumber _ _ _)
  · exact takes_nextNumber (h.consistent.applyAll changes).1 attributes

/-! ### An example -/

/-- Somebody is called by the first identifier already; an insertion, one that is refused, and one of nothing. -/
def Change.newcomers : List Change :=
  [.entities (.object [("e1", .object [("sister", .string "ann")])]), .insert (.object [("likes", .string "tea")]),
    .insert .null, .insert (.object [])]

/-- The insertions have taken the numbers after the first one, and the next one gets the fifth identifier. -/
theorem insert_fresh_newcomers : Database.empty.numbersTaken Change.newcomers = [2, 3, 4] ∧
    ((Database.empty.applyAll Change.newcomers).insert (.object [])).1 = .ok (.str "e5") ∧
      (Database.empty.applyAll Change.newcomers).Takes (.object []) 5 :=
  ⟨rfl, rfl, ((insert_fresh .empty Change.newcomers).2.2 (.object [])).2⟩

end TripleStore.Database
