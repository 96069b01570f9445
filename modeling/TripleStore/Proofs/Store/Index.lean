import TripleStore.Proofs.Store.Positions
import TripleStore.Proofs.Term.Order
import TripleStore.Store.Basic

/-!
# What the index lists

Each part of the index lists, in ascending order, the positions of the entries with a property of its own:
`Index.Lists` states this part by part, and it is kept when an entry is added at the end (`Lists.add`).
Hence the index of some entries lists them (`lists_ofEntries`), and the index of a store that was built by
adding entries and setting reference attributes, in any order, is the index of its entries
(`Reachable.index_eq`). The entities that such a store has are those of its entries that are ground
(`Reachable.hasEntity_iff`).
-/

namespace TripleStore

open Std

/-! ### Positions of entries with a property -/

/-- The positions of the entries with a property, in ascending order. -/
def positionsWhere (f : Entry → Bool) (entries : List Entry) : List Nat :=
  (List.range entries.length).filter fun p => entries[p]?.any f

section Positions

variable {f g : Entry → Bool} {entries : List Entry}

theorem mem_positionsWhere {p : Nat} : p ∈ positionsWhere f entries ↔ ∃ e, entries[p]? = some e ∧ f e = true := by
  rw [positionsWhere, List.mem_filter, List.mem_range, Option.any_eq_true]
  refine ⟨fun h => h.2, fun ⟨e, he, hf⟩ => ⟨?_, e, he, hf⟩⟩
  exact (List.getElem?_eq_some_iff.1 he).1

theorem pairwise_positionsWhere (f : Entry → Bool) (entries : List Entry) :
    (positionsWhere f entries).Pairwise (· < ·) :=
  List.pairwise_lt_range.filter _

theorem positionsWhere_append (f : Entry → Bool) (entries : List Entry) (e : Entry) :
    positionsWhere f (entries ++ [e]) = positionsWhere f entries ++ if f e then [entries.length] else [] := by
  rw [positionsWhere, positionsWhere, List.length_append, List.length_singleton, List.range_succ,
    List.filter_append]
  congr 1
  · refine List.filter_congr fun p hp => ?_
    rw [List.getElem?_append_left (List.mem_range.1 hp)]
  · simp [List.filter_cons]

theorem positionsWhere_congr (h : ∀ e, f e = g e) : positionsWhere f entries = positionsWhere g entries := by
  rw [funext h]

/-- The positions of the entries with a property are those of all entries, filtered. -/
theorem filter_positionsWhere (f : Entry → Bool) (entries : List Entry) :
    (positionsWhere (fun _ => true) entries).filter (fun p => entries[p]?.any f) = positionsWhere f entries := by
  rw [positionsWhere, List.filter_filter]
  refine List.filter_congr fun p _ => ?_
  cases entries[p]? <;> simp

theorem union_positionsWhere (f g : Entry → Bool) (entries : List Entry) :
    Positions.union (positionsWhere f entries) (positionsWhere g entries)
      = positionsWhere (fun e => f e || g e) entries := by
  refine List.Pairwise.eq_of_mem_iff (Positions.pairwise_union (pairwise_positionsWhere f entries)
    (pairwise_positionsWhere g entries)) (pairwise_positionsWhere _ entries) fun p => ?_
  simp only [Positions.mem_union, mem_positionsWhere, Bool.or_eq_true]
  rw [← exists_or]
  exact exists_congr fun e => and_or_left.symm

theorem intersect_positionsWhere (f g : Entry → Bool) (entries : List Entry) :
    Positions.intersect (positionsWhere f entries) (positionsWhere g entries)
      = positionsWhere (fun e => f e && g e) entries := by
  have hf := pairwise_positionsWhere f entries
  have hg := pairwise_positionsWhere g entries
  refine List.Pairwise.eq_of_mem_iff (Positions.pairwise_intersect hf hg)
    (pairwise_positionsWhere _ entries) fun p => ?_
  simp only [Positions.mem_intersect hf hg, mem_positionsWhere, Bool.and_eq_true]
  constructor
  · rintro ⟨⟨e, he, hfe⟩, e', he', hge⟩
    rw [he] at he'
    cases he'
    exact ⟨e, he, hfe, hge⟩
  · rintro ⟨e, he, hfe, hge⟩
    exact ⟨⟨e, he, hfe⟩, e, he, hge⟩

end Positions

/-! ### Buckets -/

namespace Buckets

variable {κ : Type} {cmp : κ → κ → Ordering}

@[simp] theorem positions_empty [TransCmp cmp] (key : κ) : positions key (∅ : Buckets κ cmp) = [] := by
  simp [positions, TreeMap.getD_emptyc]

theorem positions_push [DecidableEq κ] [TransCmp cmp] [LawfulEqCmp cmp] (key key' : κ) (p : Nat)
    (buckets : Buckets κ cmp) :
    positions key' (push key p buckets) = positions key' buckets ++ if key = key' then [p] else [] := by
  rw [positions, push, TreeMap.getD_alter]
  by_cases h : key = key'
  · subst h
    rw [if_pos ReflCmp.compare_self, if_pos rfl, Option.getD_some, Array.toList_push, positions,
      TreeMap.getD_eq_getD_getElem?]
  · rw [if_neg fun hc => h (LawfulEqCmp.eq_of_compare hc), if_neg h, List.append_nil, positions]

theorem contains_push [DecidableEq κ] [TransCmp cmp] [LawfulEqCmp cmp] (key key' : κ) (p : Nat)
    (buckets : Buckets κ cmp) :
    (push key p buckets).contains key' = true ↔ key = key' ∨ buckets.contains key' = true := by
  rw [push, TreeMap.contains_alter]
  by_cases h : key = key'
  · subst h
    simp
  · rw [if_neg fun hc => h (LawfulEqCmp.eq_of_compare hc), or_iff_right h]

end Buckets

/-! ### Properties of entries -/

namespace Entry

/-- The head has the given ground entity. -/
def hasEntity (key : Term) (e : Entry) : Bool := e.head.entity.isGround && e.head.entity == key

/-- The head has the given ground attribute. -/
def hasAttr (key : Term) (e : Entry) : Bool := e.head.attr.isGround && e.head.attr == key

/-- A fact of the given reference attribute with the given value. -/
def joins (references : List Term) (key : Term × Term) (e : Entry) : Bool :=
  e.isFact && references.contains e.head.attr && e.head.attr == key.1 && e.head.value == key.2

end Entry

/-! ### The parts of the index -/

namespace Index

/-- The index lists the positions of some entries, each part those of the entries it is for. -/
structure Lists (references : List Term) (entries : List Entry) (index : Index) : Prop where
  byEntity : ∀ key, Buckets.positions key index.byEntity = positionsWhere (Entry.hasEntity key) entries
  openEntity : index.openEntity.toList = positionsWhere (fun e => !e.head.entity.isGround) entries
  byAttribute : ∀ key, Buckets.positions key index.byAttribute = positionsWhere (Entry.hasAttr key) entries
  openAttribute : index.openAttribute.toList = positionsWhere (fun e => !e.head.attr.isGround) entries
  rulesByAttribute : ∀ key, Buckets.positions key index.rulesByAttribute
    = positionsWhere (fun e => !e.isFact && e.hasAttr key) entries
  joins : ∀ key, Buckets.positions key index.joins = positionsWhere (Entry.joins references key) entries

theorem lists_empty (references : List Term) : Lists references [] empty where
  byEntity key := by simp [empty, positionsWhere]
  openEntity := rfl
  byAttribute key := by simp [empty, positionsWhere]
  openAttribute := rfl
  rulesByAttribute key := by simp [empty, positionsWhere]
  joins key := by simp [empty, positionsWhere]

/-- What filing an entry does to each part of the index. -/
theorem add_eq (references : List Term) (p : Nat) (e : Entry) (index : Index) :
    index.add references p e =
      { byEntity :=
          if e.head.entity.isGround then Buckets.push e.head.entity p index.byEntity else index.byEntity
        openEntity := if e.head.entity.isGround then index.openEntity else index.openEntity.push p
        byAttribute :=
          if e.head.attr.isGround then Buckets.push e.head.attr p index.byAttribute else index.byAttribute
        openAttribute := if e.head.attr.isGround then index.openAttribute else index.openAttribute.push p
        rulesByAttribute :=
          if !e.isFact && e.head.attr.isGround then Buckets.push e.head.attr p index.rulesByAttribute
          else index.rulesByAttribute
        joins :=
          if e.isFact && references.contains e.head.attr then
            Buckets.push (e.head.attr, e.head.value) p index.joins
          else index.joins } := by
  cases e with
  | fact t ground =>
    cases he : t.entity.isGround <;> cases ha : t.attr.isGround <;> cases hr : references.contains t.attr <;>
      simp_all [add, addEntity, addAttribute, addJoin, Entry.isFact, Entry.head]
  | rule r =>
    cases he : r.head.entity.isGround <;> cases ha : r.head.attr.isGround <;>
      simp [add, addEntity, addAttribute, addJoin, Entry.isFact, Entry.head, he, ha]

/-- An index that lists some entries lists one more after that has been filed. -/
theorem Lists.add {references : List Term} {entries : List Entry} {index : Index}
    (h : Lists references entries index) (e : Entry) :
    Lists references (entries ++ [e]) (index.add references entries.length e) where
  byEntity key := by
    rw [add_eq, positionsWhere_append, ← h.byEntity]
    cases hg : e.head.entity.isGround <;> simp [Entry.hasEntity, hg, Buckets.positions_push]
  openEntity := by
    rw [add_eq, positionsWhere_append, ← h.openEntity]
    cases hg : e.head.entity.isGround <;> simp
  byAttribute key := by
    rw [add_eq, positionsWhere_append, ← h.byAttribute]
    cases hg : e.head.attr.isGround <;> simp [Entry.hasAttr, hg, Buckets.positions_push]
  openAttribute := by
    rw [add_eq, positionsWhere_append, ← h.openAttribute]
    cases hg : e.head.attr.isGround <;> simp
  rulesByAttribute key := by
    rw [add_eq, positionsWhere_append, ← h.rulesByAttribute]
    cases hf : e.isFact <;> cases hg : e.head.attr.isGround <;>
      simp [Entry.hasAttr, hg, Buckets.positions_push]
  joins key := by
    rw [add_eq, positionsWhere_append, ← h.joins]
    cases hf : e.isFact <;> cases hr : references.contains e.head.attr <;>
      simp_all [Entry.joins, Buckets.positions_push, Prod.ext_iff]

theorem ofEntries_append (references : List Term) (entries : List Entry) (e : Entry) :
    ofEntries references (entries ++ [e]) = (ofEntries references entries).add references entries.length e := by
  simp [ofEntries, List.zipIdx_append]

/-- The index of some entries lists them. -/
theorem lists_ofEntries (references : List Term) (entries : List Entry) :
    Lists references entries (ofEntries references entries) := by
  induction entries using List.reverseRecOn with
  | nil => exact lists_empty references
  | append_singleton entries e ih =>
    rw [ofEntries_append]
    exact ih.add e

/-- A ground term has a bucket exactly when it is the entity of an entry. -/
theorem contains_byEntity_iff (references : List Term) (entries : List Entry) (key : Term) :
    (ofEntries references entries).byEntity.contains key = true ↔
      key.isGround = true ∧ ∃ e ∈ entries, e.head.entity = key := by
  induction entries using List.reverseRecOn with
  | nil => simp [ofEntries, empty]
  | append_singleton entries e ih =>
    rw [ofEntries_append, add_eq]
    dsimp only
    split
    · rename_i ground
      rw [Buckets.contains_push, ih]
      constructor
      · rintro (rfl | ⟨hkey, e', he', heq⟩)
        · exact ⟨ground, e, by simp, rfl⟩
        · exact ⟨hkey, e', by simp [he'], heq⟩
      · rintro ⟨hkey, e', he', heq⟩
        rcases List.mem_append.1 he' with he' | he'
        · exact .inr ⟨hkey, e', he', heq⟩
        · rw [List.mem_singleton.1 he'] at heq
          exact .inl heq
    · rename_i hopen
      rw [ih]
      refine and_congr_right fun hkey => ⟨fun ⟨e', he', heq⟩ => ⟨e', by simp [he'], heq⟩, ?_⟩
      rintro ⟨e', he', heq⟩
      rcases List.mem_append.1 he' with he' | he'
      · exact ⟨e', he', heq⟩
      · rw [List.mem_singleton.1 he'] at heq
        exact absurd (heq ▸ hkey) hopen

end Index

/-! ### Stores that can be built -/

namespace Store

/-- The stores that adding facts and rules and setting reference attributes lead to, in any order. -/
inductive Reachable : Store → Prop
  | withReferences (references : List Term) : Reachable (.withReferences references)
  | setReferences {st : Store} (references : List Term) : Reachable st → Reachable (st.setReferences references)
  | addFact {st st' : Store} {t : Triple} : Reachable st → st.addFact t = .ok st' → Reachable st'
  | addRule {st : Store} (r : Rule) : Reachable st → Reachable (st.addRule r)

/-- The index of a store is that of its entries. -/
def IndexUpToDate (st : Store) : Prop := st.index = .ofEntries st.references st.entries.toList

theorem IndexUpToDate.push {st : Store} (h : st.IndexUpToDate) (e : Entry) : (st.push e).IndexUpToDate := by
  unfold IndexUpToDate Store.push at *
  rw [Array.toList_push, Index.ofEntries_append, ← h]
  rfl

theorem addFact_eq_ok {st st' : Store} {t : Triple} (h : st.addFact t = .ok st') :
    ∃ ground, st' = st.push (.fact t ground) := by
  unfold addFact at h
  split at h
  · cases h
  · cases h
    exact ⟨_, rfl⟩

/-- **The index is never stale.** -/
theorem Reachable.index_eq {st : Store} (h : st.Reachable) : st.IndexUpToDate := by
  induction h with
  | withReferences references => rfl
  | setReferences references _ _ => rfl
  | addFact _ hadd ih =>
    obtain ⟨ground, rfl⟩ := addFact_eq_ok hadd
    exact ih.push _
  | addRule r _ ih => exact ih.push _

theorem Reachable.lists {st : Store} (h : st.Reachable) :
    Index.Lists st.references st.entries.toList st.index := by
  have hindex : st.index = .ofEntries st.references st.entries.toList := h.index_eq
  rw [hindex]
  exact Index.lists_ofEntries _ _

/-- A store has an entity exactly when it is ground and some fact or the head of some rule is about it. -/
theorem Reachable.hasEntity_iff {st : Store} (h : st.Reachable) {entity : Term} :
    st.hasEntity entity = true ↔ entity.isGround = true ∧ ∃ e ∈ st.entries, e.head.entity = entity := by
  have hindex : st.index = .ofEntries st.references st.entries.toList := h.index_eq
  rw [hasEntity, hindex, Index.contains_byEntity_iff]
  simp only [Array.mem_toList_iff]

end Store

/-! ### An example -/

/-- Parents are ancestors. -/
def Rule.ancestor : Rule where
  name? := none
  head := ⟨.var 0, .str "ancestor", .var 1⟩
  body := [.pattern ⟨.var 0, .str "parent", .var 1⟩]
  varCount := 2
  inScope := by decide

/-- Whose ancestor is Ann? -/
def Goal.descendants : Goal := .pattern ⟨.str "ann", .str "ancestor", .var 0⟩

namespace Store

/-- Ann is a parent of Bob, and parents are ancestors. -/
def family : Store :=
  ((Store.withReferences [.str "parent"]).push (.fact ⟨.str "ann", .str "parent", .str "bob"⟩ rfl)).addRule
    .ancestor

theorem reachable_family : family.Reachable :=
  .addRule _ (.addFact (.withReferences _) (t := ⟨.str "ann", .str "parent", .str "bob"⟩) rfl)

end Store

end TripleStore
