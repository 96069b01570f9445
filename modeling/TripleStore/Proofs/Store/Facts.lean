import Mathlib.Data.Finset.Card
import Mathlib.Data.List.Nodup
import Mathlib.Logic.Relation
import TripleStore.Store.Basic

/-!
# Facts, and the paths along them

The facts of one attribute are the edges of a graph (`Store.Edge`) whose nodes are terms; a fact that is stored twice is
two edges. A path is told by the positions of its facts (`Store.Path`). The paths up to a length can be listed
(`Store.walks`), each once (`Store.nodup_walks`). If the graph has no cycle, then a node has a rank, which falls along
every edge (`Store.rank_lt_rank`), and no path is longer than there are facts (`Store.mem_walks_length_iff`).
-/

namespace TripleStore

open Relation

/-! ### Facts -/

/-- The triple of a fact. -/
def Entry.fact? : Entry → Option Triple
  | fact t _ => some t
  | rule _ => none

/-- The facts of a store, in their order. -/
def Store.facts (st : Store) : List Triple := st.entries.toList.filterMap Entry.fact?

theorem Store.mem_facts_iff {st : Store} {t : Triple} : t ∈ st.facts ↔ ∃ ground, .fact t ground ∈ st.entries := by
  simp only [facts, List.mem_filterMap, Array.mem_toList_iff]
  constructor
  · rintro ⟨⟨u, ground⟩ | r, he, hfact⟩
    · cases hfact
      exact ⟨ground, he⟩
    · cases hfact
  · rintro ⟨ground, he⟩
    exact ⟨_, he, rfl⟩

theorem filterMap_fact? {facts : List Triple} {entries : List Entry}
    (h : List.Forall₂ (fun t e => ∃ ground, e = .fact t ground) facts entries) :
    entries.filterMap Entry.fact? = facts := by
  induction h with
  | nil => rfl
  | cons he _ ih =>
    obtain ⟨ground, rfl⟩ := he
    simp [Entry.fact?, ih]

/-! ### Paths -/

/-- A path with its ends. -/
structure Walk where
  /-- The entity of the first fact. -/
  source : Term
  /-- The positions of the facts, in the order of the path. -/
  positions : List Nat
  /-- The value of the last fact. -/
  target : Term

namespace Walk

/-- The triple that relates the ends. -/
def triple (attr : Term) (w : Walk) : Triple := ⟨w.source, attr, w.target⟩

/-- One path after the other, if the second begins where the first ends. -/
def append? (u w : Walk) : Option Walk :=
  if u.target = w.source then some ⟨u.source, u.positions ++ w.positions, w.target⟩ else none

theorem append?_eq_some_iff {u v w : Walk} :
    u.append? v = some w ↔ u.target = v.source ∧ w = ⟨u.source, u.positions ++ v.positions, v.target⟩ := by
  rw [append?]
  split
  · rename_i h
    rw [Option.some.injEq, eq_comm, and_iff_right h]
  · rename_i h
    simp [h]

theorem append?_injective {u v v' w : Walk} (h : u.append? v = some w) (h' : u.append? v' = some w) : v = v' := by
  obtain ⟨hmeet, rfl⟩ := append?_eq_some_iff.1 h
  obtain ⟨hmeet', heq⟩ := append?_eq_some_iff.1 h'
  obtain ⟨source, positions, target⟩ := v
  obtain ⟨source', positions', target'⟩ := v'
  simp only [mk.injEq, true_and, List.append_cancel_left_eq] at heq
  obtain ⟨rfl, rfl⟩ := heq
  obtain rfl := hmeet.symm.trans hmeet'
  rfl

end Walk

/-- The path along an entry that stands at a position, if it is a fact of the attribute. -/
def Walk.ofEntry? (p : Term) : Entry × Nat → Option Walk
  | (.fact t _, position) => if t.attr = p then some ⟨t.entity, [position], t.value⟩ else none
  | (.rule _, _) => none

namespace Store

variable {st : Store} {p x y z : Term} {i : Nat} {is : List Nat} {w : Walk} {n : Nat}

/-- The entry at the position is a fact that relates the two terms by the attribute. -/
def EdgeAt (st : Store) (p : Term) (i : Nat) (x y : Term) : Prop := ∃ ground, st.get? i = some (.fact ⟨x, p, y⟩ ground)

/-- Some fact relates the two terms by the attribute. -/
def Edge (st : Store) (p x y : Term) : Prop := ∃ i, st.EdgeAt p i x y

/-- The facts at the positions lead from one term to the other; there is at least one of them. -/
inductive Path (st : Store) (p : Term) : Term → List Nat → Term → Prop
  | edge {x y : Term} {i : Nat} : st.EdgeAt p i x y → Path st p x [i] y
  | cons {x y z : Term} {i : Nat} {is : List Nat} : st.EdgeAt p i x z → Path st p z is y → Path st p x (i :: is) y

/-- The fact at a position has one entity and one value. -/
theorem EdgeAt.walk_eq {u w : Walk} (hu : st.EdgeAt p i u.source u.target) (hw : st.EdgeAt p i w.source w.target)
    (hiu : u.positions = [i]) (hiw : w.positions = [i]) : u = w := by
  obtain ⟨source, positions, target⟩ := u
  obtain ⟨source', positions', target'⟩ := w
  obtain ⟨_, hu⟩ := hu
  obtain ⟨_, hw⟩ := hw
  obtain rfl := hiu
  obtain rfl := hiw
  rw [hu] at hw
  cases hw
  rfl

theorem Path.length_pos (h : st.Path p x is y) : 0 < is.length := by
  cases h <;> exact Nat.succ_pos _

theorem edge_iff_mem_facts : st.Edge p x y ↔ ⟨x, p, y⟩ ∈ st.facts := by
  rw [mem_facts_iff]
  constructor
  · rintro ⟨i, ground, hi⟩
    exact ⟨ground, Array.mem_of_getElem? hi⟩
  · rintro ⟨ground, he⟩
    obtain ⟨i, hi⟩ := Array.getElem?_of_mem he
    exact ⟨i, ground, hi⟩

/-- **There is a path exactly where the transitive closure of the edges leads.** -/
theorem exists_path_iff : (∃ is, st.Path p x is y) ↔ TransGen (st.Edge p) x y := by
  constructor
  · rintro ⟨is, h⟩
    induction h with
    | edge h => exact .single ⟨_, h⟩
    | cons h _ ih => exact .head ⟨_, h⟩ ih
  · intro h
    induction h using TransGen.head_induction_on with
    | single h =>
      obtain ⟨i, hi⟩ := h
      exact ⟨[i], .edge hi⟩
    | head h _ ih =>
      obtain ⟨i, hi⟩ := h
      obtain ⟨is, his⟩ := ih
      exact ⟨i :: is, .cons hi his⟩

/-! ### Listing paths -/

/-- The paths along one fact. -/
def steps (st : Store) (p : Term) : List Walk :=
  st.entries.toList.zipIdx.filterMap (Walk.ofEntry? p)

/-- The paths along at most `n` facts. -/
def walks (st : Store) (p : Term) : (n : Nat) → List Walk
  | 0 => []
  | n + 1 => st.steps p ++ (st.steps p).flatMap fun u => (st.walks p n).filterMap u.append?

theorem ofEntry?_eq_some_iff {e : Entry} : Walk.ofEntry? p (e, i) = some w ↔
    ∃ ground, e = .fact ⟨w.source, p, w.target⟩ ground ∧ w.positions = [i] := by
  cases e with
  | rule r => simp [Walk.ofEntry?]
  | fact t ground =>
    obtain ⟨source, positions, target⟩ := w
    obtain ⟨entity, attr, value⟩ := t
    rw [Walk.ofEntry?]
    split
    · rename_i h
      obtain rfl : attr = p := h
      simp only [Option.some.injEq, Walk.mk.injEq, Entry.fact.injEq, Triple.mk.injEq]
      constructor
      · rintro ⟨rfl, rfl, rfl⟩
        exact ⟨ground, ⟨rfl, trivial, rfl⟩, rfl⟩
      · rintro ⟨-, ⟨rfl, -, rfl⟩, rfl⟩
        exact ⟨rfl, rfl, rfl⟩
    · rename_i h
      have hne : attr ≠ p := h
      simp [hne]

theorem mem_steps_iff : w ∈ st.steps p ↔ ∃ i, w.positions = [i] ∧ st.EdgeAt p i w.source w.target := by
  simp only [steps, List.mem_filterMap, Prod.exists, List.mk_mem_zipIdx_iff_getElem?, ofEntry?_eq_some_iff, EdgeAt, get?,
    Array.getElem?_toList]
  constructor
  · rintro ⟨e, i, he, ground, rfl, hpositions⟩
    exact ⟨i, hpositions, ground, he⟩
  · rintro ⟨i, hpositions, ground, he⟩
    exact ⟨_, i, he, ground, rfl, hpositions⟩

/-- The triples of the paths along one fact are the facts of the attribute. -/
theorem map_triple_steps (st : Store) (p : Term) :
    (st.steps p).map (Walk.triple p) = st.facts.filter fun t => t.attr = p := by
  have hlist : ∀ (entries : List Entry) (k : Nat),
      ((entries.zipIdx k).filterMap (Walk.ofEntry? p)).map (Walk.triple p)
        = (entries.filterMap Entry.fact?).filter fun t => t.attr = p := by
    intro entries
    induction entries with
    | nil => exact fun k => rfl
    | cons e entries ih =>
      intro k
      rw [List.zipIdx_cons]
      cases e with
      | rule r =>
        rw [List.filterMap_cons_none rfl, List.filterMap_cons_none rfl]
        exact ih (k + 1)
      | fact t ground =>
        rw [List.filterMap_cons_some (f := Entry.fact?) rfl, List.filter_cons]
        by_cases h : t.attr = p
        · have hstep : Walk.ofEntry? p (.fact t ground, k) = some ⟨t.entity, [k], t.value⟩ := if_pos h
          rw [List.filterMap_cons_some hstep, List.map_cons, ih (k + 1), if_pos (decide_eq_true h), Walk.triple, ← h]
        · have hstep : Walk.ofEntry? p (.fact t ground, k) = none := if_neg h
          rw [List.filterMap_cons_none hstep, ih (k + 1), if_neg (by simpa using h)]
  exact hlist st.entries.toList 0

theorem nodup_steps (st : Store) (p : Term) : (st.steps p).Nodup := by
  have hpositions : (st.entries.toList.zipIdx).Pairwise fun a b => a.2 ≠ b.2 := by
    rw [← List.pairwise_map (f := Prod.snd) (R := (· ≠ ·)), List.zipIdx_map_snd]
    exact List.nodup_range'
  refine List.Pairwise.filterMap _ ?_ hpositions
  intro a b hne u hu w hw huw
  obtain ⟨-, -, hi⟩ := ofEntry?_eq_some_iff.1 hu
  obtain ⟨-, -, hj⟩ := ofEntry?_eq_some_iff.1 hw
  rw [huw, hj] at hi
  exact hne (List.singleton_inj.1 hi).symm

/-- **The walks up to a length are the paths up to it.** -/
theorem mem_walks_iff :
    w ∈ st.walks p n ↔ st.Path p w.source w.positions w.target ∧ w.positions.length ≤ n := by
  induction n generalizing w with
  | zero =>
    constructor
    · intro h
      cases h
    · rintro ⟨h, hlen⟩
      have hpositions := List.eq_nil_of_length_eq_zero (Nat.le_zero.1 hlen)
      rw [hpositions] at h
      cases h
  | succ n ih =>
    simp only [walks, List.mem_append, List.mem_flatMap, List.mem_filterMap, Walk.append?_eq_some_iff, mem_steps_iff, ih]
    constructor
    · rintro (⟨i, hpositions, hedge⟩ | ⟨u, ⟨i, hpositions, hedge⟩, v, ⟨hpath, hlen⟩, hmeet, rfl⟩)
      · rw [hpositions]
        exact ⟨.edge hedge, Nat.le_add_left 1 n⟩
      · dsimp only
        rw [hpositions]
        exact ⟨.cons (hmeet ▸ hedge) hpath, Nat.succ_le_succ hlen⟩
    · obtain ⟨x, is, y⟩ := w
      rintro ⟨hpath, hlen⟩
      cases hpath with
      | @edge _ _ i hedge => exact .inl ⟨i, rfl, hedge⟩
      | @cons _ _ z i is hedge hpath =>
        exact .inr ⟨⟨x, [i], z⟩, ⟨i, rfl, hedge⟩, ⟨z, is, y⟩, ⟨hpath, Nat.le_of_succ_le_succ hlen⟩, rfl, rfl⟩

/-- **Every path is listed once.** -/
theorem nodup_walks (st : Store) (p : Term) (n : Nat) : (st.walks p n).Nodup := by
  induction n with
  | zero => exact .nil
  | succ n ih =>
    have hdisjoint : (st.steps p).Pairwise fun u u' =>
        ((st.walks p n).filterMap u.append?).Disjoint ((st.walks p n).filterMap u'.append?) := by
      refine (nodup_steps st p).imp_of_mem fun hu hu' hne w hw hw' => hne ?_
      obtain ⟨i, hi, hedge⟩ := mem_steps_iff.1 hu
      obtain ⟨i', hi', hedge'⟩ := mem_steps_iff.1 hu'
      obtain ⟨v, -, happend⟩ := List.mem_filterMap.1 hw
      obtain ⟨v', -, happend'⟩ := List.mem_filterMap.1 hw'
      obtain ⟨-, rfl⟩ := Walk.append?_eq_some_iff.1 happend
      obtain ⟨-, heq⟩ := Walk.append?_eq_some_iff.1 happend'
      -- the first position of a path says which fact it begins with
      have hpositions := congrArg Walk.positions heq
      dsimp only at hpositions
      rw [hi, hi'] at hpositions
      obtain ⟨rfl, -⟩ := List.cons.inj hpositions
      exact hedge.walk_eq hedge' hi hi'
    rw [walks, List.nodup_append]
    refine ⟨nodup_steps st p, List.nodup_flatMap.2 ⟨fun u _ => ?_, hdisjoint⟩, fun u hu w hw huw => ?_⟩
    · refine List.Pairwise.filterMap _ (fun v v' hne w hw w' hw' heq => hne ?_) ih
      exact Walk.append?_injective (heq ▸ hw) hw'
    · -- a path along one fact is shorter
      obtain ⟨u', hu', hw⟩ := List.mem_flatMap.1 hw
      obtain ⟨v, hv, happend⟩ := List.mem_filterMap.1 hw
      obtain ⟨-, rfl⟩ := Walk.append?_eq_some_iff.1 happend
      obtain ⟨i, hi, -⟩ := mem_steps_iff.1 hu
      obtain ⟨i', hi', -⟩ := mem_steps_iff.1 hu'
      have hlen := congrArg (fun w => w.positions.length) huw
      have hpath := (mem_walks_iff.1 hv).1.length_pos
      simp only [hi, hi', List.length_singleton, List.length_append] at hlen
      omega

/-! ### Acyclic relations -/

open Classical in
/-- The number of values that are reached from a term. -/
noncomputable def rank (st : Store) (p x : Term) : Nat :=
  {y ∈ (st.facts.map Triple.value).toFinset | TransGen (st.Edge p) x y}.card

theorem rank_le (st : Store) (p x : Term) : st.rank p x ≤ st.facts.length := by
  classical
  refine (Finset.card_filter_le _ _).trans ((List.toFinset_card_le _).trans ?_)
  rw [List.length_map]

/-- **The rank falls along every edge**, if there is no cycle. -/
theorem rank_lt_rank (hacyclic : ∀ x, ¬TransGen (st.Edge p) x x) (h : st.Edge p x y) : st.rank p y < st.rank p x := by
  classical
  have hy : y ∈ (st.facts.map Triple.value).toFinset := by
    rw [List.mem_toFinset]
    exact List.mem_map.2 ⟨_, edge_iff_mem_facts.1 h, rfl⟩
  refine Finset.card_lt_card (Finset.ssubset_iff_of_subset ?_ |>.2 ⟨y, ?_, ?_⟩)
  · intro z hz
    obtain ⟨hz, hreached⟩ := Finset.mem_filter.1 hz
    exact Finset.mem_filter.2 ⟨hz, .head h hreached⟩
  · exact Finset.mem_filter.2 ⟨hy, .single h⟩
  · exact fun hreached => hacyclic y (Finset.mem_filter.1 hreached).2

theorem Path.length_le_rank (hacyclic : ∀ x, ¬TransGen (st.Edge p) x x) (h : st.Path p x is y) :
    is.length ≤ st.rank p x := by
  induction h with
  | edge h => exact Nat.succ_le_of_lt (Nat.zero_lt_of_lt (rank_lt_rank hacyclic ⟨_, h⟩))
  | cons h _ ih => exact Nat.succ_le_of_lt (ih.trans_lt (rank_lt_rank hacyclic ⟨_, h⟩))

/-- **No path is longer than there are facts**, if there is no cycle. -/
theorem mem_walks_length_iff (hacyclic : ∀ x, ¬TransGen (st.Edge p) x x) (hn : st.facts.length ≤ n) :
    w ∈ st.walks p n ↔ st.Path p w.source w.positions w.target := by
  rw [mem_walks_iff, and_iff_left_iff_imp]
  exact fun h => ((h.length_le_rank hacyclic).trans (rank_le st p _)).trans hn

end Store

end TripleStore
