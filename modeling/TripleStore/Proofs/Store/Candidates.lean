import TripleStore.Proofs.Bindings.Failure
import TripleStore.Proofs.Store.Index

/-!
# Candidates

The index rules out an entry for a pattern only when the two have different ground terms in one place
(`Entry.fits`): `Reachable.candidates_indexed` says that the candidates are exactly the entries that fit. An
entry whose head has a common instance with the pattern fits (`Entry.fits_of_equal`), so it is a candidate
however candidates are found (`Reachable.mem_candidates`), and an entry that is ruled out does not unify
(`Entry.unifyTriple_of_not_fits`). Said place by place, and in one statement, this is **`Store.candidates_exact`**.
-/

namespace TripleStore

open Term

/-! ### Entries in use -/

namespace Entry

/-- The triple that a pattern is matched against: a fact as it is, the head of a rule with its variables
renamed into the range that begins at `base`. -/
def headAt (base : Nat) : Entry → Triple
  | fact t _ => t
  | rule r => r.headAt base

/-- The goals that are left when the entry matches: none for a fact. -/
def bodyAt (base : Nat) : Entry → List Goal
  | fact .. => []
  | rule r => r.bodyAt base

/-- The number of variables that a use of the entry takes. -/
def varCount : Entry → Nat
  | fact .. => 0
  | rule r => r.varCount

end Entry

theorem Triple.isGround_iff {t : Triple} :
    t.isGround = true ↔ t.entity.isGround = true ∧ t.attr.isGround = true ∧ t.value.isGround = true := by
  simp [Triple.isGround, Triple.toList]

/-- A function that keeps ground terms keeps ground triples. -/
theorem Triple.map_of_isGround {t : Triple} (h : t.isGround = true) {f : Term → Term}
    (hf : ∀ u : Term, u.isGround = true → f u = u) : t.map f = t := by
  obtain ⟨he, ha, hv⟩ := isGround_iff.1 h
  rw [Triple.map, hf _ he, hf _ ha, hf _ hv]

theorem Triple.map_map (f g : Term → Term) (t : Triple) : (t.map f).map g = t.map fun u => g (f u) := rfl

theorem Entry.headAt_eq_shift (e : Entry) (base : Nat) : e.headAt base = e.head.shift base := by
  cases e with
  | fact t ground => exact (Triple.map_of_isGround ground fun u hu => rename_of_isGround hu _).symm
  | rule r => rfl

/-! ### Entries that fit -/

namespace Entry

/-- No place has different ground terms in the head of the entry and in the pattern; of the values this is
asked only where the joins are consulted, and there of facts only. -/
def fits (references : List Term) (goal : Triple) (e : Entry) : Bool :=
  (!goal.entity.isGround || !e.head.entity.isGround || e.head.entity == goal.entity) &&
    (!goal.attr.isGround || !e.head.attr.isGround || e.head.attr == goal.attr) &&
      (goal.entity.isGround || !goal.attr.isGround || !goal.value.isGround || !references.contains goal.attr ||
        !e.isFact || e.head.value == goal.value)

theorem attr_isGround_of_isFact {e : Entry} (h : e.isFact = true) : e.head.attr.isGround = true := by
  cases e with
  | fact t ground => exact (Triple.isGround_iff.1 ground).2.1
  | rule r => cases h

/-- A pattern and an entry whose head has the same value, under an assignment that respects the bindings,
fit. -/
theorem fits_of_equal {s : Bindings} {τ : Nat → Term} (hτ : s.RespectedBy τ) {goal : Triple} {e : Entry}
    {base : Nat} (h : goal.map (subst τ) = (e.headAt base).map (subst τ)) (references : List Term) :
    e.fits references (goal.map s.reify) = true := by
  have place {a b : Term} (heq : a.subst τ = (b.shift base).subst τ) (ha : (s.reify a).isGround = true)
      (hb : b.isGround = true) : b = s.reify a := by
    rw [shift_eq_rename, rename_of_isGround hb, ← hτ.subst_reify, subst_of_isGround ha,
      subst_of_isGround hb] at heq
    exact heq.symm
  rw [headAt_eq_shift] at h
  obtain ⟨he, ha, hv⟩ := Triple.mk.inj h
  have hplaces : ∀ {a b : Term}, a.subst τ = (b.shift base).subst τ →
      (!(s.reify a).isGround || !b.isGround || b == s.reify a) = true := by
    intro a b heq
    cases hga : (s.reify a).isGround with
    | false => rfl
    | true =>
      cases hgb : b.isGround with
      | false => rfl
      | true => simpa using place heq hga hgb
  have hvalue : (!(s.reify goal.value).isGround || !e.isFact || e.head.value == s.reify goal.value) = true := by
    cases hf : e.isFact with
    | false => simp
    | true =>
      have hg : e.head.value.isGround = true := by
        cases e with
        | fact t ground => exact (Triple.isGround_iff.1 ground).2.2
        | rule r => cases hf
      simpa [hg] using hplaces hv
  rw [fits, Bool.and_eq_true, Bool.and_eq_true]
  refine ⟨⟨hplaces he, hplaces ha⟩, ?_⟩
  simp only [Bool.or_eq_true] at hvalue ⊢
  simp only [Triple.map]
  tauto

/-- An entry that does not fit does not unify with the pattern, wherever its variables are renamed to. -/
theorem unifyTriple_of_not_fits {s : Bindings} (hs : s.Acyclic) {goal : Triple} {e : Entry}
    {references : List Term} (h : e.fits references (goal.map s.reify) = false) (base : Nat) :
    s.unifyTriple goal (e.headAt base) = none := by
  cases hu : s.unifyTriple goal (e.headAt base) with
  | none => rfl
  | some s' =>
    obtain ⟨hτ, hequal⟩ := Bindings.equal_of_unifyTriple hs hu
    rw [fits_of_equal hτ hequal] at h
    cases h

end Entry

/-! ### Candidates of a store -/

namespace Store

variable {st : Store}

theorem get?_eq_toList (st : Store) (p : Nat) : st.get? p = st.entries.toList[p]? := by
  rw [get?, Array.getElem?_toList]

theorem positions_eq (st : Store) : st.positions = positionsWhere (fun _ => true) st.entries.toList := by
  rw [positions, positionsWhere, List.filter_eq_self.2, size, Array.length_toList]
  intro p hp
  rw [List.mem_range] at hp
  rw [List.getElem?_eq_getElem hp]
  rfl

/-- What the index does not rule out for a pattern is what fits it. -/
theorem indexed_eq (h : Index.Lists st.references st.entries.toList st.index) (goal : Triple) :
    st.indexed goal = positionsWhere (Entry.fits st.references goal) st.entries.toList := by
  have hentity : st.index.withEntity goal.entity = positionsWhere
      (fun e => e.hasEntity goal.entity || !e.head.entity.isGround) st.entries.toList := by
    rw [Index.withEntity, h.byEntity, h.openEntity, union_positionsWhere]
  have hattr : st.index.withAttribute goal.attr = positionsWhere
      (fun e => e.hasAttr goal.attr || !e.head.attr.isGround) st.entries.toList := by
    rw [Index.withAttribute, h.byAttribute, h.openAttribute, union_positionsWhere]
  have hreference : st.index.withReference goal.attr goal.value = positionsWhere
      (fun e => !e.isFact && e.hasAttr goal.attr || !e.head.attr.isGround ||
        e.joins st.references (goal.attr, goal.value)) st.entries.toList := by
    rw [Index.withReference, h.rulesByAttribute, h.openAttribute, h.joins, union_positionsWhere,
      union_positionsWhere]
  have ground_or (g b : Bool) : (g && b || !g) = (!g || b) := by cases g <;> cases b <;> rfl
  unfold indexed
  split
  · rename_i hge hga
    rw [hentity, hattr, intersect_positionsWhere]
    refine positionsWhere_congr fun e => ?_
    simp [Entry.fits, Entry.hasEntity, Entry.hasAttr, hge, hga, ground_or]
  · rename_i hge hga
    rw [hentity]
    refine positionsWhere_congr fun e => ?_
    simp [Entry.fits, Entry.hasEntity, hge, hga, ground_or]
  · rename_i hge hga
    split
    · rename_i hjoin
      obtain ⟨hgv, hr⟩ := Bool.and_eq_true_iff.1 hjoin
      rw [hreference]
      refine positionsWhere_congr fun e => ?_
      cases hf : e.isFact with
      | false => simp [Entry.fits, Entry.hasAttr, Entry.joins, hf, hge, hga, ground_or]
      | true =>
        have hground := e.attr_isGround_of_isFact hf
        cases heq : e.head.attr == goal.attr with
        | false => simp [Entry.fits, Entry.joins, hf, hge, hga, hground, heq]
        | true =>
          have hr' : st.references.contains e.head.attr = true := by rw [eq_of_beq heq]; exact hr
          simp only [Entry.fits, Entry.joins, hf, hge, hga, hgv, hground, heq, hr, hr']
          simp
    · rename_i hjoin
      rw [Bool.not_eq_true, Bool.and_eq_false_iff] at hjoin
      rw [hattr]
      refine positionsWhere_congr fun e => ?_
      rcases hjoin with hgv | hr
      · simp [Entry.fits, Entry.hasAttr, hge, hga, hgv, ground_or]
      · simp only [Entry.fits, Entry.hasAttr, hge, hga, hr, ground_or]
        simp
  · rename_i hge hga
    rw [positions_eq]
    refine positionsWhere_congr fun e => ?_
    simp [Entry.fits, hge, hga]

/-- **The candidates that the index gives are the entries that fit**, in ascending order. -/
theorem Reachable.candidates_indexed (h : st.Reachable) (s : Bindings) (goal : Triple) :
    st.candidates .indexed s goal
      = positionsWhere (Entry.fits st.references (goal.map s.reify)) st.entries.toList :=
  indexed_eq h.lists _

theorem candidates_fullScan (st : Store) (s : Bindings) (goal : Triple) :
    st.candidates .fullScan s goal = positionsWhere (fun _ => true) st.entries.toList :=
  st.positions_eq

theorem Reachable.pairwise_candidates (h : st.Reachable) (mode : Retrieval) (s : Bindings) (goal : Triple) :
    (st.candidates mode s goal).Pairwise (· < ·) := by
  cases mode with
  | indexed =>
    rw [h.candidates_indexed]
    exact pairwise_positionsWhere _ _
  | fullScan =>
    rw [candidates_fullScan]
    exact pairwise_positionsWhere _ _

/-- **No candidate is missed**: an entry that has a common instance with the pattern is one. -/
theorem Reachable.mem_candidates (h : st.Reachable) (mode : Retrieval) {s : Bindings} {τ : Nat → Term}
    (hτ : s.RespectedBy τ) {goal : Triple} {p base : Nat} {e : Entry} (hp : st.get? p = some e)
    (heq : goal.map (subst τ) = (e.headAt base).map (subst τ)) : p ∈ st.candidates mode s goal := by
  rw [get?_eq_toList] at hp
  cases mode with
  | indexed =>
    rw [h.candidates_indexed]
    exact mem_positionsWhere.2 ⟨e, hp, Entry.fits_of_equal hτ heq _⟩
  | fullScan =>
    rw [candidates_fullScan]
    exact mem_positionsWhere.2 ⟨e, hp, rfl⟩

end Store

/-! ### The candidates, place by place -/

/-- An entry may answer a pattern. Where both have a ground term as the entity, it is the same; likewise for the
attribute. Where the values of a reference attribute are looked up, a fact has the value of the pattern. -/
structure Entry.MayAnswer (references : List Term) (goal : Triple) (e : Entry) : Prop where
  entity : goal.entity.isGround = true → e.head.entity.isGround = false ∨ e.head.entity = goal.entity
  attr : goal.attr.isGround = true → e.head.attr.isGround = false ∨ e.head.attr = goal.attr
  value : goal.entity.isGround = false → goal.attr.isGround = true → goal.attr ∈ references →
    goal.value.isGround = true → e.isFact = false ∨ e.head.value = goal.value

theorem Entry.fits_iff {references : List Term} {goal : Triple} {e : Entry} :
    e.fits references goal = true ↔ e.MayAnswer references goal := by
  have place (g h : Bool) (eq : Prop) [Decidable eq] :
      (!g || !h || decide eq) = true ↔ (g = true → h = false ∨ eq) := by
    cases g <;> cases h <;> simp
  have hvalue : (goal.entity.isGround || !goal.attr.isGround || !goal.value.isGround || !references.contains goal.attr ||
      !e.isFact || e.head.value == goal.value) = true ↔ (goal.entity.isGround = false → goal.attr.isGround = true →
        goal.attr ∈ references → goal.value.isGround = true → e.isFact = false ∨ e.head.value = goal.value) := by
    rw [← List.contains_iff_mem]
    cases goal.entity.isGround <;> cases goal.attr.isGround <;> cases goal.value.isGround <;>
      cases references.contains goal.attr <;> simp
  rw [fits, Bool.and_eq_true, Bool.and_eq_true, hvalue]
  constructor
  · rintro ⟨⟨he, ha⟩, hv⟩
    exact ⟨(place _ _ _).1 he, (place _ _ _).1 ha, hv⟩
  · rintro ⟨he, ha, hv⟩
    exact ⟨⟨(place _ _ _).2 he, (place _ _ _).2 ha⟩, hv⟩

/-- **The candidates are exactly the entries that may answer.** In a store that can be built, what the index gives for a
pattern under acyclic bindings is the ascending list of the positions whose entry may answer the pattern with the values
of its variables put in. Hence it has every position whose entry unifies with the pattern, wherever the variables of the
entry are renamed to. -/
theorem Store.candidates_exact {st : Store} (hst : st.Reachable) {s : Bindings} (hs : s.Acyclic) (goal : Triple) :
    (st.candidates .indexed s goal).Pairwise (· < ·) ∧
      (∀ p, p ∈ st.candidates .indexed s goal ↔
        ∃ e, st.get? p = some e ∧ e.MayAnswer st.references (goal.map s.reify)) ∧
      ∀ p e base s', st.get? p = some e → s.unifyTriple goal (e.headAt base) = some s' →
        p ∈ st.candidates .indexed s goal := by
  refine ⟨hst.pairwise_candidates .indexed s goal, fun p => ?_, fun p e base s' hp hu => ?_⟩
  · rw [hst.candidates_indexed, mem_positionsWhere, ← get?_eq_toList]
    exact exists_congr fun e => and_congr_right fun _ => Entry.fits_iff
  · have hunified := Bindings.unified_of_unifyTriple hs hu
    obtain ⟨hτ, heq⟩ := (hunified.respectedBy_iff _).1 hunified.acyclic.respectedBy_value
    exact hst.mem_candidates .indexed hτ hp (Bindings.positionPairs_eq_iff.1 heq)

/-- Whose parent is Cid? The fact in the family is not a candidate, as its value is another one. Whose ancestor is Ann?
The rule, which has variables in these places, is the candidate. -/
theorem Store.candidates_exact_family :
    0 ∉ family.candidates .indexed .empty ⟨.var 0, .str "parent", .str "cid"⟩ ∧
      1 ∈ family.candidates .indexed .empty ⟨.str "ann", .str "ancestor", .var 0⟩ := by
  constructor
  · intro hmem
    obtain ⟨e, he, hanswer⟩ := ((candidates_exact reachable_family Bindings.acyclic_empty _).2.1 0).1 hmem
    cases he
    exact absurd (hanswer.value rfl rfl (by decide) rfl) (by decide)
  · exact (candidates_exact reachable_family Bindings.acyclic_empty _).2.2 1 (.rule .ancestor) 1
      (((Bindings.empty.extend 1 (.str "ann")).extend 0 (.var 2))) rfl (by rfl)

end TripleStore
