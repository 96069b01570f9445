import TripleStore.Proofs.Search.Closure

/-!
# Proofs are paths

How often a store proves a triple is counted by sets of triples (`Store.proofs`). In a store that closes a relation
each of these sets has at most one triple, so the proofs come to a bag of triples (`Proves`), and these are the facts
and, for each path along edges up to a length, the triple that relates its ends (**`Store.Closes.proves_proofs`**).
Both grow in one way: with one more use of entries there is a fact, an edge, or an edge and a proof after it
(`Store.Closes.proves_prove`), and a path is an edge, or an edge and a path after it (`Store.walks`).
-/

namespace TripleStore

open Term Relation

variable {st : Store} {p r : Term} {P : Multiset (Set Triple)} {L : Multiset Triple} {W : Set (Nat → Term)} {t : Triple}

/-! ### What is proved, and how often -/

open Classical in
/-- Each of the triples is proved as often as it is listed, and nothing else is proved. -/
def Proves (P : Multiset (Set Triple)) (L : Multiset Triple) : Prop := P.filter Set.Nonempty = L.map fun t => {t}

theorem proves_zero : Proves 0 0 := rfl

/-- A pattern is met by the triples that are proved. -/
theorem Proves.possible_waysAll (h : Proves P L) (W : Set (Nat → Term)) (t : Triple) (goals : List Goal) :
    possible W (Goal.waysAll P (.pattern t :: goals))
      = L.bind fun u => possible (W ∩ {τ | t.map (subst τ) = u}) (Goal.waysAll P goals) := by
  classical
  have hbind : (P.bind fun U => possible (W ∩ {τ | t.map (subst τ) ∈ U}) (Goal.waysAll P goals))
      = (P.filter Set.Nonempty).bind fun U => possible (W ∩ {τ | t.map (subst τ) ∈ U}) (Goal.waysAll P goals) := by
    rw [Multiset.bind_filter]
    refine Multiset.bind_congr fun U _ => ?_
    split
    · rfl
    · rename_i hempty
      obtain rfl := Set.not_nonempty_iff_eq_empty.1 hempty
      simp only [Set.mem_empty_iff_false, Set.ofPred_false, Set.inter_empty, possible_empty]
  have hfilter : P.filter Set.Nonempty = L.map fun t => {t} := h
  rw [Goal.waysAll_cons, possible_waysBoth, Goal.ways, Multiset.bind_map, hbind, hfilter, Multiset.bind_map]
  rfl

/-- What an entry proves under some assignments, if its head has one value under all of them. -/
theorem Entry.map_proves_possible {e : Entry} {c : Prop} [Decidable c] (hW : W.Nonempty ↔ c)
    (ht : ∀ τ ∈ W, e.head.map (subst τ) = t) :
    (possible W {Set.univ}).map e.proves = if c then {{t}} else 0 := by
  rw [possible_univ_eq_ite hW]
  split
  · rename_i hc
    have hproves : e.proves W = {t} := by
      ext u
      rw [Entry.proves, Set.mem_singleton_iff]
      constructor
      · rintro ⟨τ, hτ, rfl⟩
        exact ht τ hτ
      · rintro rfl
        obtain ⟨τ, hτ⟩ := hW.2 hc
        exact ⟨τ, hτ, ht τ hτ⟩
    rw [Multiset.map_singleton, hproves]
  · rfl

/-- The proofs of something after one more use of entries: those of each entry that are possible. -/
theorem Store.proves_prove_iff : Proves (st.prove P) L ↔
    (st.entries.toList : Multiset Entry).bind (fun e => (possible Set.univ (Goal.waysAll P e.body)).map e.proves)
      = L.map fun t => {t} := by
  classical
  have hnonempty (e : Entry) (X : Set (Nat → Term)) : (e.proves X).Nonempty ↔ X.Nonempty := by
    constructor
    · rintro ⟨_, τ, hτ, -⟩
      exact ⟨τ, hτ⟩
    · rintro ⟨τ, hτ⟩
      exact ⟨_, τ, hτ, rfl⟩
  have hfilter : (st.prove P).filter Set.Nonempty = (st.entries.toList : Multiset Entry).bind fun e =>
      (possible Set.univ (Goal.waysAll P e.body)).map e.proves := by
    rw [Store.prove, Multiset.filter_bind]
    refine Multiset.bind_congr fun e _ => ?_
    simp only [Multiset.filter_map, possible, Set.univ_inter, Multiset.map_id', Function.comp_def, hnonempty]
  rw [Proves, ← hfilter]

theorem Triple.map_subst_eq_iff {a q b : Term} (hq : q.isGround = true) {τ : Nat → Term} {u : Triple} :
    (⟨a, q, b⟩ : Triple).map (subst τ) = u ↔ a.subst τ = u.entity ∧ q = u.attr ∧ b.subst τ = u.value := by
  obtain ⟨entity, attr, value⟩ := u
  simp only [Triple.map, subst_of_isGround hq, Triple.mk.injEq]

namespace Store

/-- The triples that the rule for an edge proves. -/
theorem Closes.proves_begins (h : st.Closes p r) {rule : Rule} (hrule : rule.Begins p r) (hP : Proves P L) :
    (possible Set.univ (Goal.waysAll P rule.body)).map (Entry.rule rule).proves
      = (L.filter fun u => u.attr = p).map fun u => {⟨u.entity, r, u.value⟩} := by
  obtain ⟨x, y, hxy, hhead, hbody⟩ := hrule
  rw [hbody, hP.possible_waysAll, Multiset.map_bind, ← Multiset.bind_singleton, Multiset.bind_filter]
  refine Multiset.bind_congr fun u _ => Entry.map_proves_possible ⟨?_, fun hu => ?_⟩ ?_
  · rintro ⟨τ, -, hτ⟩
    exact ((Triple.map_subst_eq_iff h.ground).1 hτ).2.1.symm
  · let τ v := if v = x then u.entity else u.value
    have hx : τ x = u.entity := if_pos rfl
    have hy : τ y = u.value := if_neg hxy.symm
    exact ⟨τ, trivial, (Triple.map_subst_eq_iff h.ground).2 ⟨hx, hu.symm, hy⟩⟩
  · rintro τ ⟨-, hτ⟩
    obtain ⟨hentity, -, hvalue⟩ := (Triple.map_subst_eq_iff h.ground).1 hτ
    rw [Entry.head, hhead]
    exact (Triple.map_subst_eq_iff h.ground').2 ⟨hentity, rfl, hvalue⟩

/-- The triples that the rule for an edge and a path proves. -/
theorem Closes.proves_extends (h : st.Closes p r) {rule : Rule} (hrule : rule.Extends p r) (hP : Proves P L) :
    (possible Set.univ (Goal.waysAll P rule.body)).map (Entry.rule rule).proves
      = (L.filter fun u => u.attr = p).bind fun u => (L.filter fun v => v.attr = r ∧ u.value = v.entity).map fun v =>
          {⟨u.entity, r, v.value⟩} := by
  obtain ⟨x, y, z, hxy, hxz, hyz, hhead, hbody⟩ := hrule
  have hpair (u v : Triple) : (possible (Set.univ ∩ {τ | (⟨.var x, p, .var z⟩ : Triple).map (subst τ) = u} ∩
      {τ | (⟨.var z, r, .var y⟩ : Triple).map (subst τ) = v}) {Set.univ}).map (Entry.rule rule).proves
        = if u.attr = p ∧ v.attr = r ∧ u.value = v.entity then {{⟨u.entity, r, v.value⟩}} else 0 := by
    refine Entry.map_proves_possible ⟨?_, ?_⟩ ?_
    · rintro ⟨τ, ⟨-, hu⟩, hv⟩
      obtain ⟨-, hp, hz⟩ := (Triple.map_subst_eq_iff h.ground).1 hu
      obtain ⟨hz', hr, -⟩ := (Triple.map_subst_eq_iff h.ground').1 hv
      exact ⟨hp.symm, hr.symm, hz.symm.trans hz'⟩
    · rintro ⟨hp, hr, hz⟩
      let τ w := if w = x then u.entity else if w = y then v.value else u.value
      have hx : τ x = u.entity := if_pos rfl
      have hy : τ y = v.value := by simp [τ, hxy.symm]
      have hz' : τ z = u.value := by simp [τ, hxz.symm, hyz.symm]
      exact ⟨τ, ⟨trivial, (Triple.map_subst_eq_iff h.ground).2 ⟨hx, hp.symm, hz'⟩⟩,
        (Triple.map_subst_eq_iff h.ground').2 ⟨hz'.trans hz, hr.symm, hy⟩⟩
    · rintro τ ⟨⟨-, hu⟩, hv⟩
      rw [Entry.head, hhead]
      exact (Triple.map_subst_eq_iff h.ground').2
        ⟨((Triple.map_subst_eq_iff h.ground).1 hu).1, rfl, ((Triple.map_subst_eq_iff h.ground').1 hv).2.2⟩
  rw [hbody, hP.possible_waysAll, Multiset.map_bind, Multiset.bind_filter]
  refine Multiset.bind_congr fun u _ => ?_
  rw [hP.possible_waysAll, Multiset.map_bind, ← Multiset.bind_singleton, Multiset.bind_filter]
  simp only [Goal.waysAll_nil, hpair]
  split
  · rename_i hu
    simp only [hu, true_and]
  · rename_i hu
    simp only [hu, false_and, if_false, Multiset.bind_zero]

theorem proves_fact {t : Triple} {ground : t.isGround = true} :
    (possible Set.univ (Goal.waysAll P (Entry.fact t ground).body)).map (Entry.fact t ground).proves = {{t}} := by
  have hfact := Entry.map_proves_possible (e := .fact t ground) (c := True) (t := t) (W := Set.univ)
    (iff_true_intro ⟨fun _ => default, trivial⟩) fun τ _ =>
      Triple.map_of_isGround ground fun u hu => subst_of_isGround hu τ
  rwa [if_pos trivial] at hfact

/-- The facts of such a store, in some order, and none of them is of `r`. -/
theorem Closes.exists_facts (h : st.Closes p r) : ∃ short long facts, short.Begins p r ∧ long.Extends p r ∧
    st.entries.toList.Perm (.rule short :: .rule long :: facts) ∧ st.facts.Perm (facts.filterMap Entry.fact?) ∧
      ∀ e ∈ facts, ∃ t ground, e = .fact t ground ∧ t.attr ≠ r := by
  obtain ⟨short, long, facts, hshort, hlong, hperm, hfacts⟩ := h.entries
  exact ⟨short, long, facts, hshort, hlong, hperm, hperm.filterMap Entry.fact?, hfacts⟩

/-- **One more use of entries**: what the facts say, the edges that are proved, and an edge and a path after it. -/
theorem Closes.proves_prove (h : st.Closes p r) (hP : Proves P L) :
    Proves (st.prove P) ((st.facts : Multiset Triple) +
      ((L.filter fun u => u.attr = p).map fun u => ⟨u.entity, r, u.value⟩) +
      (L.filter fun u => u.attr = p).bind fun u => (L.filter fun v => v.attr = r ∧ u.value = v.entity).map fun v =>
        ⟨u.entity, r, v.value⟩) := by
  obtain ⟨short, long, facts, hshort, hlong, hperm, hstored, hfacts⟩ := h.exists_facts
  have hlist : ∀ facts : List Entry, (∀ e ∈ facts, ∃ t ground, e = .fact t ground ∧ t.attr ≠ r) →
      (facts : Multiset Entry).bind (fun e => (possible Set.univ (Goal.waysAll P e.body)).map e.proves)
        = ((facts.filterMap Entry.fact? : List Triple) : Multiset Triple).map fun t => {t} := by
    intro facts hfacts
    induction facts with
    | nil => rfl
    | cons e facts ih =>
      obtain ⟨⟨t, ground, rfl, -⟩, hrest⟩ := List.forall_mem_cons.1 hfacts
      rw [← Multiset.cons_coe, Multiset.cons_bind, proves_fact, ih hrest]
      rfl
  rw [proves_prove_iff, Multiset.coe_eq_coe.2 hperm, ← Multiset.cons_coe, ← Multiset.cons_coe, Multiset.cons_bind,
    Multiset.cons_bind, Multiset.coe_eq_coe.2 hstored, Multiset.map_add, Multiset.map_add, Multiset.map_bind,
    Multiset.map_map, hlist facts hfacts]
  simp only [Multiset.map_map, Function.comp_def, Entry.body]
  rw [h.proves_begins hshort hP, h.proves_extends hlong hP, add_comm, add_assoc, add_comm]

/-! ### Proofs are paths -/

theorem Closes.attr_ne (h : st.Closes p r) {t : Triple} (ht : t ∈ st.facts) : t.attr ≠ r := by
  obtain ⟨ground, he⟩ := mem_facts_iff.1 ht
  rcases h.mem_cases he with ⟨rule, heq, -⟩ | ⟨t, ground, heq, hne⟩
  · cases heq
  · cases heq
    exact hne

/-- The triples that paths with the same first edge and up to `n` more prove. -/
theorem map_triple_append (st : Store) (p r : Term) (n : Nat) (u : Walk) :
    ((st.walks p n).filterMap u.append?).map (Walk.triple r)
      = ((st.walks p n).filter fun w => u.target = w.source).map fun w => ⟨u.source, r, w.target⟩ := by
  induction st.walks p n with
  | nil => rfl
  | cons w walks ih =>
    rw [List.filter_cons]
    by_cases h : u.target = w.source
    · have happend : u.append? w = some ⟨u.source, u.positions ++ w.positions, w.target⟩ := if_pos h
      rw [List.filterMap_cons_some happend, List.map_cons, ih, if_pos (decide_eq_true h), List.map_cons, Walk.triple]
    · have happend : u.append? w = none := if_neg h
      rw [List.filterMap_cons_none happend, ih, if_neg (by simpa using h)]

/-- What is proved: the facts, and a triple of `r` for each path along at most `d` facts. -/
def Closes.proved (st : Store) (p r : Term) (d : Nat) : Multiset Triple :=
  (st.facts : Multiset Triple) + ((st.walks p d).map (Walk.triple r) : List Triple)

theorem Closes.filter_proved (h : st.Closes p r) (d : Nat) :
    ((Closes.proved st p r d).filter fun u => u.attr = p) = ((st.steps p).map (Walk.triple p) : List Triple) := by
  have hwalks : ((st.walks p d).map (Walk.triple r)).filter (fun u => u.attr = p) = [] := by
    refine List.filter_eq_nil_iff.2 fun u hu => ?_
    obtain ⟨w, -, rfl⟩ := List.mem_map.1 hu
    exact fun heq => h.ne (of_decide_eq_true heq)
  rw [proved, Multiset.filter_add, Multiset.filter_coe, Multiset.filter_coe, map_triple_steps, hwalks]
  exact add_zero _

/-- The triples of `r` that are proved are those of paths. -/
theorem Closes.filter_proved_attr (h : st.Closes p r) (d : Nat) (c : Triple → Prop) [DecidablePred c] :
    ((Closes.proved st p r d).filter fun u => u.attr = r ∧ c u)
      = (((st.walks p d).filter fun w => c (w.triple r)).map (Walk.triple r) : List Triple) := by
  have hfacts : st.facts.filter (fun u => u.attr = r ∧ c u) = [] := by
    refine List.filter_eq_nil_iff.2 fun u hu heq => ?_
    exact h.attr_ne hu (of_decide_eq_true heq).1
  rw [proved, Multiset.filter_add, Multiset.filter_coe, Multiset.filter_coe, hfacts, List.filter_map]
  simp only [Function.comp_def, Walk.triple, true_and]
  exact zero_add _

theorem Closes.proved_succ (st : Store) (p r : Term) (d : Nat) : Closes.proved st p r (d + 1)
    = (st.facts : Multiset Triple) + ((st.steps p).map (Walk.triple r) : List Triple) + ((st.steps p).flatMap fun u =>
        ((st.walks p d).filter fun w => u.target = w.source).map fun w => ⟨u.source, r, w.target⟩ : List Triple) := by
  rw [proved, walks, List.map_append, List.map_flatMap, ← Multiset.coe_add, ← add_assoc]
  simp only [map_triple_append]

/-- **Proofs are paths**: besides its facts the store proves each path once, up to a length that is the depth. -/
theorem Closes.proves_proofs (h : st.Closes p r) (d : Nat) : Proves (st.proofs (d + 1)) (Closes.proved st p r d) := by
  induction d with
  | zero =>
    have hprove := h.proves_prove proves_zero
    rw [Multiset.filter_zero, Multiset.map_zero, Multiset.zero_bind, add_zero] at hprove
    exact hprove
  | succ d ih =>
    have hprove := h.proves_prove ih
    simp only [h.filter_proved, h.filter_proved_attr, Multiset.map_coe, List.map_map, Function.comp_def, Walk.triple,
      Multiset.coe_bind, List.flatMap_map] at hprove
    rw [Closes.proved_succ]
    exact hprove

end Store

end TripleStore
