import TripleStore.Proofs.Catalog.Constants
import TripleStore.Proofs.Database.Questions

/-!
# Whether a fact is stored

A query may ask whether a triple without variables holds (`Query.AsksWhether`): each of its answers is the row without
fields. Every copy of the triple among the facts of the store is an answer, and without rules nothing else is
(`Query.AsksWhether.count_le`, `Query.AsksWhether.exhausts`). The first answer comes unless a rule that is tried before
the fact keeps the search for its body from coming to an end (`Store.Passes`, `Query.AsksWhether.exists_first`).
-/

namespace TripleStore

open Resolution

variable {st : Store} {mode : Retrieval} {query : Query} {t u : Triple} {n : Nat}
  {call : Bindings → Nat → List Goal → Resolution (Bindings × Nat)}

theorem Query.AsksWhether.row?_eq (h : query.AsksWhether t) (s : Bindings) : query.row? s = some ⟨[]⟩ := by
  rw [row?, h.vars, Row.decode_eq_ok (by simp)]
  rfl

namespace Store

/-! ### The entries one by one -/

variable (n call) in
/-- A fact answers a pattern without variables if it is the pattern, and then once. -/
theorem resolveEntry_fact_of_isGround (ht : t.isGround = true) (hu : u.isGround = true) :
    ∃ s, resolveEntry call .empty n t answer (.fact u hu) = if u = t then answer (s, n) else .empty := by
  have hvalue (f : Nat → Term) : t.map (Term.subst f) = t :=
    Triple.map_of_isGround ht fun v hv => Term.subst_of_isGround hv f
  rw [resolveEntry_fact, resolveFact]
  rcases Bindings.unifyTriple_ground_cases Bindings.acyclic_empty t hu with ⟨s, hs, -, -, hreify⟩ | ⟨hnone, hne⟩
  · rw [funext s.reify_eq_subst, hvalue] at hreify
    exact ⟨s, by rw [hs, if_pos hreify.symm]⟩
  · have hut : u ≠ t := fun heq => hne .var (Bindings.respectedBy_empty .var) ((hvalue .var).trans heq.symm)
    exact ⟨.empty, by rw [hnone, if_neg hut]⟩

theorem fact_exhausted (ht : t.isGround = true) (hu : u.isGround = true) :
    (resolveEntry call .empty n t answer (.fact u hu)).stop = .exhausted := by
  obtain ⟨s, hs⟩ := resolveEntry_fact_of_isGround n call ht hu
  rw [hs]
  split <;> rfl

theorem length_answers_fact (ht : t.isGround = true) (hu : u.isGround = true) :
    (resolveEntry call .empty n t answer (.fact u hu)).answers.length = if u = t then 1 else 0 := by
  obtain ⟨s, hs⟩ := resolveEntry_fact_of_isGround n call ht hu
  rw [hs]
  split <;> rfl

/-- Each copy of the pattern among the facts is an answer. -/
theorem count_le_length_answers (ht : t.isGround = true) (entries : List Entry) :
    (entries.filterMap Entry.fact?).count t
      ≤ (entries.flatMap fun e => (resolveEntry call .empty n t answer e).answers).length := by
  induction entries with
  | nil => exact Nat.le_refl 0
  | cons e entries ih =>
    rw [List.flatMap_cons, List.length_append]
    cases e with
    | rule r =>
      rw [List.filterMap_cons_none (f := Entry.fact?) rfl]
      exact ih.trans (Nat.le_add_left _ _)
    | fact u hu =>
      rw [List.filterMap_cons_some (f := Entry.fact?) rfl, List.count_cons, length_answers_fact ht hu]
      simp only [beq_iff_eq]
      omega

/-- Without rules there are no other answers. -/
theorem length_answers_eq_count (ht : t.isGround = true) {entries : List Entry} (hfacts : ∀ r, .rule r ∉ entries) :
    (entries.flatMap fun e => (resolveEntry call .empty n t answer e).answers).length
      = (entries.filterMap Entry.fact?).count t := by
  induction entries with
  | nil => rfl
  | cons e entries ih =>
    have hrest := ih fun r hr => hfacts r (List.mem_cons_of_mem _ hr)
    rw [List.flatMap_cons, List.length_append, hrest]
    cases e with
    | rule r => exact absurd List.mem_cons_self (hfacts r)
    | fact u hu =>
      rw [List.filterMap_cons_some (f := Entry.fact?) rfl, List.count_cons, length_answers_fact ht hu]
      simp only [beq_iff_eq]
      omega

/-- The resolver tries the entries for the pattern, one after the other. -/
theorem resolve_pattern (st : Store) (mode : Retrieval) (d n : Nat) (t : Triple) :
    st.resolve mode (d + 1) .empty n [.pattern t]
      = .concat ((st.candidates mode .empty t).map (st.resolveAt (st.resolve mode d) .empty n t answer)) := rfl

theorem resolve_pattern_fullScan (st : Store) (d n : Nat) (t : Triple) :
    st.resolve .fullScan (d + 1) .empty n [.pattern t]
      = .concat (st.entries.toList.map (resolveEntry (st.resolve .fullScan d) .empty n t answer)) := by
  rw [resolve_pattern, map_resolveAt_candidates]

end Store

namespace Query.AsksWhether

/-! ### All answers -/

/-- The rows are those of the answers that the resolver finds, one for each. -/
theorem rows_eq (h : query.AsksWhether t) (hst : st.Reachable) {rows : List Row} :
    Step.Exhausts (Rows.step st mode query) (Rows.start query) rows ↔
      ∃ d, (st.resolve .fullScan d .empty 0 [.pattern t]).stop = .exhausted ∧
        rows = List.replicate (st.resolve .fullScan d .empty 0 [.pattern t]).answers.length ⟨[]⟩ := by
  rw [Rows.exhausts_iff_resolve hst (by simp [h.vars]), h.goals, h.scope]
  simp only [h.row?_eq, List.filterMap_eq_map', List.map_const']

/-- **Every copy of the fact is answered**, if the answers come to their end. -/
theorem count_le (h : query.AsksWhether t) (hst : st.Reachable) (ht : t.isGround = true) {rows : List Row}
    (hrows : Step.Exhausts (Rows.step st mode query) (Rows.start query) rows) : st.facts.count t ≤ rows.length := by
  obtain ⟨d, hstop, rfl⟩ := (h.rows_eq hst).1 hrows
  obtain ⟨d, rfl⟩ : ∃ k, d = k + 1 := by
    cases d with
    | zero => cases hstop
    | succ d => exact ⟨d, rfl⟩
  rw [Store.resolve_pattern_fullScan] at hstop ⊢
  rw [List.length_replicate, answers_concat hstop, List.flatMap_map]
  exact Store.count_le_length_answers ht _

/-- **Without rules there is one answer for each copy of the fact.** -/
theorem exhausts (h : query.AsksWhether t) (hst : st.Reachable) (ht : t.isGround = true)
    (hfacts : ∀ r, .rule r ∉ st.entries) (mode : Retrieval) :
    Step.Exhausts (Rows.step st mode query) (Rows.start query) (List.replicate (st.facts.count t) ⟨[]⟩) := by
  have hrules : ∀ r, .rule r ∉ st.entries.toList := fun r hr => hfacts r (Array.mem_toList_iff.1 hr)
  have hstop : (st.resolve .fullScan 1 .empty 0 [.pattern t]).stop = .exhausted := by
    rw [Store.resolve_pattern_fullScan]
    refine concat_exhausted_iff.2 (List.forall_mem_map.2 fun e he => ?_)
    cases e with
    | fact u hu => exact Store.fact_exhausted ht hu
    | rule r => exact absurd he (hrules r)
  refine (h.rows_eq hst).2 ⟨1, hstop, ?_⟩
  rw [Store.resolve_pattern_fullScan] at hstop ⊢
  rw [answers_concat hstop, List.flatMap_map, Store.length_answers_eq_count ht hrules, Store.facts]

end Query.AsksWhether

/-! ### The first answer -/

/-- What comes after resolutions that are exhausted is reached. -/
theorem Resolution.answers_concat_ne_nil {α : Type} {As Bs : List (Resolution α)} {A : Resolution α}
    (hAs : ∀ B ∈ As, B.stop = .exhausted) (hA : A.answers ≠ []) : (concat (As ++ A :: Bs)).answers ≠ [] := by
  induction As with
  | nil =>
    show (A.andThen (concat Bs)).answers ≠ []
    rw [andThen]
    split
    · exact List.append_ne_nil_of_left_ne_nil hA _
    · exact hA
  | cons B As ih =>
    obtain ⟨hB, hAs⟩ := List.forall_mem_cons.1 hAs
    show (B.andThen (concat (As ++ A :: Bs))).answers ≠ []
    rw [andThen_of_exhausted hB]
    exact List.append_ne_nil_of_right_ne_nil _ (ih hAs)

namespace Store

/-- A rule lets what is tried after it be reached: it does not match the pattern, or the search for its body comes to
its end without an error. -/
def Passes (st : Store) (mode : Retrieval) (t : Triple) (r : Rule) : Prop :=
  ∀ s, Bindings.empty.unifyTriple t (r.headAt 0) = some s →
    ∃ ss, Step.Exhausts (Search.step st mode) (Search.start s (r.bodyAt 0) r.varCount) ss

theorem Passes.exhausted {r : Rule} (h : st.Passes mode t r) (ht : t.isGround = true) :
    ∃ bound, ∀ d, bound ≤ d → (resolveEntry (st.resolve mode d) .empty 0 t answer (.rule r)).stop = .exhausted := by
  cases hu : Bindings.empty.unifyTriple t (r.headAt 0) with
  | none =>
    refine ⟨0, fun d _ => ?_⟩
    rw [resolveEntry, Entry.headAt, hu]
    rfl
  | some s =>
    obtain ⟨ss, hss⟩ := h s hu
    have hfresh : Search.Fresh 0 (Bindings.empty, [.pattern t]) := ⟨Bindings.acyclic_empty, Bindings.below_empty 0,
      fun g hg => List.mem_singleton.1 hg ▸ Triple.below_of_isGround ht 0⟩
    have hbody : Search.Fresh (0 + r.varCount) (s, r.bodyAt 0 ++ []) := hfresh.enter (e := .rule r) hu
    rw [Nat.zero_add, List.append_nil] at hbody
    obtain ⟨bound, hbound⟩ := Search.exists_exhausted hbody.acyclic hbody.bindings hbody.goals hss
    refine ⟨bound, fun d hd => ?_⟩
    rw [resolveEntry, Entry.headAt, hu]
    dsimp only
    rw [bind_answer, Nat.zero_add, resolve_eq_of_exhausted hbound hd, hbound]

/-- The resolver finds an answer if every rule before a copy of the fact lets it be reached. -/
theorem exists_answer_of_fact (hst : st.Reachable) {ht : t.isGround = true} {p : Nat}
    (hp : st.get? p = some (.fact t ht)) (hbefore : ∀ q < p, ∀ r, st.get? q = some (.rule r) → st.Passes mode t r) :
    ∃ d, (st.resolve mode d .empty 0 [.pattern t]).answers ≠ [] := by
  have hsame : t.map (Term.subst .var) = ((Entry.fact t ht).headAt 0).map (Term.subst .var) := rfl
  have hmem : p ∈ st.candidates mode .empty t :=
    hst.mem_candidates mode (Bindings.respectedBy_empty .var) hp hsame
  obtain ⟨qs, qs', hsplit⟩ := List.append_of_mem hmem
  have hascending := hst.pairwise_candidates mode .empty t
  rw [hsplit, List.pairwise_append] at hascending
  have hearlier : ∀ q ∈ qs, ∃ bound, ∀ d, bound ≤ d →
      (st.resolveAt (st.resolve mode d) .empty 0 t answer q).stop = .exhausted := by
    intro q hq
    have hlt : q < p := hascending.2.2 q hq p List.mem_cons_self
    simp only [resolveAt]
    cases he : st.get? q with
    | none => exact ⟨0, fun _ _ => rfl⟩
    | some e =>
      cases e with
      | fact u hu => exact ⟨0, fun _ _ => fact_exhausted ht hu⟩
      | rule r => exact (hbefore q hlt r he).exhausted ht
  obtain ⟨d, hd⟩ := exists_bound_of_forall_mem hearlier
  refine ⟨d + 1, ?_⟩
  rw [resolve_pattern, hsplit, List.map_append, List.map_cons]
  refine answers_concat_ne_nil (List.forall_mem_map.2 (hd d (Nat.le_refl d))) ?_
  rw [resolveAt, hp, ← List.length_pos_iff]
  dsimp only
  rw [length_answers_fact ht ht, if_pos rfl]
  exact Nat.one_pos

end Store

/-- **The fact is answered** if every rule before a copy of it lets it be reached. -/
theorem Query.AsksWhether.exists_first (h : query.AsksWhether t) (hst : st.Reachable) {ht : t.isGround = true} {p : Nat}
    (hp : st.get? p = some (.fact t ht)) (hbefore : ∀ q < p, ∀ r, st.get? q = some (.rule r) → st.Passes mode t r) :
    ∃ k rest, Step.results (Rows.step st mode query) k (Rows.start query) = .answer ⟨[]⟩ :: rest := by
  obtain ⟨d, hd⟩ := Store.exists_answer_of_fact hst hp hbefore
  have hrealizes : Search.Realizes st mode query.scope d _ _ [] :=
    Search.realizes_start Bindings.acyclic_empty (Bindings.below_empty _) query.inScope d
  obtain ⟨k, hitems, -⟩ := hrealizes
  rw [h.goals, h.scope] at hitems
  rw [Resolution.items] at hitems
  cases hanswers : (st.resolve mode d .empty 0 [.pattern t]).answers with
  | nil => exact absurd hanswers hd
  | cons a as =>
    rw [hanswers, List.map_cons, List.cons_append, List.forall₂_cons_left_iff] at hitems
    obtain ⟨r, rs, hsame, -, hresults⟩ := hitems
    cases hsame
    refine ⟨k, rs.filterMap query.pulledRow?, ?_⟩
    rw [Rows.results_rows st mode query k (Rows.steady_start query), Rows.start, h.goals, h.scope, hresults,
      List.filterMap_cons, Query.pulledRow?, h.row?_eq]
    rfl

end TripleStore
