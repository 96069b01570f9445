import TripleStore.Proofs.Search.Freshness
import TripleStore.Proofs.Search.Resolver
import TripleStore.Proofs.Store.Ways

/-!
# How often the resolver finds an answer

A resolution that is exhausted finds each answer as often as there are ways to meet the goals that lead to it
(`Store.counts_resolve`). What an answer is, is said without its bindings: it is the set of the assignments that respect
them, up to the values of variables that are of no interest (`Bindings.meaning`). The goals are met in some of the ways
that `Goal.waysAll` counts, those that are possible together with the bindings at hand (`possible`), and each of these
gives one answer, whose meaning is what the bindings at hand and the way have in common.
-/

namespace TripleStore

open Term

variable {st : Store} {s s' : Bindings} {m n : Nat} {W X : Set (Nat → Term)} {M N : Multiset (Set (Nat → Term))}
  {P : Multiset (Set Triple)}

/-! ### Possible ways -/

open Classical in
/-- What each of some ways has in common with the assignments at hand, if it has anything. -/
noncomputable def possible (W : Set (Nat → Term)) (M : Multiset (Set (Nat → Term))) : Multiset (Set (Nat → Term)) :=
  (M.map (W ∩ ·)).filter Set.Nonempty

theorem possible_empty (M : Multiset (Set (Nat → Term))) : possible ∅ M = 0 := by
  classical
  refine Multiset.filter_eq_nil.2 fun X hX => ?_
  obtain ⟨Y, -, rfl⟩ := Multiset.mem_map.1 hX
  rw [Set.empty_inter]
  exact Set.not_nonempty_empty

theorem possible_univ (hW : W.Nonempty) : possible W {Set.univ} = {W} := by
  rw [possible, Multiset.map_singleton, Set.inter_univ, Multiset.filter_singleton, if_pos hW]

theorem possible_univ_eq_ite {c : Prop} [Decidable c] (hW : W.Nonempty ↔ c) :
    possible W {Set.univ} = if c then {W} else 0 := by
  split
  · rename_i hc
    exact possible_univ (hW.2 hc)
  · rename_i hc
    rw [Set.not_nonempty_iff_eq_empty.1 fun h => hc (hW.1 h), possible_empty]

theorem possible_waysBoth (W : Set (Nat → Term)) (M N : Multiset (Set (Nat → Term))) :
    possible W (waysBoth M N) = M.bind fun X => possible (W ∩ X) N := by
  simp only [possible, waysBoth, Multiset.map_bind, Multiset.filter_bind, Multiset.map_map, Function.comp_def,
    Set.inter_assoc]

/-- Going on from the possible ways is going on from all ways, where nothing comes from nothing. -/
theorem possible_bind {f : Set (Nat → Term) → Multiset (Set (Nat → Term))} (hf : f ∅ = 0) :
    (possible W M).bind f = M.bind fun X => f (W ∩ X) := by
  rw [possible, Multiset.bind_filter, Multiset.bind_map]
  refine Multiset.bind_congr fun X _ => ?_
  split
  · rfl
  · rename_i h
    rw [Set.not_nonempty_iff_eq_empty.1 h, hf]

/-! ### What bindings mean -/

/-- The assignments that agree with one of the set about the variables below `m`. -/
def upTo (m : Nat) (X : Set (Nat → Term)) : Set (Nat → Term) := {τ | ∃ τ' ∈ X, ∀ v < m, τ' v = τ v}

theorem upTo_empty (m : Nat) : upTo m ∅ = ∅ := by
  ext τ
  simp [upTo]

theorem upTo_upTo (hmn : m ≤ n) (X : Set (Nat → Term)) : upTo m (upTo n X) = upTo m X := by
  ext τ
  constructor
  · rintro ⟨τ₁, ⟨τ₂, hX, h₂⟩, h₁⟩
    exact ⟨τ₂, hX, fun v hv => (h₂ v (by omega)).trans (h₁ v hv)⟩
  · rintro ⟨τ₁, hX, h₁⟩
    exact ⟨τ₁, ⟨τ₁, hX, fun _ _ => rfl⟩, h₁⟩

namespace Bindings

/-- What bindings say about the variables below `m`: the assignments that respect them, with any values for the other
variables. -/
def meaning (m : Nat) (s : Bindings) : Set (Nat → Term) := upTo m {τ | s.RespectedBy τ}

theorem meaning_nonempty (hs : s.Acyclic) (m : Nat) : (s.meaning m).Nonempty :=
  ⟨s.value, s.value, hs.respectedBy_value, fun _ _ => rfl⟩

/-- No bindings allow all assignments. -/
theorem meaning_empty (m : Nat) : empty.meaning m = Set.univ :=
  Set.eq_univ_of_forall fun τ => ⟨τ, respectedBy_empty τ, fun _ _ => rfl⟩

theorem upTo_meaning (hmn : m ≤ n) (s : Bindings) : upTo m (s.meaning n) = s.meaning m := upTo_upTo hmn _

/-- Bindings of one meaning give variables the same ground values. -/
theorem resolve?_eq_of_meaning_eq (hs : s.Acyclic) (h : s.meaning m = s'.meaning m) {v : Nat} (hv : v < m) {t : Term}
    (ht : s'.resolve? v = some t) : s.resolve? v = some t := by
  obtain ⟨τ, hτ, heq⟩ : s.value ∈ s'.meaning m := h ▸ ⟨s.value, hs.respectedBy_value, fun _ _ => rfl⟩
  unfold resolve? at ht ⊢
  dsimp only at ht ⊢
  split at ht
  · rename_i hground
    cases ht
    have hvalue : s.reify (.var v) = s'.reify (.var v) := by
      rw [← subst_of_isGround hground τ, RespectedBy.subst_reify hτ]
      exact (heq v hv).symm
    rw [hvalue, if_pos hground]
  · cases ht

end Bindings

/-- A check that is decided is decided for all assignments that the bindings allow. -/
theorem meaning_inter_holds {c : Check} (hc : (Goal.check c).Below m) {b : Bool} (h : c.run s = .ok b) :
    s.meaning m ∩ {τ | c.Holds τ} = if b = true then s.meaning m else ∅ := by
  have hholds : ∀ τ ∈ s.meaning m, b = true ↔ c.Holds τ := by
    rintro τ ⟨τ', hrespects, heq⟩
    exact (Check.run_iff h hrespects).trans (Check.holds_congr fun v hv => heq v (hc v hv))
  split
  · rename_i hb
    exact Set.inter_eq_left.2 fun τ hτ => (hholds τ hτ).1 hb
  · rename_i hb
    refine Set.eq_empty_of_forall_notMem fun τ hτ => hb ?_
    exact (hholds τ hτ.1).2 hτ.2

/-! ### One use of an entry -/

/-- The assignment `τ`, with the values of `σ` from `n` on. -/
def patch (n : Nat) (τ σ : Nat → Term) (v : Nat) : Term := if v < n then τ v else σ (v - n)

theorem patch_of_lt {τ σ : Nat → Term} {v : Nat} (hv : v < n) : patch n τ σ v = τ v := if_pos hv

theorem patch_add (n : Nat) (τ σ : Nat → Term) (v : Nat) : patch n τ σ (v + n) = σ v := by
  rw [patch, if_neg (by omega), Nat.add_sub_cancel]

/-- The value of the head of an entry, wherever its variables are. -/
theorem Entry.map_headAt_patch (e : Entry) (n : Nat) (τ σ : Nat → Term) :
    (e.headAt n).map (subst (patch n τ σ)) = e.head.map (subst σ) := by
  rw [headAt_eq_shift, Triple.subst_shift]
  simp only [patch_add]

variable {t : Triple} {e : Entry}

/-- Where an assignment is one of those that the bindings allow and under which the entry proves the pattern, it can be
changed, from `n` on, into one that respects the bindings and makes the pattern equal to the head. -/
theorem exists_respectedBy_of_proves (hbelow : s.Below n) (ht : t.Below m) (hmn : m ≤ n) {τ : Nat → Term}
    (hτ : τ ∈ s.meaning m) (hproves : t.map (subst τ) ∈ e.proves X) :
    ∃ τ' σ, σ ∈ X ∧ s.RespectedBy (patch n τ' σ) ∧ (∀ v < m, patch n τ' σ v = τ v) ∧
      t.map (subst (patch n τ' σ)) = (e.headAt n).map (subst (patch n τ' σ)) := by
  obtain ⟨τ', hrespects, heq⟩ := hτ
  obtain ⟨σ, hσ, hhead⟩ := hproves
  have hagree : ∀ v < m, patch n τ' σ v = τ v := fun v hv => by rw [patch_of_lt (by omega), heq v hv]
  refine ⟨τ', σ, hσ, Bindings.RespectedBy.congr hrespects hbelow fun v hv => patch_of_lt hv, hagree, ?_⟩
  rw [e.map_headAt_patch, hhead]
  exact Triple.map_subst_congr fun v hv => hagree v (ht v hv)

/-- Where the pattern does not unify with the head, the entry does not prove what the bindings allow. -/
theorem meaning_inter_proves_of_none (hs : s.Acyclic) (hbelow : s.Below n) (ht : t.Below m) (hmn : m ≤ n)
    (hu : s.unifyTriple t (e.headAt n) = none) (X : Set (Nat → Term)) :
    s.meaning m ∩ {τ | t.map (subst τ) ∈ e.proves X} = ∅ := by
  refine Set.eq_empty_of_forall_notMem fun τ ⟨hτ, hproves⟩ => ?_
  obtain ⟨τ', σ, -, hrespects, -, hequal⟩ := exists_respectedBy_of_proves hbelow ht hmn hτ hproves
  exact Bindings.not_equal_of_unifyTriple_eq_none hs hu hrespects hequal

/-- **What the bindings mean after an entry has been used**: what they meant before, so far as the entry proves the
pattern. The way `X` in which the body is met is one for the renamed body here. -/
theorem upTo_meaning_inter (hs : s.Acyclic) (hbelow : s.Below n) (ht : t.Below m) (hmn : m ≤ n)
    (hu : s.unifyTriple t (e.headAt n) = some s') (X : Set (Nat → Term)) :
    upTo m (s'.meaning (n + e.varCount) ∩ Set.preimage (fun τ v => τ (v + n)) X)
      = s.meaning m ∩ {τ | t.map (subst τ) ∈ e.proves X} := by
  have hunified := Bindings.respectedBy_iff_of_unifyTriple hs hu
  ext τ
  constructor
  · rintro ⟨τ₁, ⟨⟨τ₂, hrespects', h₂⟩, hX⟩, h₁⟩
    obtain ⟨hrespects, hequal⟩ := (hunified τ₂).1 hrespects'
    have hagree : ∀ v < m, τ₂ v = τ v := fun v hv => (h₂ v (by omega)).trans (h₁ v hv)
    refine ⟨⟨τ₂, hrespects, hagree⟩, _, hX, ?_⟩
    have hhead : (e.headAt n).map (subst τ₁) = (e.headAt n).map (subst τ₂) :=
      Triple.map_subst_congr fun v hv => (h₂ v (e.headAt_below n v hv)).symm
    rw [← Triple.subst_shift, ← Entry.headAt_eq_shift, hhead, ← hequal]
    exact Triple.map_subst_congr fun v hv => hagree v (ht v hv)
  · rintro ⟨hτ, hproves⟩
    obtain ⟨τ', σ, hσ, hrespects, hagree, hequal⟩ := exists_respectedBy_of_proves hbelow ht hmn hτ hproves
    have hrespects' : s'.RespectedBy (patch n τ' σ) := (hunified _).2 ⟨hrespects, hequal⟩
    have hσ' : (fun v => patch n τ' σ (v + n)) ∈ X := by
      simp only [patch_add]
      exact hσ
    exact ⟨patch n τ' σ, ⟨⟨_, hrespects', fun _ _ => rfl⟩, hσ'⟩, hagree⟩

/-! ### Counting answers -/

/-- The answers are fresh at numbers from `n` on, and their meanings below `m` are the given sets, each equally
often. -/
structure Counts (m n : Nat) (M : Multiset (Set (Nat → Term))) (answers : List (Bindings × Nat)) : Prop where
  fresh : ∀ a ∈ answers, n ≤ a.2 ∧ Search.Fresh a.2 (a.1, [])
  meanings : (answers : Multiset (Bindings × Nat)).map (fun a => a.1.meaning m) = M

theorem counts_nil (m n : Nat) : Counts m n 0 [] := ⟨fun _ ha => absurd ha List.not_mem_nil, rfl⟩

theorem Counts.mono {answers : List (Bindings × Nat)} (h : Counts m n M answers) {k : Nat} (hk : k ≤ n) :
    Counts m k M answers :=
  ⟨fun a ha => ⟨hk.trans (h.fresh a ha).1, (h.fresh a ha).2⟩, h.meanings⟩

theorem Counts.flatMap {β : Type} {f : β → List (Bindings × Nat)} {F : β → Multiset (Set (Nat → Term))} {bs : List β}
    (h : ∀ b ∈ bs, Counts m n (F b) (f b)) : Counts m n ((bs : Multiset β).bind F) (bs.flatMap f) where
  fresh a ha := by
    obtain ⟨b, hb, ha⟩ := List.mem_flatMap.1 ha
    exact (h b hb).fresh a ha
  meanings := by
    rw [← Multiset.coe_bind, Multiset.map_bind]
    exact Multiset.bind_congr fun b hb => (h b hb).meanings

namespace Store

variable {call : Bindings → Nat → List Goal → Resolution (Bindings × Nat)}
  {rest : Bindings × Nat → Resolution (Bindings × Nat)}

/-- What resolves goals finds answers for the ways to meet them, with `P` for the proofs of triples. -/
def CountsCalls (P : Multiset (Set Triple)) (call : Bindings → Nat → List Goal → Resolution (Bindings × Nat)) : Prop :=
  ∀ s n goals, Search.Fresh n (s, goals) → (call s n goals).stop = .exhausted →
    Counts n n (possible (s.meaning n) (Goal.waysAll P goals)) (call s n goals).answers

/-- What goes on from answers finds others, for the ways `N` to meet the goals that come after. -/
def CountsRest (m n : Nat) (N : Multiset (Set (Nat → Term))) (rest : Bindings × Nat → Resolution (Bindings × Nat)) :
    Prop :=
  ∀ a : Bindings × Nat, n ≤ a.2 → Search.Fresh a.2 (a.1, []) → (rest a).stop = .exhausted →
    Counts m a.2 (possible (a.1.meaning m) N) (rest a).answers

/-- Going on from the answers of a body. -/
theorem counts_bind {A : Resolution (Bindings × Nat)} (hA : Counts n n M A.answers) (hmn : m ≤ n)
    (hrest : CountsRest m n N rest) (h : (A.bind rest).stop = .exhausted) :
    Counts m n (M.bind fun X => possible (upTo m X) N) (A.bind rest).answers := by
  have hstop := Resolution.exhausted_of_bind h
  rw [Resolution.bind_eq_concat hstop] at h ⊢
  rw [Resolution.answers_concat h, List.flatMap_map]
  have hcounts : Counts m n ((A.answers : Multiset (Bindings × Nat)).bind fun a => possible (a.1.meaning m) N)
      (A.answers.flatMap fun a => (rest a).answers) := by
    refine .flatMap fun a ha => ?_
    obtain ⟨hle, hfresh⟩ := hA.fresh a ha
    have ha' : (rest a).stop = .exhausted := Resolution.concat_exhausted_iff.1 h _ (List.mem_map_of_mem ha)
    exact (hrest a hle hfresh ha').mono hle
  rw [← hA.meanings, Multiset.bind_map]
  simpa only [Bindings.upTo_meaning hmn] using hcounts

/-- **An entry gives an answer for each way to meet its body** and the goals that come after. -/
theorem counts_resolveEntry (hcall : CountsCalls P call) (hfresh : Search.Fresh n (s, [.pattern t])) (ht : t.Below m)
    (hmn : m ≤ n) (hrest : CountsRest m n N rest) (h : (resolveEntry call s n t rest e).stop = .exhausted) :
    Counts m n ((Goal.waysAll P e.body).bind fun X =>
      possible (s.meaning m ∩ {τ | t.map (subst τ) ∈ e.proves X}) N) (resolveEntry call s n t rest e).answers := by
  rw [resolveEntry] at h ⊢
  cases hu : s.unifyTriple t (e.headAt n) with
  | none =>
    simp only [meaning_inter_proves_of_none hfresh.acyclic hfresh.bindings ht hmn hu, possible_empty,
      Multiset.bind_zero]
    exact counts_nil m n
  | some s' =>
    have henter := hfresh.enter hu
    rw [List.append_nil] at henter
    have hle := Nat.le_add_right n e.varCount
    simp only [← upTo_meaning_inter hfresh.acyclic hfresh.bindings ht hmn hu]
    rw [hu] at h
    cases e with
    | fact u ground =>
      have hcounts := hrest (s', n) le_rfl henter h
      simpa [Entry.body, Entry.varCount, Bindings.upTo_meaning hmn] using hcounts
    | rule r =>
      have hbody := hcall s' (n + r.varCount) (r.bodyAt n) henter (Resolution.exhausted_of_bind h)
      have hcounts := counts_bind hbody (hmn.trans hle) (fun a ha => hrest a (hle.trans ha)) h
      have hways : Goal.waysAll P (r.bodyAt n)
          = (Goal.waysAll P r.body).map (Set.preimage fun τ v => τ (v + n)) := Goal.waysAll_shift n r.body
      rw [possible_bind (by rw [upTo_empty, possible_empty]), hways, Multiset.bind_map] at hcounts
      exact hcounts.mono hle

/-- **Goals are met in all ways that are possible** together with the bindings. -/
theorem counts_resolveGoals (hcall : CountsCalls P call) : ∀ (goals : List Goal) (a : Bindings × Nat),
    Search.Fresh a.2 (a.1, []) → m ≤ a.2 → (∀ g ∈ goals, g.Below m) →
      (st.resolveGoals .fullScan call goals a).stop = .exhausted →
        Counts m a.2 (possible (a.1.meaning m) (Goal.waysAll (st.prove P) goals))
          (st.resolveGoals .fullScan call goals a).answers := by
  intro goals
  induction goals with
  | nil =>
    intro a hfresh _ _ _
    rw [Goal.waysAll_nil, possible_univ (Bindings.meaning_nonempty hfresh.acyclic m)]
    exact ⟨List.forall_mem_singleton.2 ⟨le_rfl, hfresh⟩, rfl⟩
  | cons g goals ih =>
    rintro ⟨s, n⟩ hfresh hmn hbelow h
    obtain ⟨hg, hgoals⟩ := List.forall_mem_cons.1 hbelow
    rw [Goal.waysAll_cons, possible_waysBoth]
    cases g with
    | check c =>
      rw [Goal.ways, Multiset.singleton_bind]
      rw [resolveGoals] at h ⊢
      cases hc : c.run s with
      | error e =>
        rw [hc] at h
        cases h
      | ok b =>
        rw [hc] at h
        rw [meaning_inter_holds hg hc]
        cases b with
        | true => exact ih (s, n) hfresh hmn hgoals h
        | false =>
          rw [if_neg Bool.false_ne_true, possible_empty]
          exact counts_nil m n
    | pattern t =>
      rw [resolveGoals, map_resolveAt_candidates] at h ⊢
      rw [Resolution.answers_concat h, List.flatMap_map, Goal.ways, prove]
      simp only [Multiset.bind_assoc, Multiset.bind_map]
      have hpattern : Search.Fresh n (s, [.pattern t]) :=
        ⟨hfresh.acyclic, hfresh.bindings, List.forall_mem_singleton.2 (hg.mono hmn)⟩
      refine .flatMap fun e he => counts_resolveEntry hcall hpattern hg hmn (fun a ha hfresh' hstop => ?_) ?_
      · exact ih a hfresh' (hmn.trans ha) hgoals hstop
      · exact Resolution.concat_exhausted_iff.1 h _ (List.mem_map_of_mem he)

/-- **The resolver finds an answer for each possible way to meet the goals**, when it is exhausted. -/
theorem counts_resolve (st : Store) (d : Nat) : CountsCalls (st.proofs d) (st.resolve .fullScan d) := by
  induction d with
  | zero => exact fun _ _ _ _ h => by cases h
  | succ d ih =>
    intro s n goals hfresh h
    exact counts_resolveGoals ih goals (s, n) ⟨hfresh.acyclic, hfresh.bindings, by simp⟩ le_rfl hfresh.goals h

end Store

end TripleStore
