import TripleStore.Proofs.Search.Words

/-!
# Completeness

A search that comes to its end without an error has lost nothing: for every assignment under which its
goals hold there is an answer that allows it (`exists_answer_of_holds`). Until that answer is given, or
an error is met, the search owes it (`Owes`): the pending goals hold under an assignment that gives the
variables of the query the same values, or the goals behind an open choice do and one of its untried
candidates is the entry from which the value of its pattern is derived. Such an entry cannot fail to match,
as unification is most general and its variables are fresh. In words they are fresh as long as no sum leaves the words
(**`exists_answer_in_words`**); beyond, the answer may be lost.
-/

namespace TripleStore.Search

open Term

variable {st : Store} {mode : Retrieval} {n₀ n : Nat} {τ₀ τ τ' : Nat → Term}

/-- The goals of the task hold under an assignment of ground terms that respects its bindings and gives the
variables below `n₀` the values that `τ₀` gives them. -/
structure Met (st : Store) (n₀ : Nat) (τ₀ τ : Nat → Term) (task : Bindings × List Goal) : Prop where
  grounding : Grounding τ
  agrees : ∀ v < n₀, τ v = τ₀ v
  respects : task.1.RespectedBy τ
  holds : ∀ g ∈ task.2, g.Holds st.Derivable τ

/-- The goals behind a choice can be met, and one of its candidates derives the value of the pattern. -/
def Promises (st : Store) (n₀ : Nat) (τ₀ : Nat → Term) (choice : Choice) : Prop :=
  ∃ τ, Met st n₀ τ₀ τ (choice.bindings, choice.rest) ∧
    ∃ p ∈ choice.candidates, st.Supports p (choice.pattern.map (subst τ))

/-- An answer that allows the assignment is still to come. -/
def Owes (st : Store) (n₀ : Nat) (τ₀ : Nat → Term) (search : Search) : Prop :=
  (∃ task, search.pending = some task ∧ ∃ τ, Met st n₀ τ₀ τ task) ∨
    ∃ choice ∈ search.choices, Promises st n₀ τ₀ choice

/-- Values of variables that occur nowhere in a task may be chosen anew. -/
theorem Met.congr {task : Bindings × List Goal} (h : Met st n₀ τ₀ τ task) (hfresh : Fresh n task) (hn : n₀ ≤ n)
    (hτ' : Grounding τ') (heq : ∀ v < n, τ' v = τ v) : Met st n₀ τ₀ τ' task where
  grounding := hτ'
  agrees v hv := (heq v (by omega)).trans (h.agrees v hv)
  respects := h.respects.congr hfresh.bindings heq
  holds g hg := (Goal.holds_congr fun v hv => heq v (hfresh.goals g hg v hv)).2 (h.holds g hg)

theorem Met.tail {s : Bindings} {g : Goal} {rest : List Goal} (h : Met st n₀ τ₀ τ (s, g :: rest)) :
    Met st n₀ τ₀ τ (s, rest) :=
  ⟨h.grounding, h.agrees, h.respects, (List.forall_mem_cons.1 h.holds).2⟩

/-- Where an entry supports the value of a pattern, its variables can be given values under which its head is
that of the pattern and its body holds, and the remaining goals still do. -/
theorem Met.use {s : Bindings} {t : Triple} {rest : List Goal} {p : Nat} {e : Entry}
    (h : Met st n₀ τ₀ τ (s, rest)) (hfresh : Fresh n (s, .pattern t :: rest)) (hn : n₀ ≤ n)
    (hp : st.get? p = some e) (hsupports : st.Supports p (t.map (subst τ))) :
    ∃ τ', Met st n₀ τ₀ τ' (s, rest) ∧ t.map (subst τ') = (e.headAt n).map (subst τ') ∧
      ∀ g ∈ e.bodyAt n, g.Holds st.Derivable τ' := by
  obtain ⟨ht, hrest⟩ := List.forall_mem_cons.1 hfresh.goals
  obtain ⟨e', hp', huse⟩ := hsupports
  rw [hp] at hp'
  cases hp'
  obtain ⟨τ', hτ', heq, hhead, hbody⟩ := huse n τ h.grounding
  -- the variables of the entry are new, so all others keep their values
  have heq' : ∀ v < n, τ' v = τ v := fun v hv => heq v (.inl hv)
  refine ⟨τ', h.congr ⟨hfresh.acyclic, hfresh.bindings, hrest⟩ hn hτ' heq', ?_, hbody⟩
  rw [hhead]
  exact Triple.map_subst_congr fun v hv => heq' v (ht v hv)

/-- A choice between all candidates of a pattern has what the pattern and the goals after it need. -/
theorem Met.promises (hst : st.Reachable) {s : Bindings} {t : Triple} {rest : List Goal}
    (h : Met st n₀ τ₀ τ (s, .pattern t :: rest)) (hfresh : Fresh n (s, .pattern t :: rest)) (hn : n₀ ≤ n) :
    Promises st n₀ τ₀ ⟨s, t, rest, st.candidates mode s t⟩ := by
  have hderivable : st.Derivable (t.map (subst τ)) := h.holds _ List.mem_cons_self
  obtain ⟨p, hsupports⟩ := hderivable.exists_supports
  refine ⟨τ, h.tail, p, ?_, hsupports⟩
  have ⟨e, hp, _⟩ := hsupports
  obtain ⟨τ', hmet, hequal, -⟩ := h.tail.use hfresh hn hp hsupports
  exact hst.mem_candidates mode hmet.respects hp hequal

/-- A candidate that supports the value of the pattern matches, and its body and the remaining goals can be
met. -/
theorem Met.enter {s : Bindings} {t : Triple} {rest : List Goal} {p : Nat} {e : Entry}
    (h : Met st n₀ τ₀ τ (s, rest)) (hfresh : Fresh n (s, .pattern t :: rest)) (hn : n₀ ≤ n)
    (hp : st.get? p = some e) (hsupports : st.Supports p (t.map (subst τ))) :
    ∃ s' τ', s.unifyTriple t (e.headAt n) = some s' ∧ Met st n₀ τ₀ τ' (s', e.bodyAt n ++ rest) := by
  obtain ⟨τ', hmet, hequal, hbody⟩ := h.use hfresh hn hp hsupports
  cases hu : s.unifyTriple t (e.headAt n) with
  | none => exact absurd hequal (Bindings.not_equal_of_unifyTriple_eq_none hfresh.acyclic hu hmet.respects)
  | some s' =>
    refine ⟨s', τ', rfl, hmet.grounding, hmet.agrees, ?_, List.forall_mem_append.2 ⟨hbody, hmet.holds⟩⟩
    exact (Bindings.respectedBy_iff_of_unifyTriple hfresh.acyclic hu τ').2 ⟨hmet.respects, hequal⟩

/-- The next candidate of a choice is the one that was promised, or the choice still promises it. -/
theorem Promises.next {s : Bindings} {t : Triple} {rest : List Goal} {p : Nat} {ps : List Nat}
    (h : Promises st n₀ τ₀ ⟨s, t, rest, p :: ps⟩) :
    (∃ τ, Met st n₀ τ₀ τ (s, rest) ∧ st.Supports p (t.map (subst τ))) ∨ Promises st n₀ τ₀ ⟨s, t, rest, ps⟩ := by
  obtain ⟨τ, hmet, q, hq, hsupports⟩ := h
  rcases List.mem_cons.1 hq with rfl | hq
  · exact .inl ⟨τ, hmet, hsupports⟩
  · exact .inr ⟨τ, hmet, q, hq, hsupports⟩

/-- Every step of a search that owes an answer gives it, is an error, or leaves it owed. -/
theorem Owes.step (hst : st.Reachable) (mode : Retrieval) {search : Search} (h : Owes st n₀ τ₀ search)
    (hfresh : ∀ task ∈ search.tasks, Fresh search.nextVar task) (hn : n₀ ≤ search.nextVar) :
    (∃ s, (search.step st mode).progress = .answer s ∧ ∃ τ, Met st n₀ τ₀ τ (s, [])) ∨
      (∃ e, (search.step st mode).progress = .error e) ∨
        (search.step st mode).progress ≠ .done ∧ Owes st n₀ τ₀ (search.step st mode).next := by
  have ht := transition_step st mode search
  generalize search.step st mode = taken at ht ⊢
  cases ht with
  | answer n s choices =>
    rcases h with ⟨_, hpending, hmet⟩ | h
    · cases hpending
      exact .inl ⟨s, rfl, hmet⟩
    · exact .inr (.inr ⟨by simp, .inr h⟩)
  | pass n rest choices _ =>
    refine .inr (.inr ⟨by simp, ?_⟩)
    rcases h with ⟨_, hpending, τ, hmet⟩ | h
    · cases hpending
      exact .inl ⟨_, rfl, τ, hmet.tail⟩
    · exact .inr h
  | fail n rest choices hc =>
    refine .inr (.inr ⟨by simp, ?_⟩)
    rcases h with ⟨_, hpending, τ, hmet⟩ | h
    · cases hpending
      cases (Check.run_iff hc hmet.respects).2 (hmet.holds _ List.mem_cons_self)
    · exact .inr h
  | raise => exact .inr (.inl ⟨_, rfl⟩)
  | select n s t rest choices =>
    refine .inr (.inr ⟨by simp, .inr ((List.exists_mem_cons_iff _ _ _).2 ?_)⟩)
    rcases h with ⟨_, hpending, τ, hmet⟩ | h
    · cases hpending
      exact .inl (hmet.promises hst (hfresh _ List.mem_cons_self) hn)
    · exact .inr h
  | done n =>
    rcases h with ⟨_, hpending, _⟩ | ⟨_, hchoice, _⟩
    · cases hpending
    · cases hchoice
  | close n s t rest choices =>
    rcases h with ⟨_, hpending, _⟩ | h
    · cases hpending
    rcases (List.exists_mem_cons_iff _ _ _).1 h with ⟨_, _, _, hp, _⟩ | h
    · cases hp
    · exact .inr (.inr ⟨by simp, .inr h⟩)
  | absent n s t rest ps choices habsent =>
    rcases h with ⟨_, hpending, _⟩ | h
    · cases hpending
    refine .inr (.inr ⟨by simp, .inr ((List.exists_mem_cons_iff _ _ _).2 ?_)⟩)
    rcases (List.exists_mem_cons_iff _ _ _).1 h with h | h
    · rcases h.next with ⟨τ, _, e, he, _⟩ | h
      · rw [habsent] at he
        cases he
      · exact .inl h
    · exact .inr h
  | enter n rest ps choices he hu =>
    rcases h with ⟨_, hpending, _⟩ | h
    · cases hpending
    refine .inr (.inr ⟨by simp, ?_⟩)
    rcases (List.exists_mem_cons_iff _ _ _).1 h with h | h
    · rcases h.next with ⟨τ, hmet, hsupports⟩ | h
      · obtain ⟨s', τ', hu', hmet'⟩ := hmet.enter (hfresh _ List.mem_cons_self) hn he hsupports
        rw [hu] at hu'
        cases hu'
        exact .inl ⟨_, rfl, τ', hmet'⟩
      · exact .inr ((List.exists_mem_cons_iff _ _ _).2 (.inl h))
    · exact .inr ((List.exists_mem_cons_iff _ _ _).2 (.inr h))
  | skip n rest ps choices he hu =>
    rcases h with ⟨_, hpending, _⟩ | h
    · cases hpending
    refine .inr (.inr ⟨by simp, .inr ((List.exists_mem_cons_iff _ _ _).2 ?_)⟩)
    rcases (List.exists_mem_cons_iff _ _ _).1 h with h | h
    · rcases h.next with ⟨τ, hmet, hsupports⟩ | h
      · obtain ⟨s', τ', hu', -⟩ := hmet.enter (hfresh _ List.mem_cons_self) hn he hsupports
        rw [hu] at hu'
        cases hu'
      · exact .inl h
    · exact .inr h

end TripleStore.Search
