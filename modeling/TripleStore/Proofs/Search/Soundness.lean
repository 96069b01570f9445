import TripleStore.Proofs.Search.Transition
import TripleStore.Proofs.Store.Model

/-!
# Soundness

Whatever a search answers follows from the store. What every task keeps (`Sound`) is that meeting its goals
is enough to meet the goals of the search: a check is dropped only when it holds for good, and a pattern
gives way to a body from which it follows. An answer has no goals left, so that under its bindings the goals
of the search hold (**`answer_sound`**), after any number of pulls.
-/

namespace TripleStore.Search

open Term

variable {st : Store} {mode : Retrieval} {s₀ : Bindings} {goals₀ : List Goal}

/-- The bindings of a task extend those at the start, and the goals of the search hold under every
assignment of ground terms that respects them and meets the goals of the task. -/
structure Sound (st : Store) (s₀ : Bindings) (goals₀ : List Goal) (task : Bindings × List Goal) : Prop where
  acyclic : task.1.Acyclic
  extended : s₀.ExtendedBy task.1
  entails : ∀ τ, Grounding τ → task.1.RespectedBy τ → (∀ g ∈ task.2, g.Holds st.Derivable τ) →
    ∀ g ∈ goals₀, g.Holds st.Derivable τ

theorem sound_start (hs : s₀.Acyclic) (goals₀ : List Goal) : Sound st s₀ goals₀ (s₀, goals₀) :=
  ⟨hs, .refl s₀, fun _ _ _ h => h⟩

/-- A check that holds under the bindings may be dropped. -/
theorem Sound.pass {s : Bindings} {c : Check} {rest : List Goal} (h : Sound st s₀ goals₀ (s, .check c :: rest))
    (hc : c.run s = .ok true) : Sound st s₀ goals₀ (s, rest) where
  acyclic := h.acyclic
  extended := h.extended
  entails τ hτ hrespects hrest :=
    h.entails τ hτ hrespects (List.forall_mem_cons.2 ⟨(Check.run_iff hc hrespects).1 rfl, hrest⟩)

/-- A pattern may give way to the body of an entry that matches it. -/
theorem Sound.enter {s s' : Bindings} {t : Triple} {rest : List Goal} {n p : Nat} {e : Entry}
    (h : Sound st s₀ goals₀ (s, .pattern t :: rest)) (hp : st.get? p = some e)
    (hu : s.unifyTriple t (e.headAt n) = some s') : Sound st s₀ goals₀ (s', e.bodyAt n ++ rest) := by
  have hunified := Bindings.unified_of_unifyTriple h.acyclic hu
  refine ⟨hunified.acyclic, h.extended.trans hunified.extended, fun τ hτ hrespects hgoals => ?_⟩
  obtain ⟨hbody, hrest⟩ := List.forall_mem_append.1 hgoals
  obtain ⟨hs, hequal⟩ := (Bindings.respectedBy_iff_of_unifyTriple h.acyclic hu τ).1 hrespects
  refine h.entails τ hτ hs (List.forall_mem_cons.2 ⟨?_, hrest⟩)
  -- under the bindings the pattern has the value of the head
  show st.Derivable (t.map (subst τ))
  rw [hequal]
  exact Store.derivable_of_entry hp hτ hbody

theorem Sound.leads {n n' : Nat} {task task' : Bindings × List Goal} (hl : Leads st n task n' task')
    (h : Sound st s₀ goals₀ task) : Sound st s₀ goals₀ task' := by
  cases hl with
  | stay _ _ => exact h
  | pass rest hc => exact h.pass hc
  | enter rest hp hu => exact h.enter hp hu

/-- **Every answer is sound.** The bindings that a search answers, after any number of pulls, keep the
bindings at the start, and under every assignment of ground terms that respects them each pattern is
derivable and each check holds. -/
theorem answer_sound {s s' : Bindings} {goals : List Goal} {nextVar : Nat} {rs : List (Pulled Bindings)}
    {search : Search} {es : List Event} (hs : s.Acyclic)
    (h : Step.Pulls (Search.step st mode) (start s goals nextVar) rs search es) (hs' : .answer s' ∈ rs) :
    s.ExtendedBy s' ∧
      ∀ τ, Grounding τ → s'.RespectedBy τ → ∀ g ∈ goals, g.Holds st.Derivable τ := by
  have hstart : ∀ task ∈ (start s goals nextVar).tasks, Sound st s goals task :=
    forall_mem_tasks_start.2 (sound_start hs goals)
  have hanswer : ∀ (search : Search) r, (∀ task ∈ search.tasks, Sound st s goals task) →
      (search.step st mode).progress.pulled? = some r → ∀ s', r = .answer s' → Sound st s goals (s', []) := by
    rintro search r htasks hr s' rfl
    have hp : (search.step st mode).progress = .answer s' := by
      cases hp : (search.step st mode).progress <;> simp_all [Progress.pulled?]
    exact htasks _ (mem_tasks_of_answer hp)
  have hnext : ∀ search : Search, (∀ task ∈ search.tasks, Sound st s goals task) →
      ∀ task ∈ (search.step st mode).next.tasks, Sound st s goals task :=
    fun search htasks => tasks_invariant Sound.leads htasks
  have hsound := (h.invariant hnext hanswer hstart).2 _ hs' s' rfl
  exact ⟨hsound.extended, fun τ hτ hrespects => hsound.entails τ hτ hrespects (by simp)⟩

/-- Under the bindings that are answered when asked for the descendants of Ann, Ann is their ancestor. -/
theorem answer_sound_family : ∃ s' search es,
    Step.Pulls (step .family .indexed) (start .empty [.descendants] 1) [.answer s', .done] search es ∧
      ∀ τ, Grounding τ → s'.RespectedBy τ → Goal.descendants.Holds Store.family.Derivable τ := by
  obtain ⟨search, es, hpulls⟩ := pulls_family .indexed
  refine ⟨_, search, es, hpulls, fun τ hτ hrespects => ?_⟩
  exact (answer_sound Bindings.acyclic_empty hpulls List.mem_cons_self).2 τ hτ hrespects _ List.mem_cons_self

end TripleStore.Search
