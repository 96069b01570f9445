import TripleStore.Proofs.Search.Transition

/-!
# Retrieval through the index

A search that finds its candidates through the index does what a search that tries every entry does, step
by step but for the entries that the index rules out: its choices are those of the other search without
the candidates that do not fit (`narrow`). Trying one of those changes nothing that counts, as it cannot match
and uses up no variables, so the two searches bring the same (**`pulls_indexed_iff_fullScan`**).
-/

namespace TripleStore

variable {st : Store}

/-- What is left of an event when the number of candidates and the facts that did not match are of no
interest. -/
def Event.essential : Event → Option Event
  | goal pattern _ => some (.goal pattern 0)
  | fact _ false => none
  | e => some e

/-- The choice between the candidates that fit the pattern. -/
def Choice.narrow (st : Store) (choice : Choice) : Choice :=
  { choice with
    candidates := choice.candidates.filter fun p =>
      (st.get? p).any (Entry.fits st.references (choice.pattern.map choice.bindings.reify)) }

namespace Search

/-- The search in which every open choice is between the candidates that fit. -/
def narrow (st : Store) (search : Search) : Search :=
  { search with choices := search.choices.map (Choice.narrow st) }

/-- The number of candidates of the latest choice. -/
def untried (search : Search) : Nat := (search.choices.head?.map fun choice => choice.candidates.length).getD 0

/-- The candidates that the index gives are those of all positions that fit. -/
theorem narrow_fullScan (hst : st.Reachable) (s : Bindings) (t : Triple) (rest : List Goal) :
    Choice.narrow st ⟨s, t, rest, st.candidates .fullScan s t⟩ = ⟨s, t, rest, st.candidates .indexed s t⟩ := by
  simp only [Choice.narrow, hst.candidates_indexed, Store.candidates_fullScan, Store.get?_eq_toList,
    filter_positionsWhere]

theorem narrow_of_fits {s : Bindings} {t : Triple} {p : Nat} (rest : List Goal) (ps : List Nat)
    (h : (st.get? p).any (Entry.fits st.references (t.map s.reify)) = true) :
    Choice.narrow st ⟨s, t, rest, p :: ps⟩
      = ⟨s, t, rest, p :: (Choice.narrow st ⟨s, t, rest, ps⟩).candidates⟩ := by
  simp only [Choice.narrow, List.filter_cons, h, if_true]

theorem narrow_of_not_fits {s : Bindings} {t : Triple} {p : Nat} (rest : List Goal) (ps : List Nat)
    (h : (st.get? p).any (Entry.fits st.references (t.map s.reify)) = false) :
    Choice.narrow st ⟨s, t, rest, p :: ps⟩ = Choice.narrow st ⟨s, t, rest, ps⟩ := by
  simp [Choice.narrow, h]

theorem essential_onMiss (e : Entry) : e.onMiss.filterMap Event.essential = [] := by
  cases e <;> rfl

theorem Leads.acyclic {n n' : Nat} {task task' : Bindings × List Goal} (hl : Leads st n task n' task')
    (hs : task.1.Acyclic) : task'.1.Acyclic := by
  cases hl with
  | stay _ _ => exact hs
  | pass _ _ => exact hs
  | enter _ _ hu => exact (Bindings.unified_of_unifyTriple hs hu).acyclic

/-- The search through the index keeps up with the search among all entries. -/
theorem lags (hst : st.Reachable) : Step.Lags (step st .indexed) (step st .fullScan)
    (fun search₁ search₂ => search₁ = search₂.narrow st ∧ ∀ task ∈ search₂.tasks, task.1.Acyclic) untried
    Event.essential := by
  rintro _ search ⟨rfl, hacyclic⟩
  have hnext : ∀ task ∈ (search.step st .fullScan).next.tasks, task.1.Acyclic :=
    tasks_invariant Leads.acyclic hacyclic
  have ht := transition_step st .fullScan search
  generalize search.step st .fullScan = taken at ht hnext ⊢
  cases ht with
  | answer n s choices =>
    rw [narrow, transition_iff.1 (.answer n s _)]
    exact .inl ⟨rfl, rfl, rfl, hnext⟩
  | pass n rest choices hc =>
    rw [narrow, transition_iff.1 (.pass n rest _ hc)]
    exact .inl ⟨rfl, rfl, rfl, hnext⟩
  | fail n rest choices hc =>
    rw [narrow, transition_iff.1 (.fail n rest _ hc)]
    exact .inl ⟨rfl, rfl, rfl, hnext⟩
  | raise n rest choices hc =>
    rw [narrow, transition_iff.1 (.raise n rest _ hc)]
    exact .inl ⟨rfl, rfl, rfl, hnext⟩
  | select n s t rest choices =>
    rw [narrow, transition_iff.1 (.select n s t rest _), ← narrow_fullScan hst]
    exact .inl ⟨rfl, rfl, rfl, hnext⟩
  | done n =>
    rw [narrow, List.map_nil, transition_iff.1 (.done n)]
    exact .inl ⟨rfl, rfl, rfl, hnext⟩
  | close n s t rest choices =>
    rw [narrow, List.map_cons, Choice.narrow, List.filter_nil, transition_iff.1 (.close n s t rest _)]
    exact .inl ⟨rfl, rfl, rfl, hnext⟩
  | @absent n s t rest p ps choices hp =>
    have hfits : (st.get? p).any (Entry.fits st.references (t.map s.reify)) = false := by rw [hp]; rfl
    rw [narrow, List.map_cons, narrow_of_not_fits rest ps hfits]
    exact .inr ⟨rfl, rfl, ⟨rfl, hnext⟩, Nat.lt_succ_self _⟩
  | @enter n s s' t rest p ps choices e hp hu =>
    -- an entry that matches fits
    cases hfits : (st.get? p).any (Entry.fits st.references (t.map s.reify)) with
    | false =>
      rw [hp] at hfits
      rw [Entry.unifyTriple_of_not_fits (hacyclic _ List.mem_cons_self) hfits n] at hu
      cases hu
    | true =>
      rw [narrow, List.map_cons, narrow_of_fits rest ps hfits, transition_iff.1 (.enter n rest _ _ hp hu)]
      exact .inl ⟨rfl, rfl, rfl, hnext⟩
  | @skip n s t rest p ps choices e hp hu =>
    cases hfits : (st.get? p).any (Entry.fits st.references (t.map s.reify)) with
    | false =>
      rw [narrow, List.map_cons, narrow_of_not_fits rest ps hfits]
      exact .inr ⟨rfl, essential_onMiss e, ⟨rfl, hnext⟩, Nat.lt_succ_self _⟩
    | true =>
      rw [narrow, List.map_cons, narrow_of_fits rest ps hfits, transition_iff.1 (.skip n rest _ _ hp hu)]
      exact .inl ⟨rfl, rfl, rfl, hnext⟩

end Search

end TripleStore
