import TripleStore.Proofs.Search.Pulls

/-!
# Drains

A stream that comes to its end is drained to its end with every bound on the number of steps that is large enough
(`Step.Exhausts.drain`). And where a drain came to the end, the first pull brings the first of what was drained, within
the same number of steps (`Step.pull_of_drain`). So what is computed from drains and pulls can be read off the answers.
-/

namespace TripleStore

/-- What the first pull from a stream brings that has these answers and then ends. -/
def Pulled.first {α : Type} : List α → Pulled α
  | [] => .done
  | a :: _ => .answer a

namespace Step

variable {σ α : Type} {step : σ → Step σ α} {s : σ} {as : List α} {n : Nat}

/-- The answers that some steps bring before the end: those of the steps after the first one, and before them what the
first step brings. -/
theorem results_succ_eq_ended (h : results step (n + 1) s = as.map .answer ++ [.done]) :
    (step s).progress = .moved ∧ results step n (step s).next = as.map .answer ++ [.done] ∨
      (∃ a bs, as = a :: bs ∧ (step s).progress = .answer a ∧
        results step n (step s).next = bs.map .answer ++ [.done]) ∨
        as = [] ∧ (step s).progress = .done := by
  rw [results] at h
  cases hp : (step s).progress with
  | moved =>
    rw [hp] at h
    exact .inl ⟨rfl, h⟩
  | answer a =>
    rw [hp] at h
    cases as with
    | nil => cases h
    | cons b bs =>
      obtain ⟨hab, hrest⟩ := List.cons.inj h
      cases hab
      exact .inr (.inl ⟨a, bs, rfl, rfl, hrest⟩)
  | error e =>
    rw [hp] at h
    cases as <;> cases h
  | done =>
    rw [hp] at h
    cases as with
    | nil => exact .inr (.inr ⟨rfl, rfl⟩)
    | cons b bs => cases h

theorem drainFrom_of_results (h : results step n s = as.map .answer ++ [.done]) {steps : Nat} (hn : n ≤ steps)
    (items : Array α) (events : Array Event) :
    (drainFrom step none steps s items events).items.toList = items.toList ++ as ∧
      (drainFrom step none steps s items events).ending = .exhausted := by
  induction n generalizing s as steps items events with
  | zero => cases as <;> cases h
  | succ n ih =>
    obtain ⟨steps, rfl⟩ : ∃ k, steps = k + 1 := ⟨steps - 1, by omega⟩
    have hn' : n ≤ steps := by omega
    rw [drainFrom, if_neg (by simp)]
    dsimp only
    rcases results_succ_eq_ended h with ⟨hp, hrest⟩ | ⟨a, bs, rfl, hp, hrest⟩ | ⟨rfl, hp⟩
    · rw [hp]
      exact ih hrest hn' _ _
    · obtain ⟨hitems, hending⟩ := ih hrest hn' (items.push a) (events ++ (step s).events)
      rw [hp]
      refine ⟨hitems.trans ?_, hending⟩
      rw [Array.toList_push, List.append_assoc, List.singleton_append]
    · rw [hp]
      exact ⟨(List.append_nil _).symm, rfl⟩

/-- A pull brings what comes first of what some steps bring, if it takes as many steps. -/
theorem pullFrom_of_results {r : Pulled α} {rs : List (Pulled α)} (h : results step n s = r :: rs) {steps : Nat}
    (hn : n ≤ steps) (events : Array Event) : (pullFrom step steps s events).result = r := by
  induction n generalizing s steps events with
  | zero => cases h
  | succ n ih =>
    obtain ⟨steps, rfl⟩ : ∃ k, steps = k + 1 := ⟨steps - 1, by omega⟩
    rw [results] at h
    rw [pullFrom]
    cases hp : (step s).progress with
    | moved =>
      rw [hp] at h
      exact ih h (by omega) _
    | _ =>
      rw [hp] at h
      exact (List.cons.inj h).1

/-- **A stream that ends is drained** with enough steps. -/
theorem Exhausts.drain (h : Exhausts step s as) : ∃ bound, ∀ steps, bound ≤ steps →
    (Step.drain step none steps s).items.toList = as ∧ (Step.drain step none steps s).ending = .exhausted := by
  obtain ⟨n, hn⟩ := exhausts_iff.1 h
  exact ⟨n, fun steps hsteps => drainFrom_of_results hn hsteps #[] #[]⟩

theorem ending_drainFrom_ne_limit (steps : Nat) (s : σ) (items : Array α) (events : Array Event) :
    (drainFrom step none steps s items events).ending ≠ .limit := by
  induction steps generalizing s items events with
  | zero => exact fun h => by cases h
  | succ steps ih =>
    rw [drainFrom, if_neg (by simp)]
    dsimp only
    cases (step s).progress with
    | moved => exact ih _ _ _
    | answer a => exact ih _ _ _
    | error e => exact fun h => by cases h
    | done => exact fun h => by cases h

/-- A drain that came to the end has gone through the answers before it. -/
theorem exists_results_of_drainFrom {steps : Nat} {items : Array α} {events : Array Event}
    (h : (drainFrom step none steps s items events).ending = .exhausted) :
    ∃ n ≤ steps, ∃ as, results step n s = as.map .answer ++ [.done] ∧
      (drainFrom step none steps s items events).items.toList = items.toList ++ as := by
  induction steps generalizing s items events with
  | zero => cases h
  | succ steps ih =>
    rw [drainFrom, if_neg (by simp)] at h ⊢
    dsimp only at h ⊢
    cases hp : (step s).progress with
    | moved =>
      rw [hp] at h
      obtain ⟨n, hn, as, has, hitems⟩ := ih h
      exact ⟨n + 1, Nat.succ_le_succ hn, as, by rw [results, hp, has]; rfl, hitems⟩
    | answer a =>
      rw [hp] at h
      obtain ⟨n, hn, as, has, hitems⟩ := ih h
      refine ⟨n + 1, Nat.succ_le_succ hn, a :: as, by rw [results, hp, has]; rfl, hitems.trans ?_⟩
      rw [Array.toList_push, List.append_assoc, List.singleton_append]
    | error e =>
      rw [hp] at h
      cases h
    | done => exact ⟨1, Nat.succ_le_succ (Nat.zero_le _), [], by rw [results, hp]; rfl, (List.append_nil _).symm⟩

/-- **Where a drain comes to the end, the first pull brings the first of what is drained**, in no more steps. -/
theorem pull_of_drain {steps steps' : Nat} (h : (Step.drain step none steps s).ending = .exhausted)
    (hle : steps ≤ steps') : (Step.pull step steps' s).result = .first (Step.drain step none steps s).items.toList := by
  obtain ⟨n, hn, as, has, hitems⟩ := exists_results_of_drainFrom h
  have hitems : (Step.drain step none steps s).items.toList = as := hitems
  rw [hitems]
  cases as with
  | nil => exact pullFrom_of_results has (Nat.le_trans hn hle) #[]
  | cons a as => exact pullFrom_of_results has (Nat.le_trans hn hle) #[]

end Step

end TripleStore
