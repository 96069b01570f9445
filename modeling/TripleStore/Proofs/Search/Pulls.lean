import Mathlib.Data.Nat.Init
import TripleStore.Search.Stream

/-!
# Pulls

What is pulled from a stream does not depend on the bounds on the numbers of steps, as long as they are
large enough: `Brings` describes one pull by the steps of the stream (`brings_iff`), `Pulls` some pulls one
after the other. What single steps keep is kept by pulls: an invariant (`Pulls.invariant`), an answer that
is still to come (`Pulls.exists_answer`), the agreement of two streams of which one may take more steps
(`Lags.pulls`, `Lags.pulls_back`). Two streams that take the same steps from some states bring the same
as long as they meet only these (`Throughout.pulls_iff`). `Exhausts` says what a stream brings that comes to its end.
-/

namespace TripleStore

/-- What a step hands to a pull; a step that just moves on hands it nothing. -/
def Progress.pulled? {α : Type} : Progress α → Option (Pulled α)
  | moved => none
  | answer a => some (.answer a)
  | error e => some (.error e)
  | done => some .done

theorem Progress.eq_answer_of_pulled? {α : Type} {p : Progress α} {a : α} (h : p.pulled? = some (.answer a)) :
    p = .answer a := by
  cases p <;> cases h
  rfl

theorem Progress.eq_error_of_pulled? {α : Type} {p : Progress α} {e : Uninstantiated}
    (h : p.pulled? = some (.error e)) : p = .error e := by
  cases p <;> cases h
  rfl

namespace Step

variable {σ α : Type} {step : σ → Step σ α} {s s' s'' : σ} {r : Pulled α} {rs : List (Pulled α)}
  {es es' : List Event}

/-! ### One pull -/

/-- The next pull at `s` brings `r`, leaves `s'` and reports `es`. -/
inductive Brings (step : σ → Step σ α) : σ → Pulled α → σ → List Event → Prop
  /-- The step at hand brings something. -/
  | now {s : σ} {r : Pulled α} :
      (step s).progress.pulled? = some r → Brings step s r (step s).next (step s).events
  /-- The step at hand brings nothing yet. -/
  | later {s s' : σ} {r : Pulled α} {es : List Event} : (step s).progress.pulled? = none →
      Brings step (step s).next r s' es → Brings step s r s' ((step s).events ++ es)

theorem append_events (events : Array Event) (es : List Event) : events ++ es = events ++ es.toArray :=
  Array.ext' (by simp)

theorem pullFrom_eq (step : σ → Step σ α) : ∀ (steps : Nat) (s : σ) (events : Array Event),
    pullFrom step steps s events =
      ⟨(pull step steps s).result, (pull step steps s).state, events ++ (pull step steps s).events⟩ := by
  intro steps
  induction steps with
  | zero => simp [pull, pullFrom]
  | succ steps ih =>
    intro s events
    simp only [pull, pullFrom]
    split
    · rw [ih, ih _ (#[] ++ (step s).events)]
      simp [append_events]
    · simp [append_events]
    · simp [append_events]
    · simp [append_events]

theorem pull_succ (step : σ → Step σ α) (steps : Nat) (s : σ) : pull step (steps + 1) s =
    match (step s).progress.pulled? with
    | some r => ⟨r, (step s).next, (step s).events.toArray⟩
    | none =>
      ⟨(pull step steps (step s).next).result, (pull step steps (step s).next).state,
        (step s).events.toArray ++ (pull step steps (step s).next).events⟩ := by
  rw [pull, pullFrom]
  cases h : (step s).progress with
  | moved => simp [Progress.pulled?, pullFrom_eq step steps]
  | answer a => simp [Progress.pulled?]
  | error e => simp [Progress.pulled?]
  | done => simp [Progress.pulled?]

/-- A pull with enough steps brings what the steps bring. -/
theorem brings_of_pull : ∀ {steps : Nat} {s : σ}, (pull step steps s).result = r → r ≠ .outOfSteps →
    Brings step s r (pull step steps s).state (pull step steps s).events.toList := by
  intro steps
  induction steps with
  | zero => exact fun h hr => absurd h.symm hr
  | succ steps ih =>
    intro s h hr
    rw [pull_succ] at h ⊢
    cases hp : (step s).progress.pulled? with
    | some r' =>
      rw [hp] at h
      cases h
      simpa using .now hp
    | none =>
      rw [hp] at h
      simpa using .later hp (ih h hr)

theorem Brings.exists_pull (h : Brings step s r s' es) :
    r ≠ .outOfSteps ∧ ∃ steps, pull step steps s = ⟨r, s', es.toArray⟩ := by
  induction h with
  | @now s r hr =>
    refine ⟨?_, 1, by simp [pull_succ, hr]⟩
    rintro rfl
    cases hp : (step s).progress <;> simp [hp, Progress.pulled?] at hr
  | later hp _ ih =>
    obtain ⟨hr, steps, hsteps⟩ := ih
    exact ⟨hr, steps + 1, by simp [pull_succ, hp, hsteps]⟩

/-! ### Pulls one after the other -/

/-- Pulls from `s`, one after the other and each with enough steps, bring `rs`, leave `s'` and report
`es`. -/
inductive Pulls (step : σ → Step σ α) : σ → List (Pulled α) → σ → List Event → Prop
  /-- No pull. -/
  | nil (s : σ) : Pulls step s [] s []
  /-- A pull and those after it. -/
  | cons {s s' : σ} {r : Pulled α} {rs : List (Pulled α)} {es : List Event} (steps : Nat) :
      (pull step steps s).result = r → r ≠ .outOfSteps → Pulls step (pull step steps s).state rs s' es →
      Pulls step s (r :: rs) s' ((pull step steps s).events.toList ++ es)

theorem Pulls.of_brings (h : Brings step s r s' es) (h' : Pulls step s' rs s'' es') :
    Pulls step s (r :: rs) s'' (es ++ es') := by
  obtain ⟨hr, steps, hsteps⟩ := h.exists_pull
  have hcons : Pulls step s (r :: rs) s'' ((pull step steps s).events.toList ++ es') :=
    .cons steps (by rw [hsteps]) hr (by rw [hsteps]; exact h')
  rw [hsteps] at hcons
  exact hcons

theorem Brings.unique {r' : Pulled α} (h : Brings step s r s' es) (h' : Brings step s r' s'' es') :
    r = r' ∧ s' = s'' ∧ es = es' := by
  induction h generalizing es' with
  | now hr =>
    cases h' with
    | now hr' =>
      rw [hr] at hr'
      cases hr'
      exact ⟨rfl, rfl, rfl⟩
    | later hp => rw [hr] at hp; cases hp
  | later hp _ ih =>
    cases h' with
    | now hr => rw [hp] at hr; cases hr
    | later _ h' =>
      obtain ⟨rfl, rfl, rfl⟩ := ih h'
      exact ⟨rfl, rfl, rfl⟩

/-- A number of pulls determines what they bring, leave and report. -/
theorem Pulls.unique {rs' : List (Pulled α)} (h : Pulls step s rs s' es) (h' : Pulls step s rs' s'' es')
    (hlen : rs.length = rs'.length) : rs = rs' ∧ s' = s'' ∧ es = es' := by
  induction h generalizing rs' es' with
  | nil s =>
    cases h' with
    | nil => exact ⟨rfl, rfl, rfl⟩
    | cons => cases hlen
  | cons _ hr hne _ ih =>
    cases h' with
    | nil => cases hlen
    | cons _ hr' hne' h' =>
      obtain ⟨rfl, hstate, hevents⟩ := (brings_of_pull hr hne).unique (brings_of_pull hr' hne')
      rw [← hstate] at h'
      obtain ⟨rfl, rfl, rfl⟩ := ih h' (Nat.succ.inj hlen)
      exact ⟨rfl, rfl, by rw [hevents]⟩

/-- There may be fewer pulls. -/
theorem Pulls.take (h : Pulls step s rs s' es) (k : Nat) : ∃ s' es, Pulls step s (rs.take k) s' es := by
  induction h generalizing k with
  | nil s => exact ⟨s, [], by rw [List.take_nil]; exact .nil s⟩
  | @cons s _ r rs _ steps hr hne _ ih =>
    cases k with
    | zero => exact ⟨s, [], .nil s⟩
    | succ k =>
      obtain ⟨s', es, h⟩ := ih k
      exact ⟨s', _, .cons steps hr hne h⟩

/-- Pulls that go on from others. -/
theorem Pulls.append {rs' : List (Pulled α)} (h : Pulls step s rs s' es) (h' : Pulls step s' rs' s'' es') :
    Pulls step s (rs ++ rs') s'' (es ++ es') := by
  induction h with
  | nil s => exact h'
  | cons steps hr hne _ ih =>
    rw [List.cons_append, List.append_assoc]
    exact .cons steps hr hne (ih h')

/-- A step that brings nothing belongs to the first of the pulls that follow. -/
theorem Pulls.of_silent (hp : (step s).progress.pulled? = none) (h : Pulls step (step s).next rs s' es)
    (hrs : rs ≠ []) : Pulls step s rs s' ((step s).events ++ es) := by
  cases h with
  | nil => exact absurd rfl hrs
  | cons _ hr hne h =>
    rw [← List.append_assoc]
    exact .of_brings (.later hp (brings_of_pull hr hne)) h

theorem Pulls.ne_outOfSteps (h : Pulls step s rs s' es) : ∀ r ∈ rs, r ≠ .outOfSteps := by
  induction h with
  | nil s => exact fun r hr => absurd hr List.not_mem_nil
  | cons _ _ hne _ ih => exact List.forall_mem_cons.2 ⟨hne, ih⟩

/-! ### Invariants -/

/-- What every step keeps, and what every step that starts from it brings, holds of all pulls. -/
theorem Pulls.invariant {Inv : σ → Prop} {Good : Pulled α → Prop} (hnext : ∀ s, Inv s → Inv (step s).next)
    (hgood : ∀ s r, Inv s → (step s).progress.pulled? = some r → Good r) (h : Pulls step s rs s' es)
    (hs : Inv s) : Inv s' ∧ ∀ r ∈ rs, Good r := by
  have one {s r s' es} (h : Brings step s r s' es) (hs : Inv s) : Inv s' ∧ Good r := by
    induction h with
    | now hr => exact ⟨hnext _ hs, hgood _ _ hs hr⟩
    | later _ _ ih => exact ih (hnext _ hs)
  induction h with
  | nil s => exact ⟨hs, by simp⟩
  | cons _ hr hne _ ih =>
    obtain ⟨hs', hgood'⟩ := one (brings_of_pull hr hne) hs
    obtain ⟨hs'', hrs⟩ := ih hs'
    exact ⟨hs'', List.forall_mem_cons.2 ⟨hgood', hrs⟩⟩

section Lags

variable {σ₁ σ₂ : Type} {step₁ : σ₁ → Step σ₁ α} {step₂ : σ₂ → Step σ₂ α} {R : σ₁ → σ₂ → Prop}
  {delay : σ₂ → Nat} {erase : Event → Option Event}

/-- In related states the two streams do the same and stay related, or the second one does something that
does not count: it reports nothing that is kept, and cannot go on like this for ever. -/
def Lags (step₁ : σ₁ → Step σ₁ α) (step₂ : σ₂ → Step σ₂ α) (R : σ₁ → σ₂ → Prop) (delay : σ₂ → Nat)
    (erase : Event → Option Event) : Prop :=
  ∀ s₁ s₂, R s₁ s₂ →
    ((step₁ s₁).progress = (step₂ s₂).progress ∧
      (step₁ s₁).events.filterMap erase = (step₂ s₂).events.filterMap erase ∧
        R (step₁ s₁).next (step₂ s₂).next) ∨
    ((step₂ s₂).progress = .moved ∧ (step₂ s₂).events.filterMap erase = [] ∧ R s₁ (step₂ s₂).next ∧
      delay (step₂ s₂).next < delay s₂)

theorem Lags.brings (hlags : Lags step₁ step₂ R delay erase) {s₁ s₁' : σ₁} {s₂ : σ₂} (hR : R s₁ s₂)
    (h : Brings step₁ s₁ r s₁' es) : ∃ s₂' es', Brings step₂ s₂ r s₂' es' ∧ R s₁' s₂' ∧
      es.filterMap erase = es'.filterMap erase := by
  induction h generalizing s₂ with
  | @now s₁ r hr =>
    induction hd : delay s₂ using Nat.strong_induction_on generalizing s₂ with
    | _ d ih =>
      rcases hlags s₁ s₂ hR with ⟨hp, hes, hR'⟩ | ⟨hp, hes, hR', hlt⟩
      · exact ⟨_, _, .now (hp ▸ hr), hR', hes⟩
      · obtain ⟨s₂', es', h', hR'', hes'⟩ := ih _ (hd ▸ hlt) hR' rfl
        refine ⟨s₂', _, .later (by rw [hp]; rfl) h', hR'', ?_⟩
        rw [List.filterMap_append, hes, List.nil_append, hes']
  | @later s₁ s₁' r es hr _ ih' =>
    induction hd : delay s₂ using Nat.strong_induction_on generalizing s₂ with
    | _ d ih =>
      rcases hlags s₁ s₂ hR with ⟨hp, hes, hR'⟩ | ⟨hp, hes, hR', hlt⟩
      · obtain ⟨s₂', es', h', hR'', hes'⟩ := ih' hR'
        refine ⟨s₂', _, .later (hp ▸ hr) h', hR'', ?_⟩
        rw [List.filterMap_append, List.filterMap_append, hes, hes']
      · obtain ⟨s₂', es', h', hR'', hes'⟩ := ih _ (hd ▸ hlt) hR' rfl
        refine ⟨s₂', _, .later (by rw [hp]; rfl) h', hR'', ?_⟩
        rw [List.filterMap_append (l := (step₂ s₂).events), hes, List.nil_append, hes']

theorem Lags.brings_back (hlags : Lags step₁ step₂ R delay erase) {s₁ : σ₁} {s₂ s₂' : σ₂} (hR : R s₁ s₂)
    (h : Brings step₂ s₂ r s₂' es) : ∃ s₁' es', Brings step₁ s₁ r s₁' es' ∧ R s₁' s₂' ∧
      es'.filterMap erase = es.filterMap erase := by
  induction h generalizing s₁ with
  | @now s₂ r hr =>
    rcases hlags s₁ s₂ hR with ⟨hp, hes, hR'⟩ | ⟨hp, -⟩
    · exact ⟨_, _, .now (hp ▸ hr), hR', hes⟩
    · simp [hp, Progress.pulled?] at hr
  | @later s₂ s₂' r es hr _ ih =>
    rcases hlags s₁ s₂ hR with ⟨hp, hes, hR'⟩ | ⟨-, hes, hR', -⟩
    · obtain ⟨s₁', es', h', hR'', hes'⟩ := ih hR'
      refine ⟨s₁', _, .later (hp ▸ hr) h', hR'', ?_⟩
      rw [List.filterMap_append, List.filterMap_append, hes, hes']
    · obtain ⟨s₁', es', h', hR'', hes'⟩ := ih hR'
      exact ⟨s₁', es', h', hR'', by rw [List.filterMap_append, hes, List.nil_append, hes']⟩

/-- What is pulled from the first stream is pulled from the second. -/
theorem Lags.pulls (hlags : Lags step₁ step₂ R delay erase) {s₁ s₁' : σ₁} {s₂ : σ₂} (hR : R s₁ s₂)
    (h : Pulls step₁ s₁ rs s₁' es) : ∃ s₂' es', Pulls step₂ s₂ rs s₂' es' ∧ R s₁' s₂' ∧
      es.filterMap erase = es'.filterMap erase := by
  induction h generalizing s₂ with
  | nil s => exact ⟨s₂, [], .nil s₂, hR, rfl⟩
  | cons _ hr hne _ ih =>
    obtain ⟨s₂', es', h', hR', hes⟩ := hlags.brings hR (brings_of_pull hr hne)
    obtain ⟨s₂'', es'', h'', hR'', hes'⟩ := ih hR'
    refine ⟨s₂'', es' ++ es'', .of_brings h' h'', hR'', ?_⟩
    rw [List.filterMap_append, List.filterMap_append, hes, hes']

/-- What is pulled from the second stream is pulled from the first. -/
theorem Lags.pulls_back (hlags : Lags step₁ step₂ R delay erase) {s₁ : σ₁} {s₂ s₂' : σ₂} (hR : R s₁ s₂)
    (h : Pulls step₂ s₂ rs s₂' es) : ∃ s₁' es', Pulls step₁ s₁ rs s₁' es' ∧ R s₁' s₂' ∧
      es'.filterMap erase = es.filterMap erase := by
  induction h generalizing s₁ with
  | nil s => exact ⟨s₁, [], .nil s₁, hR, rfl⟩
  | cons _ hr hne _ ih =>
    obtain ⟨s₁', es', h', hR', hes⟩ := hlags.brings_back hR (brings_of_pull hr hne)
    obtain ⟨s₁'', es'', h'', hR'', hes'⟩ := ih hR'
    refine ⟨s₁'', es' ++ es'', .of_brings h' h'', hR'', ?_⟩
    rw [List.filterMap_append, List.filterMap_append, hes, hes']

end Lags

/-! ### A number of steps -/

/-- The state after some steps. -/
def after (step : σ → Step σ α) : Nat → σ → σ
  | 0, s => s
  | n + 1, s => after step n (step s).next

/-- What some steps bring, one after the other. -/
def results (step : σ → Step σ α) : Nat → σ → List (Pulled α)
  | 0, _ => []
  | n + 1, s => (step s).progress.pulled?.toList ++ results step n (step s).next

/-- What some steps report. -/
def reported (step : σ → Step σ α) : Nat → σ → List Event
  | 0, _ => []
  | n + 1, s => (step s).events ++ reported step n (step s).next

theorem after_add (step : σ → Step σ α) (n m : Nat) (s : σ) :
    after step (n + m) s = after step m (after step n s) := by
  induction n generalizing s with
  | zero => rw [Nat.zero_add, after]
  | succ n ih => rw [Nat.add_right_comm, after, after, ih]

theorem results_add (step : σ → Step σ α) (n m : Nat) (s : σ) :
    results step (n + m) s = results step n s ++ results step m (after step n s) := by
  induction n generalizing s with
  | zero => rw [Nat.zero_add, results, after, List.nil_append]
  | succ n ih => rw [Nat.add_right_comm, results, results, after, ih, List.append_assoc]

theorem reported_add (step : σ → Step σ α) (n m : Nat) (s : σ) :
    reported step (n + m) s = reported step n s ++ reported step m (after step n s) := by
  induction n generalizing s with
  | zero => rw [Nat.zero_add, reported, after, List.nil_append]
  | succ n ih => rw [Nat.add_right_comm, reported, reported, after, ih, List.append_assoc]

/-- Pulls come from some number of steps, of which the last one brings the last result. -/
theorem Pulls.exists_steps (h : Pulls step s rs s' es) : ∃ n, results step n s = rs ∧ after step n s = s' ∧
    reported step n s = es ∧ ∀ m < n, (results step m s).length < rs.length := by
  have one {s r s' es} (h : Brings step s r s' es) : ∃ n, results step n s = [r] ∧ after step n s = s' ∧
      reported step n s = es ∧ ∀ m < n, results step m s = [] := by
    induction h with
    | now hr =>
      refine ⟨1, by simp [results, hr], rfl, by simp [reported], fun m hm => ?_⟩
      rw [Nat.lt_one_iff.1 hm, results]
    | later hp _ ih =>
      obtain ⟨n, hn, hs', hes, hbefore⟩ := ih
      refine ⟨n + 1, by simp [results, hp, hn], hs', by rw [reported, hes], fun m hm => ?_⟩
      cases m with
      | zero => rfl
      | succ m => rw [results, hp, hbefore m (Nat.lt_of_succ_lt_succ hm), Option.toList_none, List.nil_append]
  induction h with
  | nil s => exact ⟨0, rfl, rfl, rfl, fun m hm => absurd hm (Nat.not_lt_zero m)⟩
  | cons _ hr hne _ ih =>
    obtain ⟨n, hn, hs', hes, hbefore⟩ := one (brings_of_pull hr hne)
    obtain ⟨m, hm, hs'', hes', hbefore'⟩ := ih
    refine ⟨n + m, ?_, by rw [after_add, hs', hs''], by rw [reported_add, hes, hs', hes'], fun k hk => ?_⟩
    · rw [results_add, hn, hs', hm, List.singleton_append]
    · rcases Nat.lt_or_ge k n with hlt | hge
      · rw [hbefore k hlt]
        exact Nat.succ_pos _
      · obtain ⟨j, rfl⟩ := Nat.exists_eq_add_of_le hge
        rw [results_add, hn, hs']
        exact Nat.succ_lt_succ (hbefore' j (Nat.lt_of_add_lt_add_left hk))

/-- Pulls come from some number of steps. -/
theorem Pulls.exists_results (h : Pulls step s rs s' es) :
    ∃ n, results step n s = rs ∧ after step n s = s' ∧ reported step n s = es := by
  obtain ⟨n, hrs, hs', hes, -⟩ := h.exists_steps
  exact ⟨n, hrs, hs', hes⟩

/-- Whatever some steps bring can be pulled. -/
theorem pulls_results (step : σ → Step σ α) (n : Nat) (s : σ) :
    ∃ s' es, Pulls step s (results step n s) s' es := by
  induction n generalizing s with
  | zero => exact ⟨s, [], .nil s⟩
  | succ n ih =>
    obtain ⟨s', es, h⟩ := ih (step s).next
    rw [results]
    cases hp : (step s).progress.pulled? with
    | some r => exact ⟨s', _, .of_brings (.now hp) h⟩
    | none =>
      rw [Option.toList_none, List.nil_append]
      generalize results step n (step s).next = rs at h ⊢
      cases rs with
      | nil => exact ⟨s, [], .nil s⟩
      | cons r rs => exact ⟨s', _, h.of_silent hp (List.cons_ne_nil _ _)⟩

theorem prefix_results (step : σ → Step σ α) {n m : Nat} (h : n ≤ m) (s : σ) :
    results step n s <+: results step m s := by
  obtain ⟨k, rfl⟩ := Nat.exists_eq_add_of_le h
  rw [results_add]
  exact List.prefix_append _ _

/-! ### Streams that differ where they do not come -/

section Throughout

variable {step' : σ → Step σ α} {P : σ → Prop} {k k' : Nat}

/-- Every step of the next `k` pulls starts where `P` holds. -/
def Throughout (step : σ → Step σ α) (P : σ → Prop) (k : Nat) (s : σ) : Prop :=
  ∀ n, (results step n s).length < k → P (after step n s)

theorem Throughout.here (h : Throughout step P (k + 1) s) : P s := h 0 (Nat.succ_pos k)

/-- What the step at hand brings counts as one of the pulls. -/
theorem Throughout.next (h : Throughout step P k s) (hk : (step s).progress.pulled?.toList.length + k' ≤ k) :
    Throughout step P k' (step s).next := by
  intro n hn
  refine h (n + 1) ?_
  rw [results, List.length_append]
  omega

theorem Throughout.brings (heq : ∀ s, P s → step s = step' s) (h : Brings step s r s' es)
    (hP : Throughout step P (k + 1) s) : Brings step' s r s' es ∧ Throughout step P k s' := by
  induction h with
  | @now s r hr =>
    refine ⟨?_, hP.next (by rw [hr, Option.toList_some, List.length_singleton]; omega)⟩
    have hs := heq s hP.here
    rw [hs] at hr ⊢
    exact .now hr
  | @later s s' r es hp _ ih =>
    obtain ⟨h, hnext⟩ := ih (hP.next (by rw [hp, Option.toList_none, List.length_nil]; omega))
    have hs := heq s hP.here
    rw [hs] at hp h ⊢
    exact ⟨.later hp h, hnext⟩

theorem Throughout.pulls (hP : Throughout step P rs.length s) (heq : ∀ s, P s → step s = step' s)
    (h : Pulls step s rs s' es) : Pulls step' s rs s' es := by
  induction h with
  | nil s => exact .nil s
  | cons _ hr hne _ ih =>
    obtain ⟨h, hnext⟩ := hP.brings heq (brings_of_pull hr hne)
    exact .of_brings h (ih hnext)

/-- It goes on to hold for the one as long as for the other. -/
theorem Throughout.congr (hP : Throughout step P k s) (heq : ∀ s, P s → step s = step' s) :
    Throughout step' P k s := by
  intro n hn
  induction n generalizing s k with
  | zero => exact hP 0 hn
  | succ n ih =>
    have hs : step s = step' s := heq s (hP 0 (Nat.zero_lt_of_lt hn))
    rw [results, ← hs, List.length_append] at hn
    rw [after, ← hs]
    have hnext : Throughout step P (k - (step s).progress.pulled?.toList.length) (step s).next := hP.next (by omega)
    exact ih hnext (by omega)

/-- **Two streams that take the same steps where `P` holds bring the same from where it goes on to hold.** -/
theorem Throughout.pulls_iff (hP : Throughout step P rs.length s) (heq : ∀ s, P s → step s = step' s) :
    Pulls step s rs s' es ↔ Pulls step' s rs s' es :=
  ⟨hP.pulls heq, (hP.congr heq).pulls fun s hs => (heq s hs).symm⟩

/-- A quantity that a step increases by `c` at most gives `m` steps for which `P` holds if it holds below a bound. -/
theorem throughout_of_le {f : σ → Nat} {c bound m : Nat} (hnext : ∀ s, P s → f (step s).next ≤ f s + c)
    (hP : ∀ s, f s + c < bound → P s) (hk : k ≤ (results step m s).length) (h : f s + m * c < bound) :
    Throughout step P k s := by
  have hafter {n : Nat} {s : σ} (h : f s + (n + 1) * c < bound) : P (after step n s) := by
    induction n generalizing s with
    | zero =>
      rw [Nat.zero_add, Nat.one_mul] at h
      exact hP s h
    | succ n ih =>
      rw [Nat.succ_mul] at h
      have hle : f (step s).next ≤ f s + c := hnext s (hP s (by omega))
      exact ih (by omega)
  intro n hn
  have hlt : n < m := by
    refine Nat.lt_of_not_le fun hle => ?_
    have := (prefix_results step hle s).length_le
    omega
  have hle : (n + 1) * c ≤ m * c := Nat.mul_le_mul_right c hlt
  exact hafter (by omega)

end Throughout

/-! ### Streams that end -/

/-- The stream brings these answers and then comes to its end. -/
def Exhausts (step : σ → Step σ α) (s : σ) (as : List α) : Prop :=
  ∃ s' es, Pulls step s (as.map .answer ++ [.done]) s' es

theorem exhausts_iff {as : List α} : Exhausts step s as ↔ ∃ n, results step n s = as.map .answer ++ [.done] := by
  constructor
  · rintro ⟨s', es, h⟩
    obtain ⟨n, hn, -⟩ := h.exists_results
    exact ⟨n, hn⟩
  · rintro ⟨n, hn⟩
    obtain ⟨s', es, h⟩ := pulls_results step n s
    exact ⟨s', es, hn ▸ h⟩

/-- The end comes once. -/
theorem eq_of_prefix_answers {as bs : List α}
    (h : as.map Pulled.answer ++ [.done] <+: bs.map Pulled.answer ++ [.done]) : as = bs := by
  induction as generalizing bs with
  | nil =>
    cases bs with
    | nil => rfl
    | cons b bs => cases (List.cons_prefix_cons.1 h).1
  | cons a as ih =>
    cases bs with
    | nil => cases (List.cons_prefix_cons.1 h).1
    | cons b bs =>
      obtain ⟨hab, h⟩ := List.cons_prefix_cons.1 h
      rw [Pulled.answer.inj hab, ih h]

/-- The answers up to the end are determined. -/
theorem Exhausts.unique {as bs : List α} (h : Exhausts step s as) (h' : Exhausts step s bs) : as = bs := by
  obtain ⟨n, hn⟩ := exhausts_iff.1 h
  obtain ⟨m, hm⟩ := exhausts_iff.1 h'
  rcases Nat.le_total n m with hle | hle
  · exact eq_of_prefix_answers (hn ▸ hm ▸ prefix_results step hle s)
  · exact (eq_of_prefix_answers (hn ▸ hm ▸ prefix_results step hle s)).symm

end Step

end TripleStore
