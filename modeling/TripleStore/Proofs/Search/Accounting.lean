import TripleStore.Proofs.Search.Activation
import TripleStore.Proofs.Search.Decoding
import TripleStore.Proofs.Search.Fused
import TripleStore.Proofs.Search.Join

/-!
# What a trace accounts for

Goals that are to be met next are taken up once: the first of them is selected or checked, or there is none and a
solution is found. They are there at the start, and afterwards when an entry has matched or a check has passed. So the
two sides of the account (`Event.takenUp`, `Event.leftOver`) differ by what is pending (`Search.due`). In the same way
the candidates that were found have been tried, or are outstanding (`Search.outstanding`).

Each step keeps the account (`Search.balanced_step`), so any number of steps does (`Search.balanced_results`). After a
pull nothing is pending, which gives the account of a trace (**`Search.pulls_accounted`**). A candidate may go by without
an event if it is a rule whose head does not match, or may never be tried after an error; without either every candidate
is reported (`Search.tried_results`).
-/

namespace TripleStore

namespace Event

/-! ### Counting events -/

/-- The event is that a pattern was selected. -/
def isGoal : Event → Bool
  | goal .. => true
  | _ => false

/-- The event is that a fact was tried. -/
def isFact : Event → Bool
  | fact .. => true
  | _ => false

/-- The event is that a fact matched. -/
def isMatch : Event → Bool
  | fact _ matched => matched
  | _ => false

/-- The event is that a check was decided. -/
def isCheck : Event → Bool
  | check .. => true
  | _ => false

/-- The event is that a check passed. -/
def isPass : Event → Bool
  | check _ passed => passed
  | _ => false

/-- The number of candidates that were found for a pattern. -/
def candidates : Event → Nat
  | goal _ n => n
  | _ => 0

/-- How often goals that were to be met next were taken up. -/
def takenUp (es : List Event) : Nat := es.countP isGoal + es.countP isCheck + es.countP isSolution

/-- How often a match or a check left goals to be met next. -/
def leftOver (es : List Event) : Nat := es.countP isMatch + es.countP isRule + es.countP isPass

/-- How many candidates were found. -/
def found (es : List Event) : Nat := (es.map candidates).sum

/-- How many candidates are known to have been tried: all facts, and the rules whose head matched. -/
def tried (es : List Event) : Nat := es.countP isFact + es.countP isRule

variable (es es' : List Event)

@[simp] theorem takenUp_append : takenUp (es ++ es') = takenUp es + takenUp es' := by
  simp only [takenUp, List.countP_append]
  omega

@[simp] theorem leftOver_append : leftOver (es ++ es') = leftOver es + leftOver es' := by
  simp only [leftOver, List.countP_append]
  omega

@[simp] theorem found_append : found (es ++ es') = found es + found es' := by
  rw [found, List.map_append, List.sum_append, found, found]

@[simp] theorem tried_append : tried (es ++ es') = tried es + tried es' := by
  simp only [tried, List.countP_append]
  omega

@[simp] theorem found_nil : found [] = 0 := rfl

@[simp] theorem tried_nil : tried [] = 0 := rfl

@[simp] theorem found_goal (t : Triple) (n : Nat) : found [goal t n] = n := rfl

@[simp] theorem tried_goal (t : Triple) (n : Nat) : tried [goal t n] = 0 := rfl

end Event

namespace Entry

open Event

variable (e : Entry) (base : Nat)

theorem tried_onMatch : tried (e.onMatch base) = 1 := by cases e <;> rfl

theorem found_onMatch : found (e.onMatch base) = 0 := by cases e <;> rfl

/-- A rule whose head does not match is not reported. -/
theorem tried_onMiss : tried e.onMiss = e.isFact.toNat := by cases e <;> rfl

theorem found_onMiss : found e.onMiss = 0 := by cases e <;> rfl

end Entry

/-- The pull brings an error. -/
def Pulled.isError {α : Type} : Pulled α → Bool
  | error _ => true
  | _ => false

theorem Store.Reachable.exists_entry {st : Store} (hst : st.Reachable) {mode : Retrieval} {s : Bindings} {t : Triple}
    {p : Nat} (hp : p ∈ st.candidates mode s t) : ∃ e, st.get? p = some e := by
  cases mode with
  | indexed =>
    rw [hst.candidates_indexed, mem_positionsWhere, ← get?_eq_toList] at hp
    obtain ⟨e, he, -⟩ := hp
    exact ⟨e, he⟩
  | fullScan =>
    rw [candidates_fullScan, mem_positionsWhere, ← get?_eq_toList] at hp
    obtain ⟨e, he, -⟩ := hp
    exact ⟨e, he⟩

namespace Search

open Event

variable {st : Store} {mode : Retrieval} {S S' S'' : Search} {rs rs' : List (Pulled Bindings)} {es es' : List Event}

/-! ### Balances -/

/-- One if there are goals to be met next. -/
def due (S : Search) : Nat := S.pending.toList.length

/-- The number of candidates of open choices that are still to be tried. -/
def outstanding (choices : List Choice) : Nat := (choices.map fun choice => choice.candidates.length).sum

@[simp] theorem outstanding_cons (s : Bindings) (t : Triple) (rest : List Goal) (ps : List Nat) (choices : List Choice) :
    outstanding (⟨s, t, rest, ps⟩ :: choices) = ps.length + outstanding choices := by
  rw [outstanding, List.map_cons, List.sum_cons, outstanding]

/-- From `S` to `S'` the search has brought `rs` and reported `es`: goals were taken up as often as they were there to be
met, except for those that met an error; every answer was reported; no candidate was tried that had not been found. -/
structure Balanced (S : Search) (rs : List (Pulled Bindings)) (S' : Search) (es : List Event) : Prop where
  goals : takenUp es + rs.countP Pulled.isError + S'.due = S.due + leftOver es
  solutions : es.countP isSolution = rs.countP Pulled.isAnswer
  candidates : tried es + outstanding S'.choices ≤ outstanding S.choices + found es

theorem Balanced.append (h : Balanced S rs S' es) (h' : Balanced S' rs' S'' es') :
    Balanced S (rs ++ rs') S'' (es ++ es') where
  goals := by
    have := h.goals
    have := h'.goals
    rw [takenUp_append, leftOver_append, List.countP_append]
    omega
  solutions := by rw [List.countP_append, List.countP_append, h.solutions, h'.solutions]
  candidates := by
    have := h.candidates
    have := h'.candidates
    rw [tried_append, found_append]
    omega

/-- **A step keeps the account.** -/
theorem balanced_step (st : Store) (mode : Retrieval) (S : Search) :
    Balanced S (S.step st mode).progress.pulled?.toList (S.step st mode).next (S.step st mode).events := by
  have ht := transition_step st mode S
  generalize S.step st mode = taken at ht ⊢
  cases ht with
  | answer | pass | fail | done => exact ⟨rfl, rfl, (Nat.zero_add _).le⟩
  | raise => exact ⟨rfl, rfl, Nat.zero_le _⟩
  | select n s t rest choices => exact ⟨rfl, rfl, by simp [Nat.add_comm]⟩
  | close | absent => exact ⟨rfl, rfl, by simp⟩
  | @enter n s s' t rest p ps choices e _ _ =>
    refine ⟨by cases e <;> rfl, by cases e <;> rfl, ?_⟩
    rw [e.tried_onMatch, e.found_onMatch, outstanding_cons, outstanding_cons, List.length_cons]
    omega
  | @skip n s t rest p ps choices e _ _ =>
    have := e.isFact.toNat_le
    refine ⟨by cases e <;> rfl, by cases e <;> rfl, ?_⟩
    rw [e.tried_onMiss, e.found_onMiss, outstanding_cons, outstanding_cons, List.length_cons]
    omega

/-- Any number of steps keeps the account. -/
theorem balanced_results (st : Store) (mode : Retrieval) (k : Nat) (S : Search) :
    Balanced S (Step.results (step st mode) k S) (Step.after (step st mode) k S)
      (Step.reported (step st mode) k S) := by
  induction k generalizing S with
  | zero => exact ⟨Nat.zero_add _, rfl, (Nat.zero_add _).le⟩
  | succ k ih => exact (balanced_step st mode S).append (ih _)

/-! ### Errors and ends -/

/-- A search meets at most one error. -/
theorem countP_isError_results (st : Store) (mode : Retrieval) (k : Nat) (S : Search) :
    (Step.results (step st mode) k S).countP Pulled.isError
      = ((Step.results (step st mode) k S).any Pulled.isError).toNat := by
  induction k generalizing S with
  | zero => rfl
  | succ k ih =>
    rw [Step.results, List.countP_append, List.any_append]
    cases hp : (S.step st mode).progress with
    | error e =>
      -- after the error there is nothing but the end
      rw [next_of_error hp, results_ended]
      simp [Progress.pulled?, Pulled.isError]
    | _ => simp [Progress.pulled?, Pulled.isError, ih]

/-- After a pull nothing is to be met next. -/
theorem due_of_pulls (h : Step.Pulls (step st mode) S rs S' es) (hrs : rs ≠ []) : S'.due = 0 := by
  have one {S S' r es} (h : Step.Brings (step st mode) S r S' es) : S'.due = 0 := by
    induction h with
    | @now S r hr =>
      have ht := transition_step st mode S
      generalize S.step st mode = taken at ht hr ⊢
      cases ht with
      | answer | raise | done => rfl
      | _ => cases hr
    | later _ _ ih => exact ih
  induction h with
  | nil S => exact absurd rfl hrs
  | @cons S S' r rs es steps hr hne h ih =>
    cases rs with
    | nil =>
      cases h
      exact one (Step.brings_of_pull hr hne)
    | cons r' rs => exact ih (List.cons_ne_nil _ _)

/-! ### Stores without rules -/

/-- There is an entry at every position that is still to be tried. -/
def Stored (st : Store) (S : Search) : Prop :=
  ∀ choice ∈ S.choices, ∀ p ∈ choice.candidates, ∃ e, st.get? p = some e

theorem stored_step (hst : st.Reachable) (mode : Retrieval) (hS : S.Stored st) : (S.step st mode).next.Stored st := by
  have ht := transition_step st mode S
  generalize S.step st mode = taken at ht ⊢
  cases ht with
  | answer | pass | fail | done => exact hS
  | raise => simp [Stored]
  | select n s t rest choices => exact List.forall_mem_cons.2 ⟨fun p hp => hst.exists_entry hp, hS⟩
  | close => exact (List.forall_mem_cons.1 hS).2
  | absent | enter | skip =>
    obtain ⟨hfirst, hrest⟩ := List.forall_mem_cons.1 hS
    exact List.forall_mem_cons.2 ⟨(List.forall_mem_cons.1 hfirst).2, hrest⟩

/-- Where all entries are facts, a step without an error reports every candidate that it tries. -/
theorem tried_step (hfacts : ∀ r, .rule r ∉ st.entries) (mode : Retrieval) (hS : S.Stored st)
    (herror : ∀ e, (S.step st mode).progress ≠ .error e) :
    tried (S.step st mode).events + outstanding (S.step st mode).next.choices
      = outstanding S.choices + found (S.step st mode).events := by
  have ht := transition_step st mode S
  generalize S.step st mode = taken at ht herror ⊢
  cases ht with
  | answer | pass | fail | done => exact Nat.zero_add _
  | raise => exact absurd rfl (herror _)
  | select n s t rest choices => simp [Nat.add_comm]
  | close => simp
  | absent n s t rest ps choices hp =>
    obtain ⟨e, he⟩ := hS _ List.mem_cons_self _ List.mem_cons_self
    rw [hp] at he
    cases he
  | @enter n s s' t rest p ps choices e _ _ =>
    rw [e.tried_onMatch, e.found_onMatch, outstanding_cons, outstanding_cons, List.length_cons]
    omega
  | @skip n s t rest p ps choices e hp _ =>
    obtain ⟨u, ground, rfl⟩ := Store.exists_fact hfacts hp
    rw [Entry.tried_onMiss, Entry.found_onMiss, outstanding_cons, outstanding_cons, List.length_cons, Entry.isFact,
      Bool.toNat_true]
    omega

/-- The same of any number of steps. -/
theorem tried_results (hst : st.Reachable) (hfacts : ∀ r, .rule r ∉ st.entries) (mode : Retrieval) (k : Nat)
    (hS : S.Stored st) (herror : ∀ e, .error e ∉ Step.results (step st mode) k S) :
    tried (Step.reported (step st mode) k S) + outstanding (Step.after (step st mode) k S).choices
      = outstanding S.choices + found (Step.reported (step st mode) k S) := by
  induction k generalizing S with
  | zero => exact Nat.zero_add _
  | succ k ih =>
    rw [Step.results] at herror
    have hfirst : ∀ e, (S.step st mode).progress ≠ .error e := fun e he =>
      herror e (List.mem_append_left _ (by simp [he, Progress.pulled?]))
    have hstep := tried_step hfacts mode hS hfirst
    have hrest := ih (stored_step hst mode hS) fun e he => herror e (List.mem_append_right _ he)
    rw [Step.reported, Step.after, tried_append, found_append]
    omega

/-- **The trace accounts for the search.** After any pulls of a search, at least one, goals that were to be met next have
been taken up as often as they were there: once at the start, and once for each fact that matched, each rule that was
used and each check that passed. They were taken up by selecting a pattern, deciding a check or reporting a solution, or
met the one error. As many solutions were reported as answers brought. No more facts and rules were tried than
candidates found; and just as many, if no entry is a rule and the search has come to its end without an error. -/
theorem pulls_accounted (st : Store) (mode : Retrieval) (s : Bindings) (goals : List Goal) (nextVar : Nat)
    (h : Step.Pulls (step st mode) (start s goals nextVar) rs S es) (hrs : rs ≠ []) :
    es.countP isGoal + es.countP isCheck + es.countP isSolution + (rs.any Pulled.isError).toNat
        = 1 + es.countP isMatch + es.countP isRule + es.countP isPass ∧
      es.countP isSolution = rs.countP Pulled.isAnswer ∧
      es.countP isFact + es.countP isRule ≤ (es.map candidates).sum ∧
      (st.Reachable → (∀ r, .rule r ∉ st.entries) → .done ∈ rs → (∀ e, .error e ∉ rs) →
        es.countP isFact + es.countP isRule = (es.map candidates).sum) := by
  have hdue := due_of_pulls h hrs
  have hfused := (pulls_fused st mode).1 h
  obtain ⟨k, rfl, rfl, rfl⟩ := h.exists_results
  have hbalanced := balanced_results st mode k (start s goals nextVar)
  have hgoals := hbalanced.goals
  have hcandidates := hbalanced.candidates
  rw [countP_isError_results, hdue] at hgoals
  refine ⟨?_, hbalanced.solutions, ?_, fun hst hfacts hdone herror => ?_⟩
  · have hstart : (start s goals nextVar).due = 1 := rfl
    rw [takenUp, leftOver, hstart] at hgoals
    omega
  · have hstart : outstanding (start s goals nextVar).choices = 0 := rfl
    rw [tried, found, hstart] at hcandidates
    omega
  · have hnone : (Step.after (step st mode) k (start s goals nextVar)).choices = [] :=
      (hfused ⟨_, hdone, trivial⟩).2.1
    have hstart : outstanding (start s goals nextVar).choices = 0 := rfl
    have hall := tried_results hst hfacts mode k (S := start s goals nextVar) (by simp [Stored, start]) herror
    rw [tried, found, hstart, hnone] at hall
    simpa [outstanding] using hall

/-! ### An example -/

/-- The two ways in which Ann is a grandparent of Cid are accounted for up to the end. Where a check cannot be decided,
the error stands for the goals that met it, and the rule behind the fact is found and never tried. -/
theorem pulls_accounted_generations : (∃ S es, Step.Pulls (step .generations .indexed)
        (start .empty Goal.grandparents 3)
        [.answer (((Bindings.empty.extend 0 (.str "ann")).extend 1 (.str "bob")).extend 2 (.str "cid")),
          .answer (((Bindings.empty.extend 0 (.str "ann")).extend 1 (.str "bob")).extend 2 (.str "cid")), .done] S es ∧
      es.countP isGoal + es.countP isCheck + es.countP isSolution
        = 1 + es.countP isMatch + es.countP isRule + es.countP isPass ∧
      es.countP isSolution = 2 ∧ es.countP isFact + es.countP isRule = (es.map candidates).sum) ∧
    ∃ S es, Step.Pulls (step .family .fullScan) (start .empty Query.undecided.goals 4) [.error ⟨"neq", .var 3⟩] S es ∧
      es.countP isGoal + es.countP isCheck + es.countP isSolution + 1
        = 1 + es.countP isMatch + es.countP isRule + es.countP isPass ∧
      es.countP isFact + es.countP isRule ≤ (es.map candidates).sum := by
  have hfacts : ∀ r, .rule r ∉ Store.generations.entries := by
    simp [Store.generations, Store.push, Store.withReferences]
  have hjoin : ∃ S es, Step.Pulls (step .generations .indexed) (start .empty Goal.grandparents 3)
      [.answer (((Bindings.empty.extend 0 (.str "ann")).extend 1 (.str "bob")).extend 2 (.str "cid")),
        .answer (((Bindings.empty.extend 0 (.str "ann")).extend 1 (.str "bob")).extend 2 (.str "cid")), .done] S es :=
    ⟨_, _, .cons 10 (by rfl) (by simp) (.cons 10 (by rfl) (by simp) (.cons 10 (by rfl) (by simp) (.nil _)))⟩
  have hundecided : ∃ S es, Step.Pulls (step .family .fullScan) (start .empty Query.undecided.goals 4)
      [.error ⟨"neq", .var 3⟩] S es := ⟨_, _, .cons 10 (by rfl) (by simp) (.nil _)⟩
  obtain ⟨S, es, hjoin⟩ := hjoin
  obtain ⟨S', es', hundecided⟩ := hundecided
  obtain ⟨hgoals, hsolutions, -, hall⟩ := pulls_accounted .generations .indexed _ _ _ hjoin (List.cons_ne_nil _ _)
  obtain ⟨hgoals', -, hsome, -⟩ := pulls_accounted .family .fullScan _ _ _ hundecided (List.cons_ne_nil _ _)
  exact ⟨⟨S, es, hjoin, hgoals, hsolutions, hall Store.reachable_generations hfacts (by simp) (by simp)⟩,
    S', es', hundecided, hgoals', hsome⟩

end Search

end TripleStore
