import TripleStore.Proofs.Search.Pulls
import TripleStore.Proofs.Store.Candidates
import TripleStore.Search.Basic

/-!
# What a step of a search can do

`Transition` lists the steps of a search, one constructor for each (`transition_iff`); a fact and a rule are
tried in the same way. What is left to be done in a search is its tasks, each some goals under bindings: the
pending one and one for each open choice. A step leads from tasks to tasks in two ways only (`Leads`): a
check that holds is dropped, a pattern gives way to the body of an entry. Hence what these two keep holds
of every task at every time (`tasks_invariant`).
-/

namespace TripleStore

namespace Entry

/-- What is reported when the head of the entry matches. -/
def onMatch (base : Nat) : Entry → List Event
  | fact t _ => [.fact t true]
  | rule r => [.rule r.name? (r.headAt base) base]

/-- What is reported when it does not. -/
def onMiss : Entry → List Event
  | fact t _ => [.fact t false]
  | rule _ => []

end Entry

namespace Search

variable {st : Store} {mode : Retrieval}

/-- The steps of a search. -/
inductive Transition (st : Store) (mode : Retrieval) : Search → Step Search Bindings → Prop
  /-- No goal is left: the bindings are an answer. -/
  | answer (n : Nat) (s : Bindings) (choices : List Choice) :
      Transition st mode ⟨n, some (s, []), choices⟩ ⟨.answer s, ⟨n, none, choices⟩, [.solution s.size]⟩
  /-- The first goal is a check and holds. -/
  | pass (n : Nat) {s : Bindings} {c : Check} (rest : List Goal) (choices : List Choice) : c.run s = .ok true →
      Transition st mode ⟨n, some (s, .check c :: rest), choices⟩
        ⟨.moved, ⟨n, some (s, rest), choices⟩, [.check c true]⟩
  /-- The first goal is a check and does not hold. -/
  | fail (n : Nat) {s : Bindings} {c : Check} (rest : List Goal) (choices : List Choice) : c.run s = .ok false →
      Transition st mode ⟨n, some (s, .check c :: rest), choices⟩
        ⟨.moved, ⟨n, none, choices⟩, [.check c false]⟩
  /-- The first goal is a check that cannot be decided. -/
  | raise (n : Nat) {s : Bindings} {c : Check} {e : Uninstantiated} (rest : List Goal) (choices : List Choice) :
      c.run s = .error e →
      Transition st mode ⟨n, some (s, .check c :: rest), choices⟩ ⟨.error e, ⟨n, none, []⟩, []⟩
  /-- The first goal is a pattern: a choice is opened. -/
  | select (n : Nat) (s : Bindings) (t : Triple) (rest : List Goal) (choices : List Choice) :
      Transition st mode ⟨n, some (s, .pattern t :: rest), choices⟩
        ⟨.moved, ⟨n, none, ⟨s, t, rest, st.candidates mode s t⟩ :: choices⟩,
          [.goal t (st.candidates mode s t).length]⟩
  /-- No choice is open. -/
  | done (n : Nat) : Transition st mode ⟨n, none, []⟩ ⟨.done, ⟨n, none, []⟩, []⟩
  /-- The latest choice has no candidate left. -/
  | close (n : Nat) (s : Bindings) (t : Triple) (rest : List Goal) (choices : List Choice) :
      Transition st mode ⟨n, none, ⟨s, t, rest, []⟩ :: choices⟩ ⟨.moved, ⟨n, none, choices⟩, []⟩
  /-- The next candidate is no position of the store. -/
  | absent (n : Nat) (s : Bindings) (t : Triple) (rest : List Goal) {p : Nat} (ps : List Nat)
      (choices : List Choice) : st.get? p = none →
      Transition st mode ⟨n, none, ⟨s, t, rest, p :: ps⟩ :: choices⟩
        ⟨.moved, ⟨n, none, ⟨s, t, rest, ps⟩ :: choices⟩, []⟩
  /-- The next candidate matches: its body is to be met first. -/
  | enter (n : Nat) {s s' : Bindings} {t : Triple} (rest : List Goal) {p : Nat} (ps : List Nat)
      (choices : List Choice) {e : Entry} : st.get? p = some e → s.unifyTriple t (e.headAt n) = some s' →
      Transition st mode ⟨n, none, ⟨s, t, rest, p :: ps⟩ :: choices⟩
        ⟨.moved, ⟨n + e.varCount, some (s', e.bodyAt n ++ rest), ⟨s, t, rest, ps⟩ :: choices⟩, e.onMatch n⟩
  /-- The next candidate does not match. -/
  | skip (n : Nat) {s : Bindings} {t : Triple} (rest : List Goal) {p : Nat} (ps : List Nat)
      (choices : List Choice) {e : Entry} : st.get? p = some e → s.unifyTriple t (e.headAt n) = none →
      Transition st mode ⟨n, none, ⟨s, t, rest, p :: ps⟩ :: choices⟩
        ⟨.moved, ⟨n, none, ⟨s, t, rest, ps⟩ :: choices⟩, e.onMiss⟩

/-- How an entry is tried, be it a fact or a rule. -/
theorem attemptIn_unbounded (search : Search) (choice : Choice) (e : Entry) : attemptIn .unbounded search choice e =
    match choice.bindings.unifyTriple choice.pattern (e.headAt search.nextVar) with
    | some s =>
      ⟨.moved,
        { search with
          nextVar := search.nextVar + e.varCount
          pending := some (s, e.bodyAt search.nextVar ++ choice.rest) },
        e.onMatch search.nextVar⟩
    | none => ⟨.moved, search, e.onMiss⟩ := by
  cases e with
  | fact t ground => rfl
  | rule r => rfl

/-- **Every step is one of the transitions.** -/
theorem transition_step (st : Store) (mode : Retrieval) (search : Search) :
    Transition st mode search (search.step st mode) := by
  obtain ⟨n, pending, choices⟩ := search
  cases pending with
  | some task =>
    obtain ⟨s, goals⟩ := task
    cases goals with
    | nil => exact .answer n s choices
    | cons goal rest =>
      cases goal with
      | pattern t => exact .select n s t rest choices
      | check c =>
        rw [step, stepIn]
        dsimp only
        rw [expand]
        cases h : c.run s with
        | error e => exact .raise n rest choices h
        | ok b =>
          cases b with
          | true => exact .pass n rest choices h
          | false => exact .fail n rest choices h
  | none =>
    cases choices with
    | nil => exact .done n
    | cons choice choices =>
      obtain ⟨s, t, rest, candidates⟩ := choice
      cases candidates with
      | nil => exact .close n s t rest choices
      | cons p ps =>
        rw [step, stepIn, backtrackIn]
        dsimp only
        cases hp : st.get? p with
        | none => exact .absent n s t rest ps choices hp
        | some e =>
          dsimp only
          rw [attemptIn_unbounded]
          cases hu : s.unifyTriple t (e.headAt n) with
          | some s' => exact .enter n rest ps choices hp hu
          | none => exact .skip n rest ps choices hp hu

/-- The transitions are the steps. -/
theorem transition_iff {search : Search} {taken : Step Search Bindings} :
    Transition st mode search taken ↔ search.step st mode = taken := by
  constructor
  · intro h
    have h' := transition_step st mode search
    generalize search.step st mode = taken' at h'
    cases h <;> cases h' <;> simp_all
  · rintro rfl
    exact transition_step st mode search

/-! ### Tasks -/

/-- What is left to be done: goals to be met under bindings. -/
def tasks (search : Search) : List (Bindings × List Goal) :=
  search.pending.toList ++
    search.choices.map fun choice => (choice.bindings, .pattern choice.pattern :: choice.rest)

theorem forall_mem_tasks_start {P : Bindings × List Goal → Prop} {s : Bindings} {goals : List Goal} {n : Nat} :
    (∀ task ∈ (start s goals n).tasks, P task) ↔ P (s, goals) :=
  List.forall_mem_singleton

/-- A task that a step leads to, with the numbers from which rules get their variables before and after. -/
inductive Leads (st : Store) (n : Nat) : Bindings × List Goal → Nat → Bindings × List Goal → Prop
  /-- The step was about another task, or about other candidates of the same one. -/
  | stay {n' : Nat} (task : Bindings × List Goal) : n ≤ n' → Leads st n task n' task
  /-- A check that holds was dropped. -/
  | pass {s : Bindings} {c : Check} (rest : List Goal) : c.run s = .ok true →
      Leads st n (s, .check c :: rest) n (s, rest)
  /-- A pattern was met by an entry. -/
  | enter {s s' : Bindings} {t : Triple} (rest : List Goal) {p : Nat} {e : Entry} : st.get? p = some e →
      s.unifyTriple t (e.headAt n) = some s' →
      Leads st n (s, .pattern t :: rest) (n + e.varCount) (s', e.bodyAt n ++ rest)

/-- Every task comes from a task. -/
theorem leads_of_mem_tasks {search : Search} {task' : Bindings × List Goal}
    (h : task' ∈ (search.step st mode).next.tasks) :
    ∃ task ∈ search.tasks, Leads st search.nextVar task (search.step st mode).next.nextVar task' := by
  have ht := transition_step st mode search
  generalize search.step st mode = taken at h ht
  cases ht with
  | answer n s choices => exact ⟨task', List.mem_append_right _ h, .stay _ le_rfl⟩
  | pass n rest choices hc =>
    obtain rfl | h := List.mem_cons.1 h
    · exact ⟨_, List.mem_cons_self, .pass rest hc⟩
    · exact ⟨task', List.mem_cons_of_mem _ h, .stay _ le_rfl⟩
  | fail n rest choices _ => exact ⟨task', List.mem_cons_of_mem _ h, .stay _ le_rfl⟩
  | raise => simp [tasks] at h
  | select n s t rest choices => exact ⟨task', h, .stay _ le_rfl⟩
  | done => exact ⟨task', h, .stay _ le_rfl⟩
  | close n s t rest choices => exact ⟨task', List.mem_cons_of_mem _ h, .stay _ le_rfl⟩
  | absent n s t rest ps choices _ => exact ⟨task', h, .stay _ le_rfl⟩
  | @enter n s s' t rest p ps choices e hp hu =>
    obtain rfl | h := List.mem_cons.1 h
    · exact ⟨_, List.mem_cons_self, .enter rest hp hu⟩
    · exact ⟨task', h, .stay _ (Nat.le_add_right _ _)⟩
  | skip n rest ps choices _ _ => exact ⟨task', h, .stay _ le_rfl⟩

/-- **What is kept from task to task holds of all tasks at all times.** -/
theorem tasks_invariant {Inv : Nat → Bindings × List Goal → Prop}
    (hleads : ∀ {n task n' task'}, Leads st n task n' task' → Inv n task → Inv n' task') {search : Search}
    (h : ∀ task ∈ search.tasks, Inv search.nextVar task) :
    ∀ task ∈ (search.step st mode).next.tasks, Inv (search.step st mode).next.nextVar task := by
  intro task' htask'
  obtain ⟨task, htask, hl⟩ := leads_of_mem_tasks htask'
  exact hleads hl (h task htask)

/-- What is kept from task to task is kept by any number of steps. -/
theorem tasks_invariant_after {Inv : Nat → Bindings × List Goal → Prop}
    (hleads : ∀ {n task n' task'}, Leads st n task n' task' → Inv n task → Inv n' task') (k : Nat) {search : Search}
    (h : ∀ task ∈ search.tasks, Inv search.nextVar task) :
    ∀ task ∈ (Step.after (step st mode) k search).tasks,
      Inv (Step.after (step st mode) k search).nextVar task := by
  induction k generalizing search with
  | zero => exact h
  | succ k ih => exact ih (tasks_invariant hleads h)

/-- An answer is a task without goals. -/
theorem mem_tasks_of_answer {search : Search} {s : Bindings} (h : (search.step st mode).progress = .answer s) :
    (s, []) ∈ search.tasks := by
  have ht := transition_step st mode search
  generalize search.step st mode = taken at h ht
  cases ht with
  | answer n s' choices =>
    cases h
    exact List.mem_cons_self
  | _ => cases h

/-! ### Errors and ends -/

/-- A search without tasks has come to its end for good. -/
theorem results_ended (st : Store) (mode : Retrieval) (m j : Nat) :
    Step.results (step st mode) j ⟨m, none, []⟩ = List.replicate j .done := by
  induction j with
  | zero => rfl
  | succ j ih =>
    rw [Step.results, transition_iff.1 (.done m), ih]
    rfl

/-- A search that met an error has given up everything. -/
theorem next_of_error {search : Search} {e : Uninstantiated} (h : (search.step st mode).progress = .error e) :
    (search.step st mode).next = ⟨search.nextVar, none, []⟩ := by
  have ht := transition_step st mode search
  generalize search.step st mode = taken at h ht ⊢
  cases ht with
  | raise => rfl
  | _ => cases h

/-- A search that is done does not change any more. -/
theorem next_of_done {search : Search} (h : (search.step st mode).progress = .done) :
    (search.step st mode).next = search ∧ search = ⟨search.nextVar, none, []⟩ := by
  have ht := transition_step st mode search
  generalize search.step st mode = taken at h ht ⊢
  cases ht with
  | done n => exact ⟨rfl, rfl⟩
  | _ => cases h

/-- An error comes from a check at the head of a task. -/
theorem exists_check_of_error {search : Search} {e : Uninstantiated}
    (h : (search.step st mode).progress = .error e) :
    ∃ s c rest, (s, .check c :: rest) ∈ search.tasks ∧ c.run s = .error e := by
  have ht := transition_step st mode search
  generalize search.step st mode = taken at h ht
  cases ht with
  | raise n rest choices hc =>
    cases h
    exact ⟨_, _, _, List.mem_cons_self, hc⟩
  | _ => cases h

/-- A search reports nothing of rows. -/
theorem incomplete_notMem_events (st : Store) (mode : Retrieval) (search : Search) (name : String) :
    .incomplete name ∉ (search.step st mode).events := by
  have ht := transition_step st mode search
  generalize search.step st mode = taken at ht ⊢
  cases ht with
  | @enter n s s' t rest p ps choices e _ _ => cases e <;> simp [Entry.onMatch]
  | @skip n s t rest p ps choices e _ _ => cases e <;> simp [Entry.onMiss]
  | _ => simp

/-! ### An example -/

/-- Asked for the descendants of Ann, the search answers Bob and comes to its end. -/
theorem pulls_family (mode : Retrieval) : ∃ search es,
    Step.Pulls (step .family mode) (start .empty [.descendants] 1)
      [.answer (((Bindings.empty.extend 1 (.str "ann")).extend 0 (.var 2)).extend 2 (.str "bob")), .done]
      search es := by
  cases mode with
  | indexed => exact ⟨_, _, .cons 10 (by rfl) (by simp) (.cons 10 (by rfl) (by simp) (.nil _))⟩
  | fullScan => exact ⟨_, _, .cons 10 (by rfl) (by simp) (.cons 10 (by rfl) (by simp) (.nil _))⟩

end Search

end TripleStore
