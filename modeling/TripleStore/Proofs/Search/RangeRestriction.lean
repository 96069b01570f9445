import TripleStore.Proofs.Search.Freshness
import TripleStore.Proofs.Search.Rows

/-!
# Range restriction

A rule is range-restricted when each variable of its head occurs in a pattern of its body and each variable of a
check in a pattern before the check. Over such rules, a query whose checks come after the patterns that have
their variables never meets an argument that is not instantiated, its solutions give every variable of its
patterns a ground value, and it drops no solution whose names are variables of its patterns
(**`rows_of_rangeRestricted`**).

Both conditions are one: in `Guarded shown seen goals` the variables of every check are among `seen` or in a
pattern before it, and those of the terms `shown` are among `seen` or in some pattern (`guarded_iff`). This is
kept when variables are replaced (`Guarded.subst`), and goals that are guarded by what other goals show may come
after them (`Guarded.append`). What every task keeps (`Safe`) is that its goals, with the values of their
variables put in, are guarded: a pattern has the value of the head that it matches, which the body shows.
-/

namespace TripleStore

open Term

/-! ### Safe goals -/

/-- The variable occurs in a pattern among the goals. -/
def Goal.InPattern (goals : List Goal) (v : Nat) : Prop := ∃ t, .pattern t ∈ goals ∧ v ∈ t.vars

/-- Every variable of a check occurs in a pattern before the check. -/
def Goal.ChecksBound (goals : List Goal) : Prop :=
  ∀ before c after, goals = before ++ .check c :: after → ∀ v ∈ c.vars, InPattern before v

/-- Every variable of the head occurs in a pattern of the body, and every variable of a check in a pattern before
the check. -/
def Rule.RangeRestricted (r : Rule) : Prop :=
  (∀ v ∈ r.head.vars, Goal.InPattern r.body v) ∧ Goal.ChecksBound r.body

/-- The variables of every check are among `seen` or in a pattern before it, and those of the terms `shown` are
among `seen` or in some pattern. -/
def Guarded (shown : List Term) : (seen : List Nat) → List Goal → Prop
  | seen, [] => ∀ t ∈ shown, ∀ v ∈ t.vars, v ∈ seen
  | seen, .pattern t :: goals => Guarded shown (seen ++ t.vars) goals
  | seen, .check c :: goals => (∀ v ∈ c.vars, v ∈ seen) ∧ Guarded shown seen goals

instance Guarded.decidable (shown : List Term) :
    (seen : List Nat) → (goals : List Goal) → Decidable (Guarded shown seen goals)
  | seen, [] => inferInstanceAs (Decidable (∀ t ∈ shown, ∀ v ∈ t.vars, v ∈ seen))
  | seen, .pattern t :: goals => Guarded.decidable shown (seen ++ t.vars) goals
  | seen, .check c :: goals =>
    have := Guarded.decidable shown seen goals
    inferInstanceAs (Decidable ((∀ v ∈ c.vars, v ∈ seen) ∧ Guarded shown seen goals))

variable {shown : List Term} {seen seen' : List Nat} {goals : List Goal}

theorem Goal.inPattern_cons_pattern {t : Triple} {v : Nat} :
    InPattern (.pattern t :: goals) v ↔ v ∈ t.vars ∨ InPattern goals v := by
  simp [InPattern, or_and_right, exists_or]

theorem Goal.inPattern_cons_check {c : Check} {v : Nat} : InPattern (.check c :: goals) v ↔ InPattern goals v := by
  simp [InPattern]

/-- What it means that goals are guarded, check by check and term by term. -/
theorem guarded_iff : Guarded shown seen goals ↔
    (∀ before c after, goals = before ++ .check c :: after → ∀ v ∈ c.vars, v ∈ seen ∨ Goal.InPattern before v) ∧
      ∀ t ∈ shown, ∀ v ∈ t.vars, v ∈ seen ∨ Goal.InPattern goals v := by
  induction goals generalizing seen with
  | nil => simp [Guarded, Goal.InPattern]
  | cons g goals ih =>
    simp only [List.cons_eq_append_iff]
    cases g with
    | pattern t =>
      rw [Guarded, ih]
      simp only [List.mem_append, or_assoc, Goal.inPattern_cons_pattern]
      refine and_congr_left fun _ => ⟨fun h before c after heq v hv => ?_, fun h before c after heq v hv => ?_⟩
      · obtain ⟨-, heq⟩ | ⟨before, rfl, heq⟩ := heq
        · cases heq
        · exact (h before c after heq v hv).imp_right Goal.inPattern_cons_pattern.2
      · exact (h (.pattern t :: before) c after (.inr ⟨before, rfl, heq⟩) v hv).imp_right
          Goal.inPattern_cons_pattern.1
    | check c =>
      rw [Guarded, ih]
      simp only [Goal.inPattern_cons_check]
      rw [← and_assoc]
      refine and_congr_left fun _ => ⟨?_, fun h => ⟨fun v hv => ?_, fun before c' after heq v hv => ?_⟩⟩
      · rintro ⟨hc, h⟩ before c' after heq v hv
        obtain ⟨rfl, heq⟩ | ⟨before, rfl, heq⟩ := heq
        · cases heq
          exact .inl (hc v hv)
        · exact (h before c' after heq v hv).imp_right Goal.inPattern_cons_check.2
      · exact (h [] c goals (.inl ⟨rfl, rfl⟩) v hv).resolve_right (by simp [Goal.InPattern])
      · exact (h (.check c :: before) c' after (.inr ⟨before, rfl, heq⟩) v hv).imp_right
          Goal.inPattern_cons_check.1

theorem Rule.rangeRestricted_iff {r : Rule} : r.RangeRestricted ↔ Guarded r.head.toList [] r.body := by
  simp only [RangeRestricted, Goal.ChecksBound, guarded_iff, List.not_mem_nil, false_or, Triple.vars,
    varsAll_eq_flatMap, List.mem_flatMap]
  rw [and_comm]
  refine and_congr_right fun _ => ⟨fun h t ht v hv => h v ⟨t, ht, hv⟩, ?_⟩
  rintro h v ⟨t, ht, hv⟩
  exact h t ht v hv

theorem Guarded.mono (h : Guarded shown seen goals) (hseen : ∀ v ∈ seen, v ∈ seen') : Guarded shown seen' goals := by
  rw [guarded_iff] at h ⊢
  exact ⟨fun before c after heq v hv => (h.1 before c after heq v hv).imp_left (hseen v),
    fun t ht v hv => (h.2 t ht v hv).imp_left (hseen v)⟩

/-- Goals that are guarded by what other goals show may come after them. -/
theorem Guarded.append {mid : List Term} {goals' : List Goal} (h : Guarded mid seen goals)
    (h' : Guarded shown (varsAll mid) goals') : Guarded shown seen (goals ++ goals') := by
  induction goals generalizing seen with
  | nil =>
    refine h'.mono fun v hv => ?_
    rw [varsAll_eq_flatMap, List.mem_flatMap] at hv
    obtain ⟨t, ht, hv⟩ := hv
    exact h t ht v hv
  | cons g goals ih =>
    cases g with
    | pattern t => exact ih h
    | check c => exact ⟨h.1, ih h.2⟩

/-! ### Values put in -/

theorem Triple.mem_vars_map_subst {t : Triple} {f : Nat → Term} {w : Nat} :
    w ∈ (t.map (subst f)).vars ↔ ∃ v ∈ t.vars, w ∈ (f v).vars := by
  simp only [Triple.mem_vars, map, Term.mem_vars_subst, or_and_right, exists_or]

theorem Check.mem_vars_map_subst {c : Check} {f : Nat → Term} {w : Nat} :
    w ∈ (c.map (subst f)).vars ↔ ∃ v ∈ c.vars, w ∈ (f v).vars := by
  simp only [Check.mem_vars, Check.args_map, List.mem_map]
  constructor
  · rintro ⟨_, ⟨t, ht, rfl⟩, hw⟩
    obtain ⟨v, hv, hw⟩ := Term.mem_vars_subst.1 hw
    exact ⟨v, ⟨t, ht, hv⟩, hw⟩
  · rintro ⟨v, ⟨t, ht, hv⟩, hw⟩
    exact ⟨_, ⟨t, ht, rfl⟩, Term.mem_vars_subst.2 ⟨v, hv, hw⟩⟩

theorem Goal.map_map (f g : Term → Term) (goal : Goal) : (goal.map f).map g = goal.map fun t => g (f t) := by
  cases goal with
  | pattern t => rfl
  | check c =>
    cases c with
    | distinct left right => rfl
    | assert label args holds => simp [map, Check.map]

/-- Guarded goals stay guarded when their variables are replaced. -/
theorem Guarded.subst {f : Nat → Term} (h : Guarded shown seen goals)
    (hseen : ∀ v ∈ seen, ∀ w ∈ (f v).vars, w ∈ seen') :
    Guarded (shown.map (Term.subst f)) seen' (goals.map (Goal.map (Term.subst f))) := by
  induction goals generalizing seen seen' with
  | nil =>
    intro _ hmem w hw
    obtain ⟨t, ht, rfl⟩ := List.mem_map.1 hmem
    obtain ⟨v, hv, hw⟩ := Term.mem_vars_subst.1 hw
    exact hseen v (h t ht v hv) w hw
  | cons g goals ih =>
    cases g with
    | pattern t =>
      have h' : Guarded shown (seen ++ t.vars) goals := h
      refine ih h' fun v hv w hw => ?_
      rcases List.mem_append.1 hv with hv | hv
      · exact List.mem_append_left _ (hseen v hv w hw)
      · exact List.mem_append_right _ (Triple.mem_vars_map_subst.2 ⟨v, hv, hw⟩)
    | check c =>
      refine ⟨fun w hw => ?_, ih h.2 hseen⟩
      obtain ⟨v, hv, hw⟩ := Check.mem_vars_map_subst.1 hw
      exact hseen v (h.1 v hv) w hw

/-- The body of an entry shows its head, wherever its variables are renamed to. -/
theorem Entry.guarded {st : Store} (hst : ∀ r, .rule r ∈ st.entries → r.RangeRestricted) {p : Nat} {e : Entry}
    (hp : st.get? p = some e) (n : Nat) : Guarded (e.headAt n).toList [] (e.bodyAt n) := by
  cases e with
  | fact t ground =>
    intro u hu v hv
    have hground : u.isGround = true := List.all_eq_true.1 ground u hu
    exact absurd hv (isGround_iff.1 hground v)
  | rule r =>
    have hr : r.RangeRestricted := hst r (Array.mem_of_getElem? hp)
    exact (Rule.rangeRestricted_iff.1 hr).subst (by simp)

/-! ### Safe tasks -/

/-- Values that are found under bindings have the same values under more of them. -/
theorem Bindings.ExtendedBy.subst_value {s s' : Bindings} (h : s.ExtendedBy s') (hs' : s'.Acyclic) (t : Term) :
    (t.subst s.value).subst s'.value = t.subst s'.value := by
  rw [← reify_eq_subst, ← reify_eq_subst, ← reify_eq_subst, h.reify_reify hs']

namespace Search

variable {st : Store} {mode : Retrieval} {s s' : Bindings} {rest : List Goal} {n p : Nat}

/-- The goals of a task, with the values of their variables put in, are guarded and show the values of the given
terms. -/
structure Safe (shown : List Term) (task : Bindings × List Goal) : Prop where
  acyclic : task.1.Acyclic
  guarded : Guarded (shown.map (subst task.1.value)) [] (task.2.map (Goal.map (subst task.1.value)))

theorem safe_start (hs : s.Acyclic) (h : Guarded shown [] goals) : Safe shown (s, goals) :=
  ⟨hs, h.subst (by simp)⟩

theorem Safe.pass {c : Check} (h : Safe shown (s, .check c :: rest)) : Safe shown (s, rest) :=
  ⟨h.acyclic, h.guarded.2⟩

/-- A pattern may give way to the body of an entry that matches it: under the bindings it has the value of the
head, which the body shows. -/
theorem Safe.enter (hst : ∀ r, .rule r ∈ st.entries → r.RangeRestricted) {t : Triple} {e : Entry}
    (h : Safe shown (s, .pattern t :: rest)) (hp : st.get? p = some e)
    (hu : s.unifyTriple t (e.headAt n) = some s') : Safe shown (s', e.bodyAt n ++ rest) := by
  have hunified := Bindings.unified_of_unifyTriple h.acyclic hu
  have hhead : t.map (subst s'.value) = (e.headAt n).map (subst s'.value) :=
    (Bindings.equal_of_unifyTriple h.acyclic hu).2
  have hvalue : ∀ u : Term, (u.subst s.value).subst s'.value = u.subst s'.value :=
    hunified.extended.subst_value hunified.acyclic
  have hbody : Guarded ((e.headAt n).map (subst s'.value)).toList [] ((e.bodyAt n).map (Goal.map (subst s'.value))) :=
    (Entry.guarded hst hp n).subst (by simp)
  have hrest : Guarded (shown.map (subst s'.value)) (t.map (subst s'.value)).vars
      (rest.map (Goal.map (subst s'.value))) := by
    have hbefore : Guarded (shown.map (subst s.value)) (t.map (subst s.value)).vars
        (rest.map (Goal.map (subst s.value))) := h.guarded
    have hafter := hbefore.subst (f := s'.value) fun v hv w hw => Triple.mem_vars_map_subst.2 ⟨v, hv, hw⟩
    simpa only [List.map_map, Function.comp_def, Goal.map_map, Triple.map_map, hvalue] using hafter
  refine ⟨hunified.acyclic, ?_⟩
  rw [List.map_append]
  exact hbody.append (hhead ▸ hrest)

theorem Safe.leads (hst : ∀ r, .rule r ∈ st.entries → r.RangeRestricted) {n' : Nat}
    {task task' : Bindings × List Goal} (hl : Leads st n task n' task') (h : Safe shown task) : Safe shown task' := by
  cases hl with
  | stay _ _ => exact h
  | pass rest _ => exact h.pass
  | enter rest hp hu => exact h.enter hst hp hu

/-- The arguments of a check at the head of a safe task are instantiated. -/
theorem Safe.exists_run {c : Check} (h : Safe shown (s, .check c :: rest)) : ∃ b, c.run s = .ok b := by
  refine Check.exists_run fun t ht => isGround_iff.2 fun v hv => ?_
  rw [Bindings.reify_eq_subst, mem_vars_subst] at hv
  obtain ⟨u, hu, hv⟩ := hv
  have hmem : v ∈ (c.map (subst s.value)).vars :=
    Check.mem_vars_map_subst.2 ⟨u, Check.mem_vars.2 ⟨t, ht, hu⟩, hv⟩
  exact absurd (h.guarded.1 v hmem) List.not_mem_nil

/-- A safe task without goals shows ground values. -/
theorem Safe.isGround (h : Safe shown (s, [])) : ∀ t ∈ shown, (s.reify t).isGround = true := by
  refine fun t ht => isGround_iff.2 fun v hv => ?_
  rw [Bindings.reify_eq_subst] at hv
  exact absurd (h.guarded _ (List.mem_map_of_mem ht) v hv) List.not_mem_nil

/-- From a safe task no pull is an error, and every answer gives the terms that are shown ground values. -/
theorem Safe.pulls (hst : ∀ r, .rule r ∈ st.entries → r.RangeRestricted) (h : Safe shown (s, goals))
    {rs : List (Pulled Bindings)} {search : Search} {es : List Event}
    (hpulls : Step.Pulls (step st mode) (start s goals n) rs search es) :
    ∀ r ∈ rs, (∀ e, r ≠ .error e) ∧ ∀ s', r = .answer s' → ∀ t ∈ shown, (s'.reify t).isGround = true := by
  have hnext : ∀ search : Search, (∀ task ∈ search.tasks, Safe shown task) →
      ∀ task ∈ (search.step st mode).next.tasks, Safe shown task :=
    fun search htasks => tasks_invariant (Safe.leads hst) htasks
  refine (hpulls.invariant hnext (fun search r htasks hr => ⟨?_, ?_⟩) (forall_mem_tasks_start.2 h)).2
  · rintro e rfl
    obtain ⟨s, c, rest, hmem, hc⟩ := exists_check_of_error (Progress.eq_error_of_pulled? hr)
    obtain ⟨b, hb⟩ := (htasks _ hmem).exists_run
    rw [hb] at hc
    cases hc
  · rintro s' rfl
    exact (htasks _ (mem_tasks_of_answer (Progress.eq_answer_of_pulled? hr))).isGround

end Search

/-! ### Rows -/

/-- The positions of the patterns among the goals. -/
def Goal.patternTerms (goals : List Goal) : List Term :=
  goals.flatMap fun
    | .pattern t => t.toList
    | .check _ => []

theorem Goal.ChecksBound.guarded (h : ChecksBound goals) : Guarded (patternTerms goals) [] goals := by
  refine guarded_iff.2 ⟨fun before c after heq v hv => .inr (h before c after heq v hv), fun u hu v hv => .inr ?_⟩
  obtain ⟨g, hg, hu⟩ := List.mem_flatMap.1 hu
  cases g with
  | pattern t =>
    refine ⟨t, hg, ?_⟩
    rw [Triple.vars, varsAll_eq_flatMap]
    exact List.mem_flatMap.2 ⟨u, hu, hv⟩
  | check c => exact absurd hu List.not_mem_nil

/-- Where the positions of patterns have ground values, so have their variables. -/
theorem Goal.InPattern.isGround {v : Nat} (hv : InPattern goals v) {s : Bindings}
    (h : ∀ t ∈ patternTerms goals, (s.reify t).isGround = true) : (s.reify (.var v)).isGround = true := by
  obtain ⟨t, ht, hv⟩ := hv
  rw [Triple.vars, varsAll_eq_flatMap] at hv
  obtain ⟨u, hu, hv⟩ := List.mem_flatMap.1 hv
  have hground := h u (List.mem_flatMap.2 ⟨_, ht, hu⟩)
  rw [isGround_iff, Bindings.reify_eq_subst] at hground
  exact isGround_iff.2 fun w hw => hground w (mem_vars_subst.2 ⟨v, hv, hw⟩)

theorem forall₂_filterMap {α β : Type} {f : α → Option β} {as : List α} (h : ∀ a ∈ as, ∃ b, f a = some b) :
    List.Forall₂ (fun a b => f a = some b) as (as.filterMap f) := by
  induction as with
  | nil => exact .nil
  | cons a as ih =>
    obtain ⟨⟨b, hb⟩, has⟩ := List.forall_mem_cons.1 h
    rw [List.filterMap_cons_some hb]
    exact .cons hb (ih has)

section Results

variable {st : Store} (hst : ∀ r, .rule r ∈ st.entries → r.RangeRestricted) {query : Query}
  (hquery : Goal.ChecksBound query.goals) (mode : Retrieval) (k : Nat)

include hst hquery

/-- What a search brings over range-restricted rules is no error, and answers give the variables of patterns ground
values. -/
theorem Search.isGround_of_results : ∀ r ∈ Step.results (Search.step st mode) k (Rows.start query).search,
    (∀ e, r ≠ .error e) ∧ ∀ s, r = .answer s → ∀ v, Goal.InPattern query.goals v →
      (s.reify (.var v)).isGround = true := by
  have hsafe := Search.safe_start Bindings.acyclic_empty hquery.guarded
  obtain ⟨_, _, hpulls⟩ := Step.pulls_results (Search.step st mode) k (Rows.start query).search
  intro r hr
  obtain ⟨herror, hground⟩ := hsafe.pulls hst hpulls r hr
  exact ⟨herror, fun s hs v hv => hv.isGround (hground s hs)⟩

variable (hvars : ∀ x ∈ query.vars, Goal.InPattern query.goals x.2)

include hvars

theorem Search.exists_row_of_results {s : Bindings}
    (hs : .answer s ∈ Step.results (Search.step st mode) k (Rows.start query).search) :
    ∃ row, query.row? s = some row :=
  Query.exists_row fun x hx => (Search.isGround_of_results hst hquery mode k _ hs).2 s rfl x.2 (hvars x hx)

theorem Rows.incomplete_notMem_reported (name : String) :
    .incomplete name ∉ Step.reported (Rows.step st mode query) k (Rows.start query) := by
  intro hname
  obtain ⟨s, hs, hnone⟩ := Rows.exists_answer_of_incomplete (Rows.steady_start query) hname
  obtain ⟨row, hsome⟩ := Search.exists_row_of_results hst hquery mode k hvars hs
  rw [hnone] at hsome
  cases hsome

end Results

/-- **Safe queries over range-restricted rules raise no error and drop no row.** If every rule is
range-restricted and every variable of a check of the query occurs in a pattern before the check, then no pull
of a row is an error, and every solution gives all variables of the patterns of the query ground values. If
moreover every name stands for a variable of a pattern, then in any number of steps no solution is reported as
incomplete, and the rows bring all that the search brings, each solution as its row. -/
theorem rows_of_rangeRestricted {st : Store} (hst : ∀ r, .rule r ∈ st.entries → r.RangeRestricted) {query : Query}
    (hquery : Goal.ChecksBound query.goals) (mode : Retrieval) :
    (∀ {rs rows es}, Step.Pulls (Rows.step st mode query) (Rows.start query) rs rows es → ∀ e, .error e ∉ rs) ∧
    (∀ {rs search es}, Step.Pulls (Search.step st mode) (Rows.start query).search rs search es →
      ∀ s, .answer s ∈ rs → ∀ v, Goal.InPattern query.goals v → (s.reify (.var v)).isGround = true) ∧
    ((∀ x ∈ query.vars, Goal.InPattern query.goals x.2) → ∀ k,
      (∀ name, .incomplete name ∉ Step.reported (Rows.step st mode query) k (Rows.start query)) ∧
        List.Forall₂ (fun r row => query.pulledRow? r = some row)
          (Step.results (Search.step st mode) k (Rows.start query).search)
          (Step.results (Rows.step st mode query) k (Rows.start query))) := by
  have hresults := Search.isGround_of_results hst hquery mode
  have hrows (k : Nat) := Rows.results_rows st mode query k (Rows.steady_start query)
  refine ⟨fun h e he => ?_, fun h s hs => ?_, fun hvars k => ?_⟩
  · obtain ⟨k, rfl, -⟩ := h.exists_results
    rw [hrows, List.mem_filterMap] at he
    obtain ⟨r, hr, hpulled⟩ := he
    exact (hresults k r hr).1 e (Query.eq_error_of_pulledRow? hpulled)
  · obtain ⟨k, rfl, -⟩ := h.exists_results
    exact (hresults k _ hs).2 s rfl
  · refine ⟨Rows.incomplete_notMem_reported hst hquery mode k hvars, ?_⟩
    rw [hrows]
    refine forall₂_filterMap fun r hr => ?_
    cases r with
    | answer s =>
      obtain ⟨row, hsome⟩ := Search.exists_row_of_results hst hquery mode k hvars hr
      exact ⟨.answer row, by rw [Query.pulledRow?, hsome]; rfl⟩
    | error e => exact absurd rfl ((hresults k _ hr).1 e)
    | done => exact ⟨.done, rfl⟩
    | outOfSteps => exact ⟨.outOfSteps, rfl⟩

theorem Rule.rangeRestricted_ancestor : ancestor.RangeRestricted := rangeRestricted_iff.2 (by decide)

/-- In a family no descendant raises an error or is dropped. -/
theorem rows_of_rangeRestricted_family :
    (∀ r, .rule r ∈ Store.family.entries → r.RangeRestricted) ∧ Goal.ChecksBound Query.otherDescendants.goals ∧
      ∀ k name, .incomplete name ∉
        Step.reported (Rows.step .family .indexed .otherDescendants) k (Rows.start .otherDescendants) := by
  have hrules : ∀ r, .rule r ∈ Store.family.entries → r.RangeRestricted := by
    intro r hr
    obtain rfl : r = .ancestor := by
      simpa [Store.family, Store.push, Store.addRule, Store.withReferences] using hr
    exact Rule.rangeRestricted_ancestor
  have hguarded : Guarded [.var 0] [] Query.otherDescendants.goals := by decide
  obtain ⟨hchecks, hnames⟩ := guarded_iff.1 hguarded
  simp only [List.not_mem_nil, false_or] at hchecks hnames
  refine ⟨hrules, hchecks, fun k => ?_⟩
  refine ((rows_of_rangeRestricted hrules hchecks .indexed).2.2 (fun x hx => ?_) k).1
  obtain rfl : x = ("x", 0) := List.mem_singleton.1 hx
  exact hnames _ List.mem_cons_self 0 List.mem_cons_self

end TripleStore
