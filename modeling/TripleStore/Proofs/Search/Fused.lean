import TripleStore.Proofs.Search.Rows

/-!
# Streams stay at their end

A pull that brings the end or an error is the last one to bring anything. A search that meets an error gives up its
pending goals and all its open choices, and one that is done had none; either way nothing is left to be done
(`Search.idle_of_closes`). Rows are over when they have failed, or when nothing is left for their search to do
(`Rows.over_of_closes`). From then on a step changes nothing, and so does a pull (`Step.Fused`,
**`pulls_fused`**).
-/

namespace TripleStore

/-- The pull closes the stream: it brings the end or an error. -/
def Pulled.Closes {α : Type} : Pulled α → Prop
  | answer _ => False
  | error _ => True
  | done => True
  | outOfSteps => False

namespace Step

variable {σ α : Type} {step : σ → Step σ α} {s s' : σ} {r : Pulled α} {rs : List (Pulled α)} {es : List Event}

/-- Any number of pulls can be made, and all they bring is the end: the state stays as it is, and nothing is reported. -/
def Fused (step : σ → Step σ α) (s : σ) : Prop :=
  ∀ rs s' es, Pulls step s rs s' es ↔ (∃ k, rs = List.replicate k .done) ∧ s' = s ∧ es = []

theorem fused_of_step_eq (h : step s = ⟨.done, s, []⟩) : Fused step s := by
  have hbrings : Brings step s .done s [] := by
    have hnow : Brings step s .done (step s).next (step s).events := .now (by rw [h]; rfl)
    rwa [h] at hnow
  intro rs s' es
  constructor
  · intro hpulls
    induction rs generalizing s' es with
    | nil =>
      cases hpulls
      exact ⟨⟨0, rfl⟩, rfl, rfl⟩
    | cons r rs ih =>
      cases hpulls with
      | cons steps hr hne hpulls =>
        obtain ⟨rfl, hstate, hevents⟩ := (brings_of_pull hr hne).unique hbrings
        rw [hstate] at hpulls
        obtain ⟨⟨k, rfl⟩, rfl, rfl⟩ := ih _ _ hpulls
        exact ⟨⟨k + 1, rfl⟩, rfl, by rw [hevents]; rfl⟩
  · rintro ⟨⟨k, rfl⟩, rfl, rfl⟩
    induction k with
    | zero => exact .nil s'
    | succ k ih => exact .of_brings hbrings ih

/-- If a step that closes the stream leads to a state of some kind, and steps from there change nothing, then pulls of
which one closed the stream lead there. -/
theorem Pulls.final {Final : σ → Prop} (hfinal : ∀ s, Final s → step s = ⟨.done, s, []⟩)
    (hcloses : ∀ s r, (step s).progress.pulled? = some r → r.Closes → Final (step s).next)
    (h : Pulls step s rs s' es) (hrs : ∃ r ∈ rs, r.Closes) : Final s' := by
  have one {s r s' es} (h : Brings step s r s' es) (hr : r.Closes) : Final s' := by
    induction h with
    | now hp => exact hcloses _ _ hp hr
    | later _ _ ih => exact ih hr
  induction h with
  | nil s =>
    obtain ⟨r, hr, -⟩ := hrs
    cases hr
  | @cons s s' r rs es steps hr hne hpulls ih =>
    obtain ⟨r', hr', hclosed⟩ := hrs
    rcases List.mem_cons.1 hr' with rfl | hr'
    · -- the later pulls stay where the first one led
      have hstate := one (brings_of_pull hr hne) hclosed
      obtain ⟨-, rfl, -⟩ := (fused_of_step_eq (hfinal _ hstate) rs s' es).1 hpulls
      exact hstate
    · exact ih ⟨r', hr', hclosed⟩

end Step

/-! ### Searches and rows -/

namespace Search

variable {st : Store} {mode : Retrieval} {S : Search}

/-- Nothing is left to be done. -/
def Idle (S : Search) : Prop := S.pending = none ∧ S.choices = []

theorem Idle.step_eq (h : S.Idle) : S.step st mode = ⟨.done, S, []⟩ := by
  obtain ⟨n, pending, choices⟩ := S
  obtain ⟨rfl, rfl⟩ := h
  exact transition_iff.1 (.done n)

/-- A step that closes the search leaves nothing to be done, whatever choices were open. -/
theorem idle_of_closes {r : Pulled Bindings} (h : (S.step st mode).progress.pulled? = some r) (hr : r.Closes) :
    (S.step st mode).next.Idle := by
  cases hp : (S.step st mode).progress with
  | moved =>
    rw [hp] at h
    cases h
  | answer s =>
    rw [hp] at h
    cases h
    exact hr.elim
  | error e =>
    rw [next_of_error hp]
    exact ⟨rfl, rfl⟩
  | done =>
    obtain ⟨hnext, hended⟩ := next_of_done hp
    rw [hnext, hended]
    exact ⟨rfl, rfl⟩

end Search

namespace Rows

variable {st : Store} {mode : Retrieval} {query : Query} {rows : Rows}

/-- The rows have failed, or nothing is left for their search to do. -/
def Over (rows : Rows) : Prop := rows.failed = true ∨ rows.search.Idle

theorem Over.step_eq (h : rows.Over) : rows.step st mode query = ⟨.done, rows, []⟩ := by
  obtain ⟨search, failed⟩ := rows
  rw [step, stepBy]
  split
  · rfl
  · rename_i hfailed
    have hidle : search.Idle := h.resolve_left hfailed
    dsimp only
    rw [hidle.step_eq]

theorem over_of_closes {r : Pulled Row} (h : (rows.step st mode query).progress.pulled? = some r) (hr : r.Closes) :
    (rows.step st mode query).next.Over := by
  obtain ⟨search, failed⟩ := rows
  cases failed with
  | true => exact .inl rfl
  | false =>
    rw [step, stepBy, if_neg Bool.false_ne_true] at h ⊢
    dsimp only at h ⊢
    cases hp : (search.step st mode).progress with
    | moved =>
      rw [hp] at h
      cases h
    | answer s =>
      -- a solution with a row does not close the rows, and one without brings nothing
      rw [hp] at h
      cases hrow : Row.decode s query.vars with
      | ok row =>
        simp only [hrow, Progress.pulled?, Option.some.injEq] at h
        subst h
        exact hr.elim
      | error name =>
        simp only [hrow] at h
        cases h
    | error e => exact .inl rfl
    | done => exact .inr (Search.idle_of_closes (r := .done) (by rw [hp]; rfl) trivial)

end Rows

/-- **Streams are fused.** Once a pull from a search has brought an error or the end, nothing is left to be done,
whatever choices were open when the error was met: every later pull brings the end, leaves the state as it is and
reports nothing. The same holds of the rows of a query, whatever solutions without a row were skipped on the way. -/
theorem pulls_fused (st : Store) (mode : Retrieval) :
    (∀ {S S' : Search} {rs : List (Pulled Bindings)} {es : List Event},
      Step.Pulls (Search.step st mode) S rs S' es → (∃ r ∈ rs, r.Closes) →
        S'.pending = none ∧ S'.choices = [] ∧ Step.Fused (Search.step st mode) S') ∧
      ∀ (query : Query) {rows rows' : Rows} {rs : List (Pulled Row)} {es : List Event},
        Step.Pulls (Rows.step st mode query) rows rs rows' es → (∃ r ∈ rs, r.Closes) →
          Step.Fused (Rows.step st mode query) rows' := by
  refine ⟨fun {S S' rs es} h hrs => ?_, fun query {rows rows' rs es} h hrs => ?_⟩
  · have hidle : S'.Idle := h.final (fun _ => Search.Idle.step_eq) (fun _ _ => Search.idle_of_closes) hrs
    exact ⟨hidle.1, hidle.2, Step.fused_of_step_eq hidle.step_eq⟩
  · have hover : rows'.Over := h.final (fun _ => Rows.Over.step_eq) (fun _ _ => Rows.over_of_closes) hrs
    exact Step.fused_of_step_eq hover.step_eq

/-! ### An example -/

/-- Is something related to something by something, and is a fourth thing not Ann? The fourth is never bound. -/
def Query.undecided : Query where
  goals := [.pattern ⟨.var 0, .var 1, .var 2⟩, .check (.distinct (.var 3) (.str "ann"))]
  vars := [("x", 0)]
  scope := 4
  inScope := by decide

/-- Who is a parent? The answer is to name someone who is not asked for. -/
def Query.unnamed : Query where
  goals := [.pattern ⟨.var 0, .str "parent", .var 1⟩]
  vars := [("x", 2)]
  scope := 3
  inScope := by decide

/-- The check is met with the rule of the family still to be tried, and it is never tried; and when the only solution
has been skipped, the rows are over. -/
theorem pulls_fused_family : (∃ S es,
    Step.Pulls (Search.step .family .fullScan) (Search.start .empty Query.undecided.goals 4)
      [.error ⟨"neq", .var 3⟩] S es ∧ Step.Fused (Search.step .family .fullScan) S) ∧
    ∃ rows es, Step.Pulls (Rows.step .family .indexed .unnamed) (Rows.start .unnamed) [.done] rows es ∧
      .incomplete "x" ∈ es ∧ Step.Fused (Rows.step .family .indexed .unnamed) rows := by
  have hsearch : ∃ S es, Step.Pulls (Search.step .family .fullScan) (Search.start .empty Query.undecided.goals 4)
      [.error ⟨"neq", .var 3⟩] S es := ⟨_, _, .cons 10 (by rfl) (by simp) (.nil _)⟩
  have hrows : ∃ rows es, Step.Pulls (Rows.step .family .indexed .unnamed) (Rows.start .unnamed) [.done] rows es ∧
      .incomplete "x" ∈ es := by
    refine ⟨_, _, .cons 10 (by rfl) (by simp) (.nil _), ?_⟩
    have hevents : (Step.pull (Rows.step .family .indexed .unnamed) 10 (Rows.start .unnamed)).events.toList
        = [.goal ⟨.var 0, .str "parent", .var 1⟩ 1, .fact ⟨.str "ann", .str "parent", .str "bob"⟩ true, .solution 2,
          .incomplete "x"] := by rfl
    simp [hevents]
  obtain ⟨S, es, hsearch⟩ := hsearch
  obtain ⟨rows, es', hrows, hskipped⟩ := hrows
  exact ⟨⟨S, es, hsearch, ((pulls_fused .family .fullScan).1 hsearch ⟨_, List.mem_cons_self, trivial⟩).2.2⟩,
    rows, es', hrows, hskipped, (pulls_fused .family .indexed).2 .unnamed hrows ⟨_, List.mem_cons_self, trivial⟩⟩

end TripleStore
