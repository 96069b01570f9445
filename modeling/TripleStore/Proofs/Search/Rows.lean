import TripleStore.Proofs.Search.Transition
import TripleStore.Search.Rows

/-!
# The rows of a query and its search

A step to the next row takes one step of the search (`step_follows`), so the rows bring what the search brings:
each solution as the row that it is decoded to, or not at all when it leaves a name without a ground value, then
the error or the end (`results_rows`). Only such a solution is reported as incomplete
(`exists_answer_of_incomplete`).
-/

namespace TripleStore

/-- The row of a solution, if it gives every name a ground value. -/
def Query.row? (query : Query) (s : Bindings) : Option Row := (Row.decode s query.vars).toOption

/-- What comes to the rows of a query of what comes from its search. -/
def Query.pulledRow? (query : Query) : Pulled Bindings → Option (Pulled Row)
  | .answer s => (query.row? s).map .answer
  | .error e => some (.error e)
  | .done => some .done
  | .outOfSteps => some .outOfSteps

/-- An error comes from an error. -/
theorem Query.eq_error_of_pulledRow? {query : Query} {r : Pulled Bindings} {e : Uninstantiated}
    (h : query.pulledRow? r = some (.error e)) : r = .error e := by
  cases r with
  | answer s =>
    rw [pulledRow?, Option.map_eq_some_iff] at h
    obtain ⟨row, -, hrow⟩ := h
    cases hrow
  | error e' =>
    cases h
    rfl
  | done => cases h
  | outOfSteps => cases h

/-- The end comes from the end. -/
theorem Query.eq_done_of_pulledRow? {query : Query} {r : Pulled Bindings}
    (h : query.pulledRow? r = some .done) : r = .done := by
  cases r with
  | answer s =>
    rw [pulledRow?, Option.map_eq_some_iff] at h
    obtain ⟨row, -, hrow⟩ := h
    cases hrow
  | error e => cases h
  | done => rfl
  | outOfSteps => cases h

theorem mapM_congr {α β ε : Type} {f g : α → Except ε β} {as : List α} (h : ∀ a ∈ as, f a = g a) :
    as.mapM f = as.mapM g := by
  induction as with
  | nil => rfl
  | cons a as ih =>
    obtain ⟨ha, has⟩ := List.forall_mem_cons.1 h
    rw [List.mapM_cons, List.mapM_cons, ha, ih has]

theorem mapM_eq_ok {α β ε : Type} {f : α → Except ε β} {g : α → β} {as : List α} (h : ∀ a ∈ as, f a = .ok (g a)) :
    as.mapM f = .ok (as.map g) :=
  (mapM_congr h).trans List.mapM_pure

/-- What is read off a solution depends on the values of the names only. -/
theorem Row.decode_congr {s s' : Bindings} {vars : List (String × Nat)}
    (h : ∀ x ∈ vars, s.resolve? x.2 = s'.resolve? x.2) : decode s vars = decode s' vars := by
  unfold decode
  congr 1
  refine mapM_congr fun x hx => ?_
  have hx := h x hx
  obtain ⟨name, v⟩ := x
  dsimp only at hx ⊢
  rw [hx]

theorem Row.decode_eq_ok {s : Bindings} {vars : List (String × Nat)}
    (h : ∀ x ∈ vars, (s.reify (.var x.2)).isGround = true) :
    decode s vars = .ok ⟨Fields.ofList (vars.map fun x => (x.1, s.reify (.var x.2)))⟩ := by
  unfold decode
  rw [mapM_eq_ok (g := fun x : String × Nat => (x.1, s.reify (.var x.2)))]
  · rfl
  · intro x hx
    have hresolve : s.resolve? x.2 = some (s.reify (.var x.2)) := if_pos (h x hx)
    obtain ⟨name, v⟩ := x
    dsimp only at hresolve ⊢
    rw [hresolve]

/-- A solution that gives every name a ground value has a row. -/
theorem Query.exists_row {query : Query} {s : Bindings}
    (h : ∀ x ∈ query.vars, (s.reify (.var x.2)).isGround = true) : ∃ row, query.row? s = some row :=
  ⟨_, by rw [row?, Row.decode_eq_ok h]; rfl⟩

namespace Rows

variable {st : Store} {mode : Retrieval} {query : Query} {rows : Rows}

/-- After an error the search has nothing left to be done. -/
def Steady (rows : Rows) : Prop := rows.failed = true → ∃ n, rows.search = ⟨n, none, []⟩

theorem steady_start (query : Query) : (start query).Steady := fun h => Bool.noConfusion h

/-- A step to the next row follows a step of the search, and reports a solution as incomplete only when it has
no row. -/
theorem step_follows (st : Store) (mode : Retrieval) (query : Query) (h : rows.Steady) :
    (rows.step st mode query).next.search = (rows.search.step st mode).next ∧
      (rows.step st mode query).next.Steady ∧
      (rows.step st mode query).progress.pulled?.toList
        = (rows.search.step st mode).progress.pulled?.toList.filterMap query.pulledRow? ∧
      ∀ name, .incomplete name ∈ (rows.step st mode query).events →
        ∃ s, (rows.search.step st mode).progress = .answer s ∧ query.row? s = none := by
  obtain ⟨search, failed⟩ := rows
  cases failed with
  | true =>
    -- the search of failed rows is at its end
    obtain ⟨n, rfl⟩ := h rfl
    exact ⟨rfl, h, rfl, fun name hname => absurd hname List.not_mem_nil⟩
  | false =>
    have hquiet := Search.incomplete_notMem_events st mode search
    rw [Rows.step, Rows.stepBy, if_neg Bool.false_ne_true]
    dsimp only
    cases hp : (search.step st mode).progress with
    | moved => exact ⟨rfl, fun h => Bool.noConfusion h, rfl, fun name hname => absurd hname (hquiet name)⟩
    | answer s =>
      dsimp only
      cases hrow : Row.decode s query.vars with
      | ok row =>
        refine ⟨rfl, fun h => Bool.noConfusion h, ?_, fun name hname => absurd hname (hquiet name)⟩
        simp [Progress.pulled?, Query.pulledRow?, Query.row?, hrow, Except.toOption]
      | error name =>
        have hnone : query.row? s = none := by rw [Query.row?, hrow]; rfl
        refine ⟨rfl, fun h => Bool.noConfusion h, ?_, fun _ _ => ⟨s, rfl, hnone⟩⟩
        simp [Progress.pulled?, Query.pulledRow?, hnone]
    | error e => exact ⟨rfl, fun _ => ⟨_, Search.next_of_error hp⟩, rfl, fun name hname => absurd hname (hquiet name)⟩
    | done => exact ⟨rfl, fun h => Bool.noConfusion h, rfl, fun name hname => absurd hname (hquiet name)⟩

/-- **The rows bring what the search brings**, with every solution decoded and without those that have no row. -/
theorem results_rows (st : Store) (mode : Retrieval) (query : Query) (k : Nat) (h : rows.Steady) :
    Step.results (Rows.step st mode query) k rows
      = (Step.results (Search.step st mode) k rows.search).filterMap query.pulledRow? := by
  induction k generalizing rows with
  | zero => rfl
  | succ k ih =>
    obtain ⟨hsearch, hsteady, hpulled, -⟩ := step_follows st mode query h
    rw [Step.results, Step.results, List.filterMap_append, hpulled, ih hsteady, hsearch]

/-- What is reported as incomplete is a solution without a row. -/
theorem exists_answer_of_incomplete {k : Nat} {name : String} (h : rows.Steady)
    (hname : .incomplete name ∈ Step.reported (Rows.step st mode query) k rows) :
    ∃ s, .answer s ∈ Step.results (Search.step st mode) k rows.search ∧ query.row? s = none := by
  induction k generalizing rows with
  | zero => exact absurd hname List.not_mem_nil
  | succ k ih =>
    obtain ⟨hsearch, hsteady, -, hincomplete⟩ := step_follows st mode query h
    rw [Step.results]
    rcases List.mem_append.1 hname with hname | hname
    · obtain ⟨s, hs, hrow⟩ := hincomplete name hname
      exact ⟨s, List.mem_append_left _ (by simp [hs, Progress.pulled?]), hrow⟩
    · obtain ⟨s, hs, hrow⟩ := ih hsteady hname
      exact ⟨s, List.mem_append_right _ (hsearch ▸ hs), hrow⟩

end Rows

/-! ### An example -/

/-- The descendants of Ann other than herself. -/
def Query.otherDescendants : Query where
  goals := [.descendants, .check (.distinct (.var 0) (.str "ann"))]
  vars := [("x", 0)]
  scope := 1
  inScope := by decide

end TripleStore
