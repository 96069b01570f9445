import TripleStore.Database.Basic
import TripleStore.Proofs.Search.Decoding
import TripleStore.Proofs.Search.Drains
import TripleStore.Proofs.Search.Underived

/-!
# Questions for one name

A database answers some questions by a query whose goals mention one named variable (`Query.Asks`): the rows are the
values of this variable. When a resolution gives values (`Resolution.Gives`), the rows of the query are those, and come
to their end (`Query.Asks.exhausts`); the database then finds them all, with every bound on the number of steps that is
large enough (`Database.allRows_eq`). Where it finds them all, it finds the first of them (`Database.firstRow_of_allRows`).
-/

namespace TripleStore

variable {st : Store} {db : Database} {query : Query} {name : String} {goals : List Goal}

theorem Traced.result_bind {α β : Type} {x : Traced α} {a : α} (h : x.result = .ok a) (f : α → Traced β) :
    (x >>= f).result = (f a).result := by
  show (Traced.bind x f).result = _
  rw [Traced.bind, h]

theorem Traced.exists_of_result_bind {α β : Type} {x : Traced α} {f : α → Traced β} {b : β}
    (h : (x >>= f).result = .ok b) : ∃ a, x.result = .ok a ∧ (f a).result = .ok b := by
  cases hx : x.result with
  | ok a => exact ⟨a, rfl, by rwa [result_bind hx] at h⟩
  | error e =>
    have hbind : (Traced.bind x f).result = .ok b := h
    rw [Traced.bind, hx] at hbind
    cases hbind

/-! ### The query -/

/-- The query asks for the values of the first variable under the name. -/
structure Query.Asks (query : Query) (name : String) (goals : List Goal) : Prop where
  goals : query.goals = goals
  vars : query.vars = [(name, 0)]
  scope : query.scope = 1

theorem Database.asks_of_queryOf {goals : Term → List Goal} (h : (queryOf name goals).result = .ok query) :
    query.Asks name (goals (.var 0)) := by
  have heq : queryOf name goals = Traced.lift
      ((Query.ofGoals? ⟨[some name]⟩ (goals (.var 0))).mapError fun cause => .error (.invalid cause)) := rfl
  rw [heq, Traced.lift] at h
  cases hquery : Query.ofGoals? ⟨[some name]⟩ (goals (.var 0)) with
  | error cause =>
    rw [hquery] at h
    cases h
  | ok query' =>
    rw [hquery] at h
    cases h
    obtain ⟨hgoals, hvars, hscope⟩ := Query.ofGoals?_eq_ok hquery
    exact ⟨hgoals, hvars, hscope⟩

/-- There is such a query for goals without other variables. -/
theorem Database.exists_queryOf (name : String) {goals : Term → List Goal}
    (h : ∀ g ∈ goals (.var 0), ∀ v ∈ g.vars, v = 0) : ∃ query, (queryOf name goals).result = .ok query := by
  have hinScope : ∀ g ∈ goals (.var 0), ∀ v ∈ g.vars, v < Scope.size ⟨[some name]⟩ := by
    intro g hg v hv
    rw [h g hg v hv]
    exact Nat.one_pos
  obtain ⟨query, hquery⟩ := Query.exists_ofGoals? hinScope
  have heq : queryOf name goals = Traced.lift
      ((Query.ofGoals? ⟨[some name]⟩ (goals (.var 0))).mapError fun cause => .error (.invalid cause)) := rfl
  refine ⟨query, ?_⟩
  rw [heq, hquery]
  rfl

/-! ### Its rows -/

/-- A row with one field. -/
def Row.single (name : String) (value : Term) : Row := ⟨[(name, value)]⟩

theorem Row.get?_single (name : String) (value : Term) : (single name value).get? name = some value := by
  simp [single, get?, Fields.get?]

theorem Row.filterMap_get?_single (name : String) (values : List Term) :
    (values.map (single name)).filterMap (fun row => row.get? name) = values := by
  have hget : ((fun row : Row => row.get? name) ∘ single name) = some := funext (get?_single name)
  rw [List.filterMap_map, hget, List.filterMap_some]

theorem Query.Asks.row?_eq (h : query.Asks name goals) {s : Bindings} (hs : (s.reify (.var 0)).isGround = true) :
    query.row? s = some (.single name (s.reify (.var 0))) := by
  rw [row?, h.vars, Row.decode_eq_ok]
  · rfl
  · intro x hx
    obtain rfl := List.mem_singleton.1 hx
    exact hs

/-- Every row has a value under the name. -/
theorem Query.Asks.exists_get? (h : query.Asks name goals) {s : Bindings} {row : Row}
    (hrow : query.row? s = some row) : ∃ value, row.get? name = some value := by
  cases hs : (s.reify (.var 0)).isGround with
  | true =>
    rw [h.row?_eq hs] at hrow
    cases hrow
    exact ⟨_, Row.get?_single _ _⟩
  | false =>
    have hdecode : Row.decode s query.vars = .error name := by
      have hbefore : ∀ x ∈ ([] : List (String × Nat)), (s.reify (.var x.2)).isGround = true := by simp
      rw [h.vars]
      exact Row.decode_eq_error hbefore hs
    rw [row?, hdecode] at hrow
    cases hrow

/-- The resolution is exhausted, and its answers give the first variable these values. -/
def Resolution.Gives (A : Resolution (Bindings × Nat)) (values : List Term) : Prop :=
  A.stop = .exhausted ∧ A.answers.map (fun a => a.1.reify (.var 0)) = values

theorem Resolution.Gives.concat {α : Type} {as : List α} {F : α → Resolution (Bindings × Nat)} {f : α → List Term}
    (h : ∀ a ∈ as, (F a).Gives (f a)) : (concat (as.map F)).Gives (as.flatMap f) := by
  have hstop : (Resolution.concat (as.map F)).stop = .exhausted :=
    concat_exhausted_iff.2 (List.forall_mem_map.2 fun a ha => (h a ha).1)
  refine ⟨hstop, ?_⟩
  rw [answers_concat hstop, List.flatMap_map, List.map_flatMap]
  exact List.flatMap_congr fun a ha => (h a ha).2

/-- What a fact gives for a pattern: some values in the case that the fact can be the value of the pattern. -/
theorem Store.resolveFact_gives {P : Prop} [Decidable P] {s : Bindings} {n : Nat} {t u : Triple}
    {rest : Bindings × Nat → Resolution (Bindings × Nat)} {values : List Term} (hs : s.Acyclic) (hu : u.isGround = true)
    (hrest : ∀ s', s'.Acyclic → s.ExtendedBy s' → t.map s'.reify = u → P ∧ (rest (s', n)).Gives values)
    (hvalue : P → ∃ τ, s.RespectedBy τ ∧ t.map (Term.subst τ) = u) :
    (resolveFact s n t rest u).Gives (if P then values else []) := by
  rw [resolveFact]
  rcases Bindings.unifyTriple_ground_cases hs t hu with ⟨s', hs', hacyclic, hextended, hreify⟩ | ⟨hnone, hne⟩
  · obtain ⟨hP, hgives⟩ := hrest s' hacyclic hextended hreify
    rw [hs', if_pos hP]
    exact hgives
  · have hP : ¬P := fun h => by
      obtain ⟨τ, hτ, heq⟩ := hvalue h
      exact hne τ hτ heq
    rw [hnone, if_neg hP]
    exact ⟨rfl, rfl⟩

/-- **The rows of the query** are the values that the resolver gives. -/
theorem Query.Asks.exhausts (h : query.Asks name goals) (hst : st.Reachable) (mode : Retrieval) {values : List Term}
    (hvalues : (st.resolve .fullScan 1 .empty 1 goals).Gives values) (hground : ∀ t ∈ values, t.isGround = true) :
    Step.Exhausts (Rows.step st mode query) (Rows.start query) (values.map (.single name)) := by
  have hvars : ∀ x ∈ query.vars, x.2 < query.scope := by
    rw [h.vars, h.scope]
    simp
  refine (Rows.exhausts_iff_resolve hst hvars).2 ⟨1, ?_, ?_⟩
  · rw [h.goals, h.scope]
    exact hvalues.1
  · rw [h.goals, h.scope, ← hvalues.2, List.map_map, ← List.filterMap_eq_map]
    refine List.filterMap_congr fun a ha => (h.row?_eq (hground _ ?_)).symm
    rw [← hvalues.2]
    exact List.mem_map_of_mem ha

/-! ### Finding them -/

namespace Database

variable {rows : List Row} {steps steps' : Nat}

/-- All rows are found. -/
theorem allRows_eq (h : Step.Exhausts (db.rowStep query) (.start query) rows) :
    ∃ bound, ∀ steps, bound ≤ steps → (db.allRows steps query).result = .ok rows := by
  obtain ⟨bound, hdrain⟩ := h.drain
  refine ⟨bound, fun steps hsteps => ?_⟩
  obtain ⟨hitems, hending⟩ := hdrain steps hsteps
  have hitems : (db.rows steps query none).items.toList = rows := hitems
  have hending : (db.rows steps query none).ending = .exhausted := hending
  simp only [allRows, hending, hitems]

/-- All rows of a query are found when they have been drained to their end. -/
theorem allRows_eq_ok (h : (db.allRows steps query).result = .ok rows) :
    (db.rows steps query none).ending = .exhausted ∧ rows = (db.rows steps query none).items.toList := by
  have hlimit : (db.rows steps query none).ending ≠ .limit := Step.ending_drainFrom_ne_limit _ _ _ _
  simp only [allRows] at h
  cases hending : (db.rows steps query none).ending with
  | exhausted =>
    rw [hending] at h
    cases h
    exact ⟨rfl, rfl⟩
  | limit => exact absurd hending hlimit
  | error e =>
    rw [hending] at h
    cases h
  | outOfSteps =>
    rw [hending] at h
    cases h

/-- Where all rows are found, so is the first of them. -/
theorem firstRow_of_allRows (h : (db.allRows steps query).result = .ok rows) (hle : steps ≤ steps') :
    (db.firstRow steps' query).result = .ok rows.head? := by
  obtain ⟨hending, rfl⟩ := allRows_eq_ok h
  have hpull : (Step.pull (db.rowStep query) steps' (.start query)).result
      = .first (db.rows steps query none).items.toList := Step.pull_of_drain hending hle
  simp only [firstRow, hpull]
  cases (db.rows steps query none).items.toList <;> rfl

/-- A row that is found is that of a solution. -/
theorem exists_row?_of_allRows (h : (db.allRows steps query).result = .ok rows) {row : Row}
    (hrow : row ∈ rows) : ∃ s, query.row? s = some row := by
  obtain ⟨hending, rfl⟩ := allRows_eq_ok h
  obtain ⟨n, -, as, has, hitems⟩ := Step.exists_results_of_drainFrom hending
  have hitems : (db.rows steps query none).items.toList = as := hitems
  have hmem : .answer row ∈ Step.results (db.rowStep query) n (.start query) := by
    rw [has]
    exact List.mem_append_left _ (List.mem_map_of_mem (hitems ▸ hrow))
  have hresults : Step.results (db.rowStep query) n (.start query) = _ :=
    Rows.results_rows db.store db.retrieval query n (Rows.steady_start query)
  rw [hresults] at hmem
  obtain ⟨r, -, hr⟩ := List.mem_filterMap.1 hmem
  cases r with
  | answer s =>
    obtain ⟨row', hrow', heq⟩ := Option.map_eq_some_iff.1 hr
    cases heq
    exact ⟨s, hrow'⟩
  | error e => cases hr
  | done => cases hr
  | outOfSteps => cases hr

end Database

end TripleStore
