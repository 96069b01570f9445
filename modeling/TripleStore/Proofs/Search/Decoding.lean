import TripleStore.Proofs.Fields
import TripleStore.Proofs.Scope
import TripleStore.Proofs.Search.Exhaustion

/-!
# Rows and the solutions they come from

A solution is read as a row when it gives every name of the scope a ground value, and otherwise reports the name that was
mentioned first among those it leaves open (`Scope.Reads`, `Scope.Built.reads_decode`). The rows account for each
solution that the search has brought in one of these two ways, and for its error or end (`Scope.Accounts`). What has been
pulled of the rows is accounted for by what their search has brought in the meantime (`Rows.pulls_search`), so rows are
exactly the complete solutions (**`rows_complete`**).
-/

namespace TripleStore

/-! ### Solutions as rows -/

/-- How a solution is to be read: as a row, or as the name that it leaves open. -/
inductive Scope.Reads (scope : Scope) (s : Bindings) : Except String Row → Prop
  /-- Every name has a ground value; the row has these values, in one field for each name. -/
  | row {row : Row} : (∀ name v, scope.names[v]? = some (some name) → (s.reify (.var v)).isGround = true) →
      row.fields.Ascending →
      (∀ name t, (name, t) ∈ row.fields ↔ ∃ v, scope.names[v]? = some (some name) ∧ t = s.reify (.var v)) →
      Reads scope s (.ok row)
  /-- A name has no ground value, and all names that were mentioned before it have. -/
  | incomplete {name : String} {v : Nat} : scope.names[v]? = some (some name) →
      (s.reify (.var v)).isGround = false →
      (∀ w < v, ∀ other, scope.names[w]? = some (some other) → (s.reify (.var w)).isGround = true) →
      Reads scope s (.error name)

theorem Row.decode_eq_error {s : Bindings} {before after : List (String × Nat)} {name : String} {v : Nat}
    (hbefore : ∀ x ∈ before, (s.reify (.var x.2)).isGround = true) (hv : (s.reify (.var v)).isGround = false) :
    decode s (before ++ (name, v) :: after) = .error name := by
  have hopen : s.resolve? v = none := if_neg (by simp [hv])
  unfold decode
  rw [List.mapM_append, mapM_eq_ok (g := fun x : String × Nat => (x.1, s.reify (.var x.2)))]
  · rw [List.mapM_cons]
    dsimp only
    rw [hopen]
    rfl
  · intro x hx
    have hresolve : s.resolve? x.2 = some (s.reify (.var x.2)) := if_pos (hbefore x hx)
    obtain ⟨name, v⟩ := x
    dsimp only at hresolve ⊢
    rw [hresolve]

/-- Solutions are read as they should be. -/
theorem Scope.Built.reads_decode {scope : Scope} (h : scope.Built) (s : Bindings) :
    scope.Reads s (Row.decode s scope.named) := by
  cases hfind : scope.named.find? fun x => !(s.reify (.var x.2)).isGround with
  | none =>
    have hground : ∀ x ∈ scope.named, (s.reify (.var x.2)).isGround = true := by
      simpa using List.find?_eq_none.1 hfind
    rw [Row.decode_eq_ok hground]
    have hnames : ((scope.named.map fun x => (x.1, s.reify (.var x.2))).map Prod.fst).Nodup := by
      rw [List.map_map]
      exact h.nodup_named
    refine .row (fun name v hv => hground _ (mem_named_iff.2 hv)) (Fields.ascending_ofList _) fun name t => ?_
    rw [(Fields.perm_ofList hnames).mem_iff, List.mem_map]
    constructor
    · rintro ⟨⟨_, v⟩, hv, heq⟩
      cases heq
      exact ⟨v, mem_named_iff.1 hv, rfl⟩
    · rintro ⟨v, hv, rfl⟩
      exact ⟨(name, v), mem_named_iff.2 hv, rfl⟩
  | some x =>
    obtain ⟨first, v⟩ := x
    obtain ⟨hopen, before, after, hnamed, hbefore⟩ := List.find?_eq_some_iff_append.1 hfind
    simp only [Bool.not_eq_true', Bool.not_eq_false'] at hopen hbefore
    rw [hnamed, Row.decode_eq_error hbefore hopen]
    have hfirst : (first, v) ∈ scope.named := hnamed ▸ List.mem_append_right _ List.mem_cons_self
    refine .incomplete (mem_named_iff.1 hfirst) hopen fun w hw other hother => ?_
    -- a smaller number stands before
    have hmem : (other, w) ∈ before ++ (first, v) :: after := hnamed ▸ mem_named_iff.2 hother
    have hsorted := hnamed ▸ scope.pairwise_named
    rcases List.mem_append.1 hmem with hmem | hmem
    · exact hbefore _ hmem
    · have hle : v ≤ w := by
        rcases List.mem_cons.1 hmem with heq | hmem
        · exact (Prod.mk.inj heq).2.ge
        · exact ((List.pairwise_cons.1 (List.pairwise_append.1 hsorted).2.1).1 _ hmem).le
      exact absurd hw hle.not_gt

/-! ### Accounts -/

namespace Event

/-- The event is that every goal was met. -/
def isSolution : Event → Bool
  | solution _ => true
  | _ => false

/-- The event is that a solution was dropped. -/
def isIncomplete : Event → Bool
  | incomplete _ => true
  | _ => false

/-- The event is about a solution. -/
def isOutcome (e : Event) : Bool := e.isSolution || e.isIncomplete

theorem countP_isSolution_filter (es : List Event) :
    (es.filter isOutcome).countP isSolution = es.countP isSolution := by
  rw [List.countP_filter]
  exact List.countP_congr fun e _ => by simpa [isOutcome] using Or.inl

theorem countP_isIncomplete_filter (es : List Event) :
    (es.filter isOutcome).countP isIncomplete = es.countP isIncomplete := by
  rw [List.countP_filter]
  exact List.countP_congr fun e _ => by simpa [isOutcome] using Or.inr

end Event

/-- The pull brings an answer. -/
def Pulled.isAnswer {α : Type} : Pulled α → Bool
  | answer _ => true
  | _ => false

/-- What a search has brought, what the rows bring of it, and what is reported of solutions meanwhile. -/
inductive Scope.Accounts (scope : Scope) : List (Pulled Bindings) → List (Pulled Row) → List Event → Prop
  | nil : Accounts scope [] [] []
  /-- A complete solution is a row. -/
  | row {s : Bindings} {row : Row} {found : List (Pulled Bindings)} {rs : List (Pulled Row)} {es : List Event} :
      scope.Reads s (.ok row) → Accounts scope found rs es →
      Accounts scope (.answer s :: found) (.answer row :: rs) (.solution s.size :: es)
  /-- Any other solution is reported, once, and skipped. -/
  | incomplete {s : Bindings} {name : String} {found : List (Pulled Bindings)} {rs : List (Pulled Row)}
      {es : List Event} : scope.Reads s (.error name) → Accounts scope found rs es →
      Accounts scope (.answer s :: found) rs (.solution s.size :: .incomplete name :: es)
  | error {found : List (Pulled Bindings)} {rs : List (Pulled Row)} {es : List Event} (e : Uninstantiated) :
      Accounts scope found rs es → Accounts scope (.error e :: found) (.error e :: rs) es
  | done {found : List (Pulled Bindings)} {rs : List (Pulled Row)} {es : List Event} :
      Accounts scope found rs es → Accounts scope (.done :: found) (.done :: rs) es

/-- There are as many solutions as rows and solutions that were dropped. -/
theorem Scope.Accounts.countP_isSolution {scope : Scope} {found : List (Pulled Bindings)} {rs : List (Pulled Row)}
    {es : List Event} (h : scope.Accounts found rs es) :
    es.countP Event.isSolution = rs.countP Pulled.isAnswer + es.countP Event.isIncomplete := by
  induction h with
  | nil => rfl
  | row _ _ ih =>
    rw [List.countP_cons_of_pos rfl, List.countP_cons_of_pos rfl, List.countP_cons_of_neg Bool.false_ne_true, ih]
    omega
  | incomplete _ _ ih =>
    rw [List.countP_cons_of_pos rfl, List.countP_cons_of_neg Bool.false_ne_true,
      List.countP_cons_of_neg Bool.false_ne_true, List.countP_cons_of_pos rfl, ih]
    omega
  | error _ _ ih => rw [List.countP_cons_of_neg Bool.false_ne_true, ih]
  | done _ ih => rw [List.countP_cons_of_neg Bool.false_ne_true, ih]

/-- What the rows report of what their search brings. -/
def Query.marks (query : Query) : Pulled Bindings → List Event
  | .answer s =>
    match Row.decode s query.vars with
    | .ok _ => [.solution s.size]
    | .error name => [.solution s.size, .incomplete name]
  | _ => []

/-- The rows account for whatever their search brings. -/
theorem Scope.Built.accounts {scope : Scope} (h : scope.Built) {query : Query} (hvars : query.vars = scope.named)
    {found : List (Pulled Bindings)} (hfound : ∀ r ∈ found, r ≠ .outOfSteps) :
    scope.Accounts found (found.filterMap query.pulledRow?) (found.flatMap query.marks) := by
  induction found with
  | nil => exact .nil
  | cons r found ih =>
    obtain ⟨hr, hfound⟩ := List.forall_mem_cons.1 hfound
    have hrest := ih hfound
    cases r with
    | answer s =>
      have hreads := h.reads_decode s
      rw [← hvars] at hreads
      cases hrow : Row.decode s query.vars with
      | ok row =>
        have hpulled : query.pulledRow? (.answer s) = some (.answer row) := by
          rw [Query.pulledRow?, Query.row?, hrow]
          rfl
        rw [List.filterMap_cons_some hpulled, List.flatMap_cons, Query.marks, hrow]
        exact .row (hrow ▸ hreads) hrest
      | error name =>
        have hpulled : query.pulledRow? (.answer s) = none := by
          rw [Query.pulledRow?, Query.row?, hrow]
          rfl
        rw [List.filterMap_cons_none hpulled, List.flatMap_cons, Query.marks, hrow]
        exact .incomplete (hrow ▸ hreads) hrest
    | error e => exact .error e hrest
    | done => exact .done hrest
    | outOfSteps => exact absurd rfl hr

/-! ### Pulls -/

/-- What a step of a search reports of solutions. -/
theorem Search.filter_isOutcome_step (st : Store) (mode : Retrieval) (S : Search) :
    (S.step st mode).events.filter Event.isOutcome
      = match (S.step st mode).progress with
        | .answer s => [.solution s.size]
        | _ => [] := by
  have ht := transition_step st mode S
  generalize S.step st mode = taken at ht ⊢
  cases ht with
  | @enter n s s' t rest p ps choices e _ _ => cases e <;> rfl
  | @skip n s t rest p ps choices e _ _ => cases e <;> rfl
  | _ => rfl

namespace Rows

variable {st : Store} {mode : Retrieval} {query : Query} {rows rows' : Rows} {r : Pulled Row} {rs : List (Pulled Row)}
  {es : List Event}

/-- What a step to the next row reports: what the step of the search does, and whether a solution was dropped. -/
theorem events_step (st : Store) (mode : Retrieval) (query : Query) (h : rows.Steady) :
    (rows.step st mode query).events.filter Event.isOutcome
        = (rows.search.step st mode).progress.pulled?.toList.flatMap query.marks ∧
      (rows.step st mode query).events.filter (!·.isIncomplete) = (rows.search.step st mode).events := by
  obtain ⟨search, failed⟩ := rows
  cases failed with
  | true =>
    obtain ⟨n, rfl⟩ := h rfl
    exact ⟨rfl, rfl⟩
  | false =>
    have houtcome := Search.filter_isOutcome_step st mode search
    have hquiet : (search.step st mode).events.filter (!·.isIncomplete) = (search.step st mode).events := by
      refine List.filter_eq_self.2 fun e he => ?_
      cases e with
      | incomplete name => exact absurd he (Search.incomplete_notMem_events st mode search name)
      | _ => rfl
    rw [Rows.step, Rows.stepBy, if_neg Bool.false_ne_true]
    dsimp only
    cases hp : (search.step st mode).progress with
    | answer s =>
      rw [hp] at houtcome
      dsimp only
      cases hrow : Row.decode s query.vars with
      | ok row => exact ⟨by simp [houtcome, Progress.pulled?, Query.marks, hrow], hquiet⟩
      | error name =>
        dsimp only
        rw [List.filter_append, List.filter_append, houtcome, hquiet]
        exact ⟨by simp [Progress.pulled?, Query.marks, hrow, Event.isOutcome, Event.isIncomplete],
          by simp [Event.isIncomplete]⟩
    | _ =>
      rw [hp] at houtcome
      exact ⟨houtcome, hquiet⟩

/-- While a row is pulled its search brings what the pull accounts for. -/
theorem brings_search (hrows : rows.Steady) (h : Step.Brings (step st mode query) rows r rows' es) :
    rows'.Steady ∧ ∃ found, Step.Pulls (Search.step st mode) rows.search found rows'.search
        (es.filter (!·.isIncomplete)) ∧
      [r] = found.filterMap query.pulledRow? ∧ es.filter Event.isOutcome = found.flatMap query.marks := by
  induction h with
  | @now rows r hr =>
    obtain ⟨hsearch, hsteady, hpulled, -⟩ := step_follows st mode query hrows
    obtain ⟨houtcome, hevents⟩ := events_step st mode query hrows
    rw [hr] at hpulled
    refine ⟨hsteady, _, ?_, hpulled, houtcome⟩
    rw [hevents, hsearch]
    cases hp : (rows.search.step st mode).progress.pulled? with
    | none =>
      rw [hp] at hpulled
      cases hpulled
    | some p =>
      have hpulls := Step.Pulls.of_brings (.now hp) (.nil (rows.search.step st mode).next)
      rwa [List.append_nil] at hpulls
  | @later rows rows' r es hr _ ih =>
    obtain ⟨hsearch, hsteady, hpulled, -⟩ := step_follows st mode query hrows
    obtain ⟨houtcome, hevents⟩ := events_step st mode query hrows
    obtain ⟨hsteady', found, hpulls, hrow, hmarks⟩ := ih hsteady
    rw [hr] at hpulled
    rw [hsearch] at hpulls
    refine ⟨hsteady', (rows.search.step st mode).progress.pulled?.toList ++ found, ?_, ?_, ?_⟩
    · rw [List.filter_append, hevents]
      cases hp : (rows.search.step st mode).progress.pulled? with
      | none =>
        refine hpulls.of_silent hp ?_
        rintro rfl
        cases hrow
      | some p => exact .of_brings (.now hp) hpulls
    · rw [List.filterMap_append, ← hpulled, ← hrow]
      rfl
    · rw [List.filter_append, List.flatMap_append, houtcome, hmarks]

/-- **What has been pulled of the rows** is what their search has brought in the meantime, decoded. -/
theorem pulls_search (hrows : rows.Steady) (h : Step.Pulls (step st mode query) rows rs rows' es) :
    ∃ found, Step.Pulls (Search.step st mode) rows.search found rows'.search (es.filter (!·.isIncomplete)) ∧
      rs = found.filterMap query.pulledRow? ∧ es.filter Event.isOutcome = found.flatMap query.marks := by
  induction h with
  | nil rows => exact ⟨[], .nil _, rfl, rfl⟩
  | cons steps hr hne _ ih =>
    obtain ⟨hsteady, found, hpulls, hrow, hmarks⟩ := brings_search hrows (Step.brings_of_pull hr hne)
    obtain ⟨found', hpulls', hrows', hmarks'⟩ := ih hsteady
    refine ⟨found ++ found', ?_, ?_, ?_⟩
    · rw [List.filter_append]
      exact hpulls.append hpulls'
    · rw [List.filterMap_append, ← hrow, ← hrows']
      rfl
    · rw [List.filter_append, List.flatMap_append, hmarks, hmarks']

end Rows

/-- **Rows are exactly the complete solutions.** Whatever is pulled of the rows of a query, its search has brought some
solutions in the meantime, and perhaps an error or the end. Each solution that gives every name a ground value is one
row, with one field for each name that holds this value; each other one is reported once, by the name that was mentioned
first among those without a ground value; the rows are in the order of the solutions, and nothing else is reported but
what the search reports. So there are as many solutions as rows and solutions reported as incomplete. Whatever the
search can bring is accounted for in this way by rows that can be pulled. -/
theorem rows_complete {scope : Scope} (hscope : scope.Built) {goals : List Goal} {query : Query}
    (hquery : Query.ofGoals? scope goals = .ok query) (st : Store) (mode : Retrieval) :
    (∀ {rs : List (Pulled Row)} {rows : Rows} {es : List Event},
      Step.Pulls (Rows.step st mode query) (Rows.start query) rs rows es →
        (∃ found, Step.Pulls (Search.step st mode) (Search.start .empty goals scope.size) found rows.search
            (es.filter (!·.isIncomplete)) ∧ scope.Accounts found rs (es.filter Event.isOutcome)) ∧
          es.countP Event.isSolution = rs.countP Pulled.isAnswer + es.countP Event.isIncomplete) ∧
      ∀ {found : List (Pulled Bindings)} {S : Search} {es : List Event},
        Step.Pulls (Search.step st mode) (Search.start .empty goals scope.size) found S es →
          ∃ rs rows es' marks, Step.Pulls (Rows.step st mode query) (Rows.start query) rs rows es' ∧
            scope.Accounts found rs marks := by
  obtain ⟨rfl, hvars, hsize⟩ := Query.ofGoals?_eq_ok hquery
  rw [← hsize]
  constructor
  · intro rs rows es h
    obtain ⟨found, hpulls, rfl, hmarks⟩ := Rows.pulls_search (Rows.steady_start query) h
    have haccounts := hscope.accounts hvars hpulls.ne_outOfSteps
    rw [← hmarks] at haccounts
    refine ⟨⟨found, hpulls, haccounts⟩, ?_⟩
    rw [← Event.countP_isSolution_filter, ← Event.countP_isIncomplete_filter]
    exact haccounts.countP_isSolution
  · intro found S es h
    obtain ⟨n, rfl, -⟩ := h.exists_results
    have hrows := Rows.results_rows st mode query n (Rows.steady_start query)
    obtain ⟨rows, es', hpulls⟩ := Step.pulls_results (Rows.step st mode query) n (Rows.start query)
    rw [hrows] at hpulls
    exact ⟨_, rows, es', _, hpulls, hscope.accounts hvars h.ne_outOfSteps⟩

/-! ### An example -/

/-- Whoever has a name likes something. -/
def Rule.likesSomething : Rule where
  name? := none
  head := ⟨.var 0, .str "likes", .var 1⟩
  body := [.pattern ⟨.var 0, .str "name", .var 2⟩]
  varCount := 3
  inScope := by decide

/-- Alice has a name, and Bob likes milk. -/
def Store.tastes : Store :=
  (((Store.withReferences []).push (.fact ⟨.str "alice", .str "name", .str "Alice"⟩ (by rfl))).push
    (.fact ⟨.str "bob", .str "likes", .str "milk"⟩ (by rfl))).addRule .likesSomething

/-- The variables of a question who likes what, where someone has a name. -/
def Scope.likings : Scope := (((Scope.empty.var "who").2.fresh).2.var "what").2

theorem Scope.built_likings : likings.Built := .var _ (.fresh (.var _ .empty))

/-- Who likes what? Someone has a name. -/
def Query.likings : Query where
  goals := [.pattern ⟨.var 0, .str "likes", .var 2⟩, .pattern ⟨.var 1, .str "name", .str "Alice"⟩]
  vars := [("who", 0), ("what", 2)]
  scope := 3
  inScope := by decide

/-- Bob likes milk; that Alice likes something is dropped, since it is not known what. -/
theorem rows_complete_tastes : ∃ rows es, Step.Pulls (Rows.step .tastes .indexed .likings) (Rows.start .likings)
      [.answer ⟨[("what", .str "milk"), ("who", .str "bob")]⟩, .done] rows es ∧
    ∃ found, Scope.likings.Accounts found [.answer ⟨[("what", .str "milk"), ("who", .str "bob")]⟩, .done]
        (es.filter Event.isOutcome) ∧ es.countP Event.isSolution = 1 + es.countP Event.isIncomplete ∧
      ∃ rs rows' es' marks, Step.Pulls (Rows.step .tastes .indexed .likings) (Rows.start .likings) rs rows' es' ∧
        Scope.likings.Accounts found rs marks := by
  have hquery : Query.ofGoals? .likings Query.likings.goals = .ok .likings := rfl
  obtain ⟨hrows, hsearch⟩ := rows_complete Scope.built_likings hquery .tastes .indexed
  have hpulls : ∃ rows es, Step.Pulls (Rows.step .tastes .indexed .likings) (Rows.start .likings)
      [.answer ⟨[("what", .str "milk"), ("who", .str "bob")]⟩, .done] rows es :=
    ⟨_, _, .cons 20 (by rfl) (by simp) (.cons 20 (by rfl) (by simp) (.nil _))⟩
  obtain ⟨rows, es, hpulls⟩ := hpulls
  obtain ⟨⟨found, hfound, haccounts⟩, hcount⟩ := hrows hpulls
  exact ⟨rows, es, hpulls, found, haccounts, hcount, hsearch hfound⟩

end TripleStore
