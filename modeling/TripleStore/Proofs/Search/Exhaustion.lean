import TripleStore.Proofs.Lists
import TripleStore.Proofs.Scope
import TripleStore.Proofs.Search.Refinement
import TripleStore.Proofs.Search.Retrieval
import TripleStore.Proofs.Search.Rows

/-!
# Searches that come to an end

The rows of a query that come to their end without an error are read off the recursive resolver: within some bound
on its depth it is exhausted, and the rows are those of its answers (`Rows.exhausts_iff_resolve`). So what is to be
proved of the rows of two searches that end need be proved of two resolutions only.

The way goes from the rows to the search (`Rows.exhausts_iff`), from there to the search among all entries
(`Search.exhausts_fullScan_iff`) and to the resolver (`Search.Realizes.exhausts`, `Search.exists_exhausted`). The
answers of the resolver are those of the search up to the names of the variables of rules, and rows do not depend on
these (`Pulled.SameUpTo.row?_eq`).
-/

namespace TripleStore

open Term

namespace Search

variable {st : Store} {mode : Retrieval} {S : Search} {ss : List Bindings} {s : Bindings} {goals : List Goal}
  {n₀ n d k : Nat} {A : Resolution (Bindings × Nat)}

/-! ### What a search brings -/

/-- A search that comes to its end without an error brings nothing but answers before. -/
theorem exists_exhausts (hdone : .done ∈ Step.results (step st mode) k S)
    (herror : ∀ e, .error e ∉ Step.results (step st mode) k S) : ∃ ss, Step.Exhausts (step st mode) S ss := by
  induction k generalizing S with
  | zero => cases hdone
  | succ k ih =>
    rw [Step.results] at hdone herror
    have hrest : ∀ e, .error e ∉ Step.results (step st mode) k (S.step st mode).next :=
      fun e he => herror e (List.mem_append_right _ he)
    cases hp : (S.step st mode).progress with
    | moved =>
      rw [hp] at hdone
      obtain ⟨ss, hss⟩ := ih hdone hrest
      obtain ⟨j, hj⟩ := Step.exhausts_iff.1 hss
      exact ⟨ss, Step.exhausts_iff.2 ⟨j + 1, by rw [Step.results, hp, hj]; rfl⟩⟩
    | answer s =>
      rw [hp] at hdone
      obtain ⟨ss, hss⟩ := ih ((List.mem_cons.1 hdone).resolve_left fun h => by cases h) hrest
      obtain ⟨j, hj⟩ := Step.exhausts_iff.1 hss
      exact ⟨s :: ss, Step.exhausts_iff.2 ⟨j + 1, by rw [Step.results, hp, hj]; rfl⟩⟩
    | error e => exact absurd (List.mem_append_left _ (by simp [hp, Progress.pulled?])) (herror e)
    | done => exact ⟨[], Step.exhausts_iff.2 ⟨1, by rw [Step.results, hp]; rfl⟩⟩

/-- After the end there is nothing else. -/
theorem results_add_of_done (h : .done ∈ Step.results (step st mode) k S) (j : Nat) :
    Step.results (step st mode) (k + j) S = Step.results (step st mode) k S ++ List.replicate j .done := by
  induction k generalizing S with
  | zero => cases h
  | succ k ih =>
    rw [Nat.add_right_comm, Step.results, Step.results, List.append_assoc]
    congr 1
    rw [Step.results] at h
    rcases List.mem_append.1 h with hp | h
    · cases hdone : (S.step st mode).progress with
      | done =>
        obtain ⟨hnext, hended⟩ := next_of_done hdone
        rw [hnext, hended, results_ended, results_ended, List.replicate_add]
      | _ => simp [hdone, Progress.pulled?] at hp
    · exact ih h

/-- A search that comes to its end meets no error, however long it goes on. -/
theorem error_notMem_of_exhausts (h : Step.Exhausts (step st mode) S ss) (j : Nat) (e : Uninstantiated) :
    .error e ∉ Step.results (step st mode) j S := by
  obtain ⟨k, hk⟩ := Step.exhausts_iff.1 h
  intro he
  have hmem : .error e ∈ Step.results (step st mode) (k + j) S :=
    (Step.prefix_results (step st mode) (Nat.le_add_left j k) S).subset he
  rw [results_add_of_done (by simp [hk]), hk] at hmem
  simp at hmem

/-! ### All entries -/

/-- The search through the index comes to its end when the search among all entries does, with the same answers. -/
theorem exhausts_fullScan_iff (hst : st.Reachable) (hs : s.Acyclic) :
    Step.Exhausts (step st mode) (start s goals n) ss ↔ Step.Exhausts (step st .fullScan) (start s goals n) ss := by
  cases mode with
  | fullScan => rfl
  | indexed =>
    have hacyclic : ∀ task ∈ (start s goals n).tasks, task.1.Acyclic := forall_mem_tasks_start.2 hs
    constructor
    · rintro ⟨_, _, h⟩
      obtain ⟨search, es, h', -⟩ := (lags hst).pulls ⟨rfl, hacyclic⟩ h
      exact ⟨search, es, h'⟩
    · rintro ⟨_, _, h⟩
      obtain ⟨search, es, h', -⟩ := (lags hst).pulls_back ⟨rfl, hacyclic⟩ h
      exact ⟨search, es, h'⟩

/-! ### The resolver -/

/-- A search that realizes a resolution comes to its end when the resolution is exhausted. -/
theorem Realizes.exhausts (h : Realizes st mode n₀ d S A []) (hA : A.stop = .exhausted) :
    ∃ ss, Step.Exhausts (Search.step st mode) S ss ∧
      List.Forall₂ (fun a s => Pulled.SameUpTo n₀ (.answer a.1) (.answer s)) A.answers ss := by
  have answers {as : List (Bindings × Nat)} {rs : List (Pulled Bindings)}
      (h : List.Forall₂ (fun a r => Pulled.SameUpTo n₀ (.answer a.1) r) as rs) : ∃ ss, rs = ss.map .answer ∧
        List.Forall₂ (fun a s => Pulled.SameUpTo n₀ (.answer a.1) (.answer s)) as ss := by
    induction h with
    | nil => exact ⟨[], rfl, .nil⟩
    | @cons a r _ _ hr _ ih =>
      obtain ⟨ss, rfl, hss⟩ := ih
      cases hr with
      | @answer _ _ s hρ hfixes hrenamed => exact ⟨s :: ss, rfl, .cons (.answer hρ hfixes hrenamed) hss⟩
  obtain ⟨k, hitems, hstop⟩ := h
  rw [hA] at hstop
  obtain ⟨m, -, hafter⟩ := hstop
  rw [Resolution.items, hA, List.append_nil, List.forall₂_map_left_iff] at hitems
  obtain ⟨ss, hss, hsame⟩ := answers hitems
  refine ⟨ss, Step.exhausts_iff.2 ⟨k + 1, ?_⟩, hsame⟩
  rw [Step.results_add, hafter, results_ended, hss]
  rfl

/-- When the search comes to its end, the resolver is exhausted within some bound. -/
theorem exists_exhausted (hs : s.Acyclic) (hbelow : s.Below n) (hgoals : ∀ g ∈ goals, g.Below n)
    (h : Step.Exhausts (step st mode) (start s goals n) ss) :
    ∃ d, (st.resolve mode d s n goals).stop = .exhausted := by
  obtain ⟨k, hk⟩ := Step.exhausts_iff.1 h
  refine ⟨k, ?_⟩
  have hrealizes : Realizes st mode n k _ _ [] := realizes_start hs hbelow hgoals k
  obtain ⟨j, hitems, hstop⟩ := hrealizes
  cases hA : (st.resolve mode k s n goals).stop with
  | exhausted => rfl
  | error e =>
    -- an error of the resolver would be one of the search
    have hmem : .error e ∈ (st.resolve mode k s n goals).items := by simp [Resolution.items, hA]
    obtain ⟨r, hr, hsame⟩ := exists_mem_of_forall₂ hitems hmem
    cases hsame
    exact absurd hr (error_notMem_of_exhausts h j _)
  | cut =>
    -- a resolution that was cut has been followed up to the end, which it does not have
    rw [hA] at hstop
    have hdone : .done ∈ Step.results (step st mode) j (start s goals n) :=
      (Step.prefix_results (step st mode) hstop _).subset (by simp [hk])
    obtain ⟨r, hr, hsame⟩ := exists_mem_of_forall₂ hitems.flip hdone
    rw [Resolution.items, hA, List.append_nil, List.mem_map] at hr
    obtain ⟨a, -, rfl⟩ := hr
    cases hsame

end Search

/-! ### Rows -/

/-- What the query of some goals is made of. -/
theorem Query.ofGoals?_eq_ok {scope : Scope} {goals : List Goal} {query : Query}
    (h : Query.ofGoals? scope goals = .ok query) :
    query.goals = goals ∧ query.vars = scope.named ∧ query.scope = scope.size := by
  unfold Query.ofGoals? at h
  split at h
  · cases h
  · cases h
    exact ⟨rfl, rfl, rfl⟩

/-- Goals whose variables a scope has given out have a query. -/
theorem Query.exists_ofGoals? {scope : Scope} {goals : List Goal} (h : ∀ g ∈ goals, ∀ v ∈ g.vars, v < scope.size) :
    ∃ query, Query.ofGoals? scope goals = .ok query := by
  unfold Query.ofGoals?
  split
  · rename_i hescape
    rw [Scope.escape?_eq_none_iff.2 h] at hescape
    cases hescape
  · exact ⟨_, rfl⟩

/-- The names of a query stand for variables of its scope. -/
theorem Query.vars_lt_scope {scope : Scope} {goals : List Goal} {query : Query}
    (h : Query.ofGoals? scope goals = .ok query) : ∀ x ∈ query.vars, x.2 < query.scope := by
  obtain ⟨-, hvars, hscope⟩ := Query.ofGoals?_eq_ok h
  rw [hvars, hscope]
  exact fun x hx => Scope.lt_size_of_mem_named hx

/-- Two solutions that are the same up to the names of the variables of rules have the same row. -/
theorem Pulled.SameUpTo.row?_eq {query : Query} {s s' : Bindings}
    (h : SameUpTo query.scope (.answer s) (.answer s')) (hvars : ∀ x ∈ query.vars, x.2 < query.scope) :
    query.row? s = query.row? s' := by
  cases h with
  | @answer ρ _ _ hρ hfixes hrenamed =>
    have hdecode : Row.decode s query.vars = Row.decode s' query.vars := by
      refine Row.decode_congr fun x hx => ?_
      have hvalue := hrenamed.reify hρ (.var x.2)
      rw [rename_var, hfixes _ (hvars x hx)] at hvalue
      exact Bindings.resolve?_eq_of_rename hvalue
    rw [Query.row?, Query.row?, hdecode]

namespace Rows

variable {st : Store} {mode : Retrieval} {query : Query} {rows : List Row}

/-- The rows come to their end when the search does, and are those of its solutions. -/
theorem exhausts_iff : Step.Exhausts (step st mode query) (start query) rows ↔
    ∃ ss, Step.Exhausts (Search.step st mode) (start query).search ss ∧ rows = ss.filterMap query.row? := by
  have hresults (k : Nat) := results_rows st mode query k (steady_start query)
  have back {ss : List Bindings} (h : Step.Exhausts (Search.step st mode) (start query).search ss) :
      Step.Exhausts (step st mode query) (start query) (ss.filterMap query.row?) := by
    obtain ⟨k, hk⟩ := Step.exhausts_iff.1 h
    refine Step.exhausts_iff.2 ⟨k, ?_⟩
    rw [hresults, hk, List.filterMap_append, List.filterMap_map, List.map_filterMap]
    rfl
  constructor
  · intro h
    obtain ⟨k, hk⟩ := Step.exhausts_iff.1 h
    have hdone : .done ∈ Step.results (Search.step st mode) k (start query).search := by
      have hmem : .done ∈ Step.results (step st mode query) k (start query) := by simp [hk]
      rw [hresults] at hmem
      obtain ⟨r, hr, hpulled⟩ := List.mem_filterMap.1 hmem
      exact Query.eq_done_of_pulledRow? hpulled ▸ hr
    have herror : ∀ e, .error e ∉ Step.results (Search.step st mode) k (start query).search := by
      intro e he
      have hmem : .error e ∈ Step.results (step st mode query) k (start query) := by
        rw [hresults]
        exact List.mem_filterMap.2 ⟨_, he, rfl⟩
      simp [hk] at hmem
    obtain ⟨ss, hss⟩ := Search.exists_exhausts hdone herror
    exact ⟨ss, hss, h.unique (back hss)⟩
  · rintro ⟨ss, h, rfl⟩
    exact back h

/-- **The rows of a query that come to their end** are those of the answers of the resolver, which is exhausted
within some bound. -/
theorem exhausts_iff_resolve (hst : st.Reachable) (hvars : ∀ x ∈ query.vars, x.2 < query.scope) :
    Step.Exhausts (step st mode query) (start query) rows ↔
      ∃ d, (st.resolve .fullScan d .empty query.scope query.goals).stop = .exhausted ∧
        rows = (st.resolve .fullScan d .empty query.scope query.goals).answers.filterMap fun a => query.row? a.1 := by
  have found {d : Nat} (hA : (st.resolve .fullScan d .empty query.scope query.goals).stop = .exhausted) :
      ∃ ss, Step.Exhausts (Search.step st mode) (start query).search ss ∧
        (st.resolve .fullScan d .empty query.scope query.goals).answers.filterMap (fun a => query.row? a.1)
          = ss.filterMap query.row? := by
    have hrealizes : Search.Realizes st .fullScan query.scope d _ _ [] :=
      Search.realizes_start Bindings.acyclic_empty (Bindings.below_empty _) query.inScope d
    obtain ⟨ss, h, hsame⟩ := hrealizes.exhausts hA
    have hrows : (st.resolve .fullScan d .empty query.scope query.goals).answers.map (fun a => query.row? a.1)
        = ss.map query.row? := by
      rw [← List.forall₂_eq_eq_eq, List.forall₂_map_left_iff, List.forall₂_map_right_iff]
      exact hsame.imp fun _ _ h => h.row?_eq hvars
    refine ⟨ss, (Search.exhausts_fullScan_iff hst Bindings.acyclic_empty).2 h, ?_⟩
    have hfilter := congrArg (List.filterMap id) hrows
    rw [List.filterMap_map, List.filterMap_map] at hfilter
    exact hfilter
  constructor
  · intro h
    obtain ⟨ss, hss, rfl⟩ := exhausts_iff.1 h
    obtain ⟨d, hd⟩ := Search.exists_exhausted Bindings.acyclic_empty (Bindings.below_empty _) query.inScope
      ((Search.exhausts_fullScan_iff hst Bindings.acyclic_empty).1 hss)
    obtain ⟨ss', hss', hrows⟩ := found hd
    exact ⟨d, hd, by rw [hrows, hss.unique hss']⟩
  · rintro ⟨d, hd, rfl⟩
    obtain ⟨ss, hss, hrows⟩ := found hd
    exact exhausts_iff.2 ⟨ss, hss, hrows⟩

end Rows

end TripleStore
