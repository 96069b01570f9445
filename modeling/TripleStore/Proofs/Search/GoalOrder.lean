import TripleStore.Proofs.Search.Exhaustion
import TripleStore.Proofs.Search.Multiplicity

/-!
# The order of goals

Two queries that have the same goals in different orders have the same rows, each equally often, if the rows of both
come to their end without an error (**`rows_perm_of_goals_perm`**).

The two searches may have nothing in common: what one of them finds at once, the other may find after many choices,
under bindings of another shape, and checks are made early here and late there. But both find an answer for each way to
meet the goals (`Store.counts_resolve`), and there are as many of these in whatever order the goals are listed
(`Goal.waysAll_perm`). Rows depend on the meanings of answers only (`Query.row?_eq_of_meaning_eq`).
-/

namespace TripleStore

/-- Answers of one meaning have one row. -/
theorem Query.row?_eq_of_meaning_eq {query : Query} (hvars : ∀ x ∈ query.vars, x.2 < query.scope) {s s' : Bindings}
    (hs : s.Acyclic) (hs' : s'.Acyclic) (h : s.meaning query.scope = s'.meaning query.scope) :
    query.row? s = query.row? s' := by
  have hdecode : Row.decode s query.vars = Row.decode s' query.vars := by
    refine Row.decode_congr fun x hx => Option.ext fun t => ⟨fun ht => ?_, fun ht => ?_⟩
    · exact Bindings.resolve?_eq_of_meaning_eq hs' h.symm (hvars x hx) ht
    · exact Bindings.resolve?_eq_of_meaning_eq hs h (hvars x hx) ht
  rw [row?, row?, hdecode]

/-- The rows of answers, if what is counted has rows. -/
theorem Query.rows_perm_of_counts {query : Query} {α : Type} {f : α → Set (Nat → Term)} {row? : α → Option Row}
    {xs : List α} {n : Nat} {as : List (Bindings × Nat)}
    (h : Counts query.scope n (xs.map f : List (Set (Nat → Term))) as)
    (hrow : ∀ x ∈ xs, ∀ s : Bindings, s.Acyclic → s.meaning query.scope = f x → query.row? s = row? x) :
    (as.filterMap fun a => query.row? a.1).Perm (xs.filterMap row?) := by
  have hpairs : Multiset.Rel (fun a x => a.1.meaning query.scope = f x) (as : Multiset (Bindings × Nat)) xs :=
    Multiset.rel_map.1 (Multiset.rel_eq.2 h.meanings)
  have hrows : (as.map fun a => query.row? a.1).Perm (xs.map row?) := by
    rw [← Multiset.coe_eq_coe, ← Multiset.map_coe, ← Multiset.map_coe, ← Multiset.rel_eq, Multiset.rel_map]
    exact hpairs.mono fun a ha x hx heq => hrow x hx a.1 (h.fresh a ha).2.acyclic heq
  have hfilter := hrows.filterMap id
  rw [List.filterMap_map, List.filterMap_map] at hfilter
  exact hfilter

/-- Where the meanings of some answers are those of others, each equally often, so are the rows. -/
theorem Query.rows_perm {query : Query} (hvars : ∀ x ∈ query.vars, x.2 < query.scope)
    {M : Multiset (Set (Nat → Term))} {n n' : Nat} {as as' : List (Bindings × Nat)} (h : Counts query.scope n M as)
    (h' : Counts query.scope n' M as') :
    (as.filterMap fun a => query.row? a.1).Perm (as'.filterMap fun a => query.row? a.1) := by
  obtain rfl := h'.meanings
  exact Query.rows_perm_of_counts h fun a ha s hs heq =>
    Query.row?_eq_of_meaning_eq hvars hs (h'.fresh a ha).2.acyclic heq

/-- Rows that come to their end are those of answers that are counted by the ways to meet the goals, within every bound
on the depth that is large enough. -/
theorem Rows.exists_counts {st : Store} (hst : st.Reachable) {query : Query}
    (hvars : ∀ x ∈ query.vars, x.2 < query.scope) {mode : Retrieval} {rows : List Row}
    (h : Step.Exhausts (Rows.step st mode query) (Rows.start query) rows) : ∃ d, ∀ d', d ≤ d' → ∃ as,
      Counts query.scope query.scope
        (possible (Bindings.empty.meaning query.scope) (Goal.waysAll (st.proofs d') query.goals)) as ∧
      rows = as.filterMap fun a => query.row? a.1 := by
  obtain ⟨d, hd, rfl⟩ := (Rows.exhausts_iff_resolve hst hvars).1 h
  refine ⟨d, fun d' hle => ⟨(st.resolve .fullScan d .empty query.scope query.goals).answers, ?_, rfl⟩⟩
  have hsame := Store.resolve_eq_of_exhausted hd hle
  rw [← hsame] at hd ⊢
  exact Store.counts_resolve st d' _ _ _ ⟨Bindings.acyclic_empty, Bindings.below_empty _, query.inScope⟩ hd

/-- **The order of goals changes no answers.** If two queries over one scope have the same goals in some orders, and the
rows of both on a store come to their end without an error, however candidates are found, then they are the same rows,
each equally often. -/
theorem rows_perm_of_goals_perm {st : Store} (hst : st.Reachable) {scope : Scope} {goals goals' : List Goal}
    (hperm : goals.Perm goals') {query query' : Query} (hquery : Query.ofGoals? scope goals = .ok query)
    (hquery' : Query.ofGoals? scope goals' = .ok query') (mode mode' : Retrieval) {rows rows' : List Row}
    (h : Step.Exhausts (Rows.step st mode query) (Rows.start query) rows)
    (h' : Step.Exhausts (Rows.step st mode' query') (Rows.start query') rows') : rows.Perm rows' := by
  have hvars := Query.vars_lt_scope hquery
  obtain ⟨d, hd⟩ := Rows.exists_counts hst hvars h
  obtain ⟨d', hd'⟩ := Rows.exists_counts hst (Query.vars_lt_scope hquery') h'
  obtain ⟨as, hcounts, rfl⟩ := hd (max d d') (Nat.le_max_left d d')
  obtain ⟨as', hcounts', rfl⟩ := hd' (max d d') (Nat.le_max_right d d')
  obtain ⟨hgoals, hnames, hscope⟩ := Query.ofGoals?_eq_ok hquery
  obtain ⟨hgoals', hnames', hscope'⟩ := Query.ofGoals?_eq_ok hquery'
  have hrow : query'.row? = query.row? := by
    funext s
    rw [Query.row?, Query.row?, hnames', hnames]
  rw [hgoals', ← Goal.waysAll_perm hperm, ← hgoals, hscope', ← hscope] at hcounts'
  rw [hrow]
  exact Query.rows_perm hvars hcounts hcounts'

/-- The children of Ann, who like tea in another order. -/
def Store.household : Store :=
  ((((Store.withReferences []).push (.fact ⟨.str "ann", .str "child", .str "bob"⟩ rfl)).push
    (.fact ⟨.str "ann", .str "child", .str "cid"⟩ rfl)).push (.fact ⟨.str "cid", .str "likes", .str "tea"⟩ rfl)).push
      (.fact ⟨.str "bob", .str "likes", .str "tea"⟩ rfl)

/-- The children of Ann who like tea. -/
def Query.teaChildren : Query where
  goals := [.pattern ⟨.str "ann", .str "child", .var 0⟩, .pattern ⟨.var 0, .str "likes", .str "tea"⟩]
  vars := [("x", 0)]
  scope := 1
  inScope := by decide

/-- Those who like tea and are children of Ann. -/
def Query.childrenTea : Query where
  goals := [.pattern ⟨.var 0, .str "likes", .str "tea"⟩, .pattern ⟨.str "ann", .str "child", .var 0⟩]
  vars := [("x", 0)]
  scope := 1
  inScope := by decide

theorem Store.reachable_household : household.Reachable :=
  .addFact (.addFact (.addFact (.addFact (.withReferences []) (t := ⟨.str "ann", .str "child", .str "bob"⟩) rfl)
    (t := ⟨.str "ann", .str "child", .str "cid"⟩) rfl) (t := ⟨.str "cid", .str "likes", .str "tea"⟩) rfl)
    (t := ⟨.str "bob", .str "likes", .str "tea"⟩) rfl

/-- Bob comes before Cid when children are looked for first, and after him otherwise. -/
theorem rows_perm_household : ∃ rows rows',
    Step.Exhausts (Rows.step .household .indexed .teaChildren) (Rows.start .teaChildren) rows ∧
      Step.Exhausts (Rows.step .household .fullScan .childrenTea) (Rows.start .childrenTea) rows' ∧
        rows ≠ rows' ∧ rows.Perm rows' := by
  have hrows : Step.Exhausts (Rows.step .household .indexed .teaChildren) (Rows.start .teaChildren)
      [⟨[("x", .str "bob")]⟩, ⟨[("x", .str "cid")]⟩] := Step.exhausts_iff.2 ⟨13, by rfl⟩
  have hrows' : Step.Exhausts (Rows.step .household .fullScan .childrenTea) (Rows.start .childrenTea)
      [⟨[("x", .str "cid")]⟩, ⟨[("x", .str "bob")]⟩] := Step.exhausts_iff.2 ⟨21, by rfl⟩
  have hperm : Query.teaChildren.goals.Perm Query.childrenTea.goals := .swap _ _ []
  have hquery : Query.ofGoals? ⟨[some "x"]⟩ Query.teaChildren.goals = .ok .teaChildren := rfl
  have hquery' : Query.ofGoals? ⟨[some "x"]⟩ Query.childrenTea.goals = .ok .childrenTea := rfl
  exact ⟨_, _, hrows, hrows', by decide, rows_perm_of_goals_perm Store.reachable_household hperm hquery hquery' .indexed
    .fullScan hrows hrows'⟩

end TripleStore
