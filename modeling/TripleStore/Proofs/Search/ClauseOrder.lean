import Mathlib.Data.List.Perm.Basic
import TripleStore.Proofs.Search.Exhaustion

/-!
# The order of facts and rules

Two stores that have the same entries in different orders answer a query with the same rows, each equally often:
if the rows from one of them come to their end without an error, so do those from the other, and they are the same up
to their order (**`rows_perm_of_entries_perm`**).

The searches themselves have little in common, as they go through different branches first and give rules different
variables. The resolver numbers variables by branch, so what it finds in a branch does not depend on those before it.
`Reorders` is what is left when the branches come in another order: a resolution that is exhausted stays exhausted and
keeps its answers, each equally often. All that the resolver does keeps this (`Reorders.concat`, `Reorders.bind`), so
it holds within any bound on the depth (`Store.resolve_reorders`).
-/

namespace TripleStore

namespace Resolution

variable {α β : Type} {A A' : Resolution α}

/-! ### Answers in another order -/

/-- If the first resolution is exhausted, so is the second, with the same answers in some order. -/
def Reorders (A B : Resolution α) : Prop := A.stop = .exhausted → B.stop = .exhausted ∧ A.answers.Perm B.answers

theorem Reorders.refl (A : Resolution α) : A.Reorders A := fun h => ⟨h, .refl _⟩

theorem Reorders.concat {f f' : β → Resolution α} {bs bs' : List β} (hbs : bs.Perm bs')
    (hf : ∀ b, (f b).Reorders (f' b)) :
    (Resolution.concat (bs.map f)).Reorders (Resolution.concat (bs'.map f')) := by
  intro h
  have hparts : ∀ b ∈ bs, (f b).stop = .exhausted :=
    fun b hb => concat_exhausted_iff.1 h _ (List.mem_map_of_mem hb)
  have h' : (Resolution.concat (bs'.map f')).stop = .exhausted := by
    refine concat_exhausted_iff.2 fun A hA => ?_
    obtain ⟨b, hb, rfl⟩ := List.mem_map.1 hA
    exact (hf b (hparts b (hbs.mem_iff.2 hb))).1
  refine ⟨h', ?_⟩
  rw [answers_concat h, answers_concat h', List.flatMap_map, List.flatMap_map]
  exact hbs.flatMap fun b hb => (hf b (hparts b hb)).2

theorem Reorders.bind (hA : A.Reorders A') {f f' : α → Resolution β} (hf : ∀ a, (f a).Reorders (f' a)) :
    (A.bind f).Reorders (A'.bind f') := by
  intro h
  have hstop := exhausted_of_bind h
  obtain ⟨hstop', hanswers⟩ := hA hstop
  rw [bind_eq_concat hstop] at h ⊢
  rw [bind_eq_concat hstop']
  exact Reorders.concat hanswers hf h

end Resolution

namespace Store

variable {st st' : Store} {call call' : Bindings → Nat → List Goal → Resolution (Bindings × Nat)}

/-! ### Entries in another order -/

theorem resolveGoals_reorders (hperm : st.entries.toList.Perm st'.entries.toList)
    (hcall : ∀ s n goals, (call s n goals).Reorders (call' s n goals)) (goals : List Goal) (a : Bindings × Nat) :
    (st.resolveGoals .fullScan call goals a).Reorders (st'.resolveGoals .fullScan call' goals a) := by
  refine resolveGoals_rel Resolution.Reorders.refl (fun s n t rest rest' hrest => ?_) goals a
  rw [map_resolveAt_candidates, map_resolveAt_candidates]
  exact .concat hperm (resolveEntry_rel Resolution.Reorders.refl (fun hA hf => hA.bind hf) hcall hrest s n t)

/-- **Within any bound on the depth the resolver finds the same**, whatever the order of the entries. -/
theorem resolve_reorders (hperm : st.entries.toList.Perm st'.entries.toList) (d : Nat) : ∀ (s : Bindings) (n : Nat)
    (goals : List Goal), (st.resolve .fullScan d s n goals).Reorders (st'.resolve .fullScan d s n goals) := by
  induction d with
  | zero => exact fun _ _ _ => .refl _
  | succ d ih => exact fun s n goals => resolveGoals_reorders hperm ih goals (s, n)

end Store

/-! ### Rows -/

/-- **The order of facts and rules changes no answers.** If two stores have the same entries in some orders, and the
rows of a query on the first come to their end without an error, then so do its rows on the second, however
candidates are found there, and they are the same rows, each equally often. -/
theorem rows_perm_of_entries_perm {st st' : Store} (hst : st.Reachable) (hst' : st'.Reachable)
    (hperm : st.entries.toList.Perm st'.entries.toList) {scope : Scope} {goals : List Goal} {query : Query}
    (hquery : Query.ofGoals? scope goals = .ok query) (mode mode' : Retrieval) {rows : List Row}
    (h : Step.Exhausts (Rows.step st mode query) (Rows.start query) rows) :
    ∃ rows', Step.Exhausts (Rows.step st' mode' query) (Rows.start query) rows' ∧ rows.Perm rows' := by
  have hvars := Query.vars_lt_scope hquery
  obtain ⟨d, hd, rfl⟩ := (Rows.exhausts_iff_resolve hst hvars).1 h
  obtain ⟨hd', hanswers⟩ := Store.resolve_reorders hperm d .empty query.scope query.goals hd
  exact ⟨_, (Rows.exhausts_iff_resolve hst' hvars).2 ⟨d, hd', rfl⟩, hanswers.filterMap _⟩

theorem Triple.isGround_parent : isGround ⟨.str "ann", .str "parent", .str "bob"⟩ = true := rfl

/-- The family with its rule before its fact. -/
def Store.familyReordered : Store :=
  ((Store.withReferences []).addRule .ancestor).push (.fact _ Triple.isGround_parent)

/-- Bob is the one row, wherever the rule stands. -/
theorem rows_perm_family : ∃ rows,
    Step.Exhausts (Rows.step .familyReordered .fullScan .otherDescendants) (Rows.start .otherDescendants) rows ∧
      [⟨[("x", .str "bob")]⟩].Perm rows := by
  have hrows : Step.Exhausts (Rows.step .family .indexed .otherDescendants) (Rows.start .otherDescendants)
      [⟨[("x", .str "bob")]⟩] := Step.exhausts_iff.2 ⟨9, by rfl⟩
  have hperm : Store.family.entries.toList.Perm Store.familyReordered.entries.toList := .swap _ _ []
  have hreachable : Store.familyReordered.Reachable :=
    .addFact (.addRule _ (.withReferences _)) (t := ⟨.str "ann", .str "parent", .str "bob"⟩) rfl
  have hquery : Query.ofGoals? ⟨[some "x"]⟩ Query.otherDescendants.goals = .ok .otherDescendants := rfl
  exact rows_perm_of_entries_perm Store.reachable_family hreachable hperm hquery .indexed .fullScan hrows

end TripleStore
