import TripleStore.Proofs.Search.Exhaustion

/-!
# More facts and rules

A store with more entries, the others in their order between them, answers a query with more rows: if its rows come to
their end without an error, then so do the rows of the smaller store, and these are some of those, in the same order
(**`rows_sublist_of_entries_sublist`**). Every choice of the smaller search, inside the body of whatever rule, is the
larger one without some of its candidates.

`Grows` is what is left of that for two resolutions. It is read backwards: a larger resolution that is exhausted has no
part that is not, so the smaller one cannot meet an error or the bound on the depth either.
-/

namespace TripleStore

namespace Resolution

variable {α β : Type} {A A' B B' : Resolution α}

/-- If the second resolution is exhausted, so is the first, and its answers are some of those of the second, in the
same order. -/
def Grows (A B : Resolution α) : Prop := B.stop = .exhausted → A.stop = .exhausted ∧ A.answers.Sublist B.answers

theorem Grows.refl (A : Resolution α) : A.Grows A := fun h => ⟨h, .refl _⟩

theorem Grows.andThen (hA : A.Grows A') (hB : B.Grows B') : (A.andThen B).Grows (A'.andThen B') := by
  intro h
  obtain ⟨hstopA', hstopB'⟩ := exhausted_of_andThen h
  obtain ⟨hstopA, hanswersA⟩ := hA hstopA'
  obtain ⟨hstopB, hanswersB⟩ := hB hstopB'
  rw [andThen_of_exhausted hstopA, andThen_of_exhausted hstopA']
  exact ⟨hstopB, hanswersA.append hanswersB⟩

/-- What comes first in the larger resolution may be missing from the smaller one. -/
theorem Grows.andThen_right (hB : B.Grows B') (A : Resolution α) : B.Grows (A.andThen B') := by
  intro h
  obtain ⟨hstopA, hstopB'⟩ := exhausted_of_andThen h
  obtain ⟨hstopB, hanswers⟩ := hB hstopB'
  rw [andThen_of_exhausted hstopA]
  exact ⟨hstopB, hanswers.trans (List.sublist_append_right _ _)⟩

/-- The larger resolution may go through more than the smaller one. -/
theorem Grows.concat {f f' : β → Resolution α} (hf : ∀ b, (f b).Grows (f' b)) {bs bs' : List β} (h : bs.Sublist bs') :
    (Resolution.concat (bs.map f)).Grows (Resolution.concat (bs'.map f')) := by
  induction h with
  | slnil => exact .refl _
  | cons b _ ih => exact ih.andThen_right (f' b)
  | cons_cons b _ ih => exact (hf b).andThen ih

theorem Grows.bind (hA : A.Grows A') {f f' : α → Resolution β} (hf : ∀ a, (f a).Grows (f' a)) :
    (A.bind f).Grows (A'.bind f') := by
  intro h
  have hstop' := exhausted_of_bind h
  obtain ⟨hstop, hanswers⟩ := hA hstop'
  rw [bind_eq_concat hstop'] at h ⊢
  rw [bind_eq_concat hstop]
  exact Grows.concat hf hanswers h

end Resolution

namespace Store

variable {st st' : Store} {call call' : Bindings → Nat → List Goal → Resolution (Bindings × Nat)}

theorem resolveGoals_grows (hsub : st.entries.toList.Sublist st'.entries.toList)
    (hcall : ∀ s n goals, (call s n goals).Grows (call' s n goals)) (goals : List Goal) (a : Bindings × Nat) :
    (st.resolveGoals .fullScan call goals a).Grows (st'.resolveGoals .fullScan call' goals a) := by
  refine resolveGoals_rel Resolution.Grows.refl (fun s n t rest rest' hrest => ?_) goals a
  rw [map_resolveAt_candidates, map_resolveAt_candidates]
  exact .concat (resolveEntry_rel Resolution.Grows.refl (fun hA hf => hA.bind hf) hcall hrest s n t) hsub

/-- **Within any bound on the depth the resolver finds more** in a store with more entries. -/
theorem resolve_grows (hsub : st.entries.toList.Sublist st'.entries.toList) (d : Nat) : ∀ (s : Bindings) (n : Nat)
    (goals : List Goal), (st.resolve .fullScan d s n goals).Grows (st'.resolve .fullScan d s n goals) := by
  induction d with
  | zero => exact fun _ _ _ => .refl _
  | succ d ih => exact fun s n goals => resolveGoals_grows hsub ih goals (s, n)

end Store

/-- **More entries, more rows.** If the entries of a store are some of those of another, in the same order, and the rows
of a query on the larger store come to their end without an error, then so do its rows on the smaller one, and they are
some of the rows on the larger one, in the same order. -/
theorem rows_sublist_of_entries_sublist {st st' : Store} (hst : st.Reachable) (hst' : st'.Reachable)
    (hsub : st.entries.toList.Sublist st'.entries.toList) {scope : Scope} {goals : List Goal} {query : Query}
    (hquery : Query.ofGoals? scope goals = .ok query) (mode mode' : Retrieval) {rows' : List Row}
    (h : Step.Exhausts (Rows.step st' mode' query) (Rows.start query) rows') :
    ∃ rows, Step.Exhausts (Rows.step st mode query) (Rows.start query) rows ∧ rows.Sublist rows' := by
  have hvars := Query.vars_lt_scope hquery
  obtain ⟨d, hd, rfl⟩ := (Rows.exhausts_iff_resolve hst' hvars).1 h
  obtain ⟨hd', hanswers⟩ := Store.resolve_grows hsub d .empty query.scope query.goals hd
  exact ⟨_, (Rows.exhausts_iff_resolve hst hvars).2 ⟨d, hd', rfl⟩, hanswers.filterMap _⟩

end TripleStore
