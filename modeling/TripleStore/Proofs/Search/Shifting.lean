import TripleStore.Proofs.Search.Renaming

/-!
# Shifted bindings

A use of a rule moves all variables of the rule into a range of their own. Nothing that a search asks depends on where
that range begins: once the bindings are moved too (`Bindings.shift`), unification ends with the same bindings in their
place, values are the same terms in their place, checks are decided alike and the same entries are candidates
(**`Bindings.shift_equivariant`**). The same goes for every renaming that keeps different variables apart
(`Bindings.renamedTo_rename`, `Bindings.unify_rename`).
-/

namespace TripleStore.Bindings

variable {s s' : Bindings} {ρ : Nat → Nat}

/-! ### Renaming all variables of some bindings -/

/-- Binds `ρ v` to `t.rename ρ` for each binding of a variable `v` to a term `t`. -/
def rename (ρ : Nat → Nat) (s : Bindings) : Bindings :=
  ⟨.ofList (s.entries.toList.map fun b => (ρ b.1, b.2.rename ρ)) compare⟩

/-- Binds `v + d` to `t.shift d` for each binding of a variable `v` to a term `t`. -/
def shift (d : Nat) (s : Bindings) : Bindings := s.rename (· + d)

theorem get?_rename_of_get? (hρ : ρ.Injective) {v : Nat} {t : Term} (hv : s.get? v = some t) :
    (s.rename ρ).get? (ρ v) = some (t.rename ρ) := by
  refine Std.ExtTreeMap.getElem?_ofList_of_mem Std.ReflCmp.compare_self ?_ ?_
  · -- different variables are renamed differently, so no binding takes the place of another one
    rw [List.pairwise_map]
    refine s.entries.distinct_keys_toList.imp fun hab heq => hab ?_
    rw [Std.LawfulEqCmp.compare_eq_iff_eq] at heq ⊢
    exact hρ heq
  · exact List.mem_map.2 ⟨(v, t), Std.ExtTreeMap.mem_toList_iff_getElem?_eq_some.2 hv, rfl⟩

theorem get?_rename_of_forall {w : Nat} (hw : ∀ v t, s.get? v = some t → ρ v ≠ w) : (s.rename ρ).get? w = none := by
  refine Std.ExtTreeMap.getElem?_ofList_of_contains_eq_false ?_
  simp only [List.contains_eq_mem, List.map_map, decide_eq_false_iff_not, List.mem_map, not_exists, not_and]
  exact fun b hb => hw b.1 b.2 (Std.ExtTreeMap.mem_toList_iff_getElem?_eq_some.1 hb)

theorem renamedTo_rename (hρ : ρ.Injective) (s : Bindings) : s.RenamedTo ρ (s.rename ρ) where
  get?_map v := by
    cases hv : s.get? v with
    | some t => exact get?_rename_of_get? hρ hv
    | none =>
      refine get?_rename_of_forall fun u t hu huv => ?_
      rw [hρ huv, hv] at hu
      cases hu
  get?_of_ne w hw := get?_rename_of_forall fun v _ _ => hw v

/-- Renamed bindings are determined by what they are renamed from. -/
theorem RenamedTo.eq_rename (hρ : ρ.Injective) (h : s.RenamedTo ρ s') : s' = s.rename ρ := by
  ext w : 1
  by_cases hw : ∃ v, ρ v = w
  · obtain ⟨v, rfl⟩ := hw
    rw [h.get?_map, (renamedTo_rename hρ s).get?_map]
  · have hne : ∀ v, ρ v ≠ w := fun v hv => hw ⟨v, hv⟩
    rw [h.get?_of_ne w hne, (renamedTo_rename hρ s).get?_of_ne w hne]

/-- **Unification ends with the renamed bindings**, or fails as before. -/
theorem unify_rename (hρ : ρ.Injective) (hs : s.Acyclic) (a b : Term) :
    (s.rename ρ).unify (a.rename ρ) (b.rename ρ) = (s.unify a b).map (rename ρ) := by
  have hrel := (renamedTo_rename hρ s).unify hρ hs a b
  generalize s.unify a b = r at hrel ⊢
  generalize (s.rename ρ).unify (a.rename ρ) (b.rename ρ) = r' at hrel ⊢
  cases hrel with
  | none => rfl
  | some h => exact congrArg some (h.eq_rename hρ)

/-! ### Moving the range of the variables -/

/-- **Moving all variables by the same number changes no answer.** Terms unify as before, with the bindings moved; a
value is the value from before, moved; a check is decided as before, and stops at the same argument if it cannot be; and
a triple has the same candidates. -/
theorem shift_equivariant (hs : s.Acyclic) (d : Nat) :
    (∀ a b : Term, (s.shift d).unify (a.shift d) (b.shift d) = (s.unify a b).map (shift d)) ∧
      (∀ t : Term, (s.shift d).reify (t.shift d) = (s.reify t).shift d) ∧
      (∀ c : Check, (c.map (Term.shift d)).run (s.shift d) = (c.run s).mapError (Uninstantiated.rename (· + d))) ∧
      ∀ (st : Store) (mode : Retrieval) (t : Triple),
        st.candidates mode (s.shift d) (t.shift d) = st.candidates mode s t := by
  have hρ : Function.Injective (· + d) := fun _ _ => Nat.add_right_cancel
  have hshift : s.RenamedTo (· + d) (s.shift d) := renamedTo_rename hρ s
  exact ⟨unify_rename hρ hs, hshift.reify hρ, hshift.run hρ, hshift.candidates hρ⟩

/-- With `2` bound to a pair of `0` and a text, and `0` bound to `1`, the same questions are asked seven places further
on. -/
theorem shift_equivariant_pair : ∃ s : Bindings, s.Acyclic ∧
    (s.shift 7).unify (.var 9) (.compound [.str "ann", .var 10]) =
        some (((s.extend 1 (.str "ann")).extend 3 (.str "x")).shift 7) ∧
      (s.shift 7).reify (.var 9) = .compound [.var 8, .str "x"] ∧
      Check.run (s.shift 7) (.distinct (.var 7) (.str "x")) = .error ⟨"neq", .var 8⟩ ∧
      Store.family.candidates .indexed (s.shift 7) ⟨.var 9, .str "parent", .var 7⟩ = [0] := by
  have hs : ((empty.extend 0 (.var 1)).extend 2 (.compound [.var 0, .str "x"])).Acyclic :=
    acyclic_extend (acyclic_extend acyclic_empty (get?_empty 0) (by decide)) (by rfl) (by decide)
  obtain ⟨hunify, hreify, hrun, hcandidates⟩ := shift_equivariant hs 7
  refine ⟨_, hs, ?_, ?_, ?_, ?_⟩
  · exact (hunify (.var 2) (.compound [.str "ann", .var 3])).trans (by rfl)
  · exact (hreify (.var 2)).trans (by rfl)
  · exact (hrun (.distinct (.var 0) (.str "x"))).trans (by rfl)
  · exact (hcandidates Store.family .indexed ⟨.var 2, .str "parent", .var 0⟩).trans (by rfl)

end TripleStore.Bindings
