import TripleStore.Proofs.Bindings.Unification
import TripleStore.Proofs.Checks

/-!
# How bindings grow

Unification adds bindings and changes none. It stays inside the values of the two terms (**`unify_new_bindings`**): what
it binds are variables of these values, and what it binds them to has no other variables once the earlier bindings are
put in. So no variable comes to reach itself.

What bindings have settled, later ones leave as it is (**`settled_of_unifyAll`**): values may be put in early or late, a
ground value stays the value, and a check that is decided stays decided. Only a check that met an argument that is not
instantiated can end in another way later on.
-/

namespace TripleStore.Bindings

open Term

variable {s s' : Bindings}

/-! ### What is bound -/

/-- A condition on the variables of the value is handed on to the items of a sequence and to bound terms. -/
theorem Acyclic.hereditary_reify (hs : s.Acyclic) (P : Nat → Prop) :
    s.Hereditary fun t => ∀ w ∈ (s.reify t).vars, P w where
  item {items} h t ht w hw := by
    rw [reify_compound] at h
    exact h w (mem_vars_compound.2 ⟨s.reify t, List.mem_map_of_mem ht, hw⟩)
  bound {v t} hv h := by rwa [reify_var hs hv] at h

/-- A variable that is bound anew meets every condition that the variables of the values of the pairs meet, and so do
the variables of the value of its term. -/
theorem Unified.new_binding_vars (hs : s.Acyclic) {pairs : List (Term × Term)} (h : Unified s pairs s')
    {P : Nat → Prop} (hP : ∀ p ∈ pairs, (∀ w ∈ (s.reify p.1).vars, P w) ∧ ∀ w ∈ (s.reify p.2).vars, P w) {v : Nat}
    {t : Term} (hv : s'.get? v = some t) (hnew : s.get? v = none) : P v ∧ ∀ w ∈ (s.reify t).vars, P w := by
  rcases h.new_binding (hs.hereditary_reify P) hP v t hv with hold | ⟨hvars, ht⟩
  · rw [hnew] at hold
    cases hold
  · refine ⟨hvars v ?_, ht⟩
    rw [reify_var_of_none hnew, mem_vars_var]

/-- **Unification preserves well-formedness and touches nothing else.** What it returns on acyclic bindings is acyclic
and has every binding as it was. A variable with a new binding was unbound and occurs in the value of one of the two
terms, and so does every variable of the value, under the bindings so far, of the term that it is bound to. -/
theorem unify_new_bindings (hs : s.Acyclic) {a b : Term} (h : s.unify a b = some s') :
    s'.Acyclic ∧ s.ExtendedBy s' ∧ ∀ v t, s'.get? v = some t → s.get? v ≠ some t →
      s.get? v = none ∧ (v ∈ (s.reify a).vars ∨ v ∈ (s.reify b).vars) ∧
        ∀ w ∈ (s.reify t).vars, w ∈ (s.reify a).vars ∨ w ∈ (s.reify b).vars := by
  have hunified := unified_of_unify hs h
  refine ⟨hunified.acyclic, hunified.extended, fun v t hv hne => ?_⟩
  have hnew : s.get? v = none := by
    cases hold : s.get? v with
    | none => rfl
    | some u =>
      have hkept := hunified.extended v u hold
      rw [hv] at hkept
      cases hkept
      exact absurd hold hne
  have hpairs : ∀ p ∈ [(a, b)], (∀ w ∈ (s.reify p.1).vars, w ∈ (s.reify a).vars ∨ w ∈ (s.reify b).vars) ∧
      ∀ w ∈ (s.reify p.2).vars, w ∈ (s.reify a).vars ∨ w ∈ (s.reify b).vars :=
    List.forall_mem_singleton.2 ⟨fun _ => .inl, fun _ => .inr⟩
  exact ⟨hnew, hunified.new_binding_vars hs hpairs hv hnew⟩

/-- Where `0` is bound to a pair that begins with `1`, it unifies with the pair of `3` and `4`: bound anew are `1`,
which the value of `0` has, and `4`. -/
theorem unify_new_bindings_pair : ∃ s s' : Bindings, s.Acyclic ∧
    s.unify (.var 0) (.compound [.var 3, .var 4]) = some s' ∧ s'.Acyclic ∧ s.ExtendedBy s' ∧
      s'.get? 1 = some (.var 3) ∧ s'.get? 4 = some (.str "x") ∧
        ∀ v t, s'.get? v = some t → s.get? v ≠ some t → s.get? v = none ∧
          (v ∈ (s.reify (.var 0)).vars ∨ v ∈ (s.reify (.compound [.var 3, .var 4])).vars) ∧
            ∀ w ∈ (s.reify t).vars,
              w ∈ (s.reify (.var 0)).vars ∨ w ∈ (s.reify (.compound [.var 3, .var 4])).vars := by
  have hs : (empty.extend 0 (.compound [.var 1, .str "x"])).Acyclic :=
    acyclic_extend acyclic_empty (get?_empty 0) (by decide)
  have hu : (empty.extend 0 (.compound [.var 1, .str "x"])).unify (.var 0) (.compound [.var 3, .var 4]) =
      some (((empty.extend 0 (.compound [.var 1, .str "x"])).extend 1 (.var 3)).extend 4 (.str "x")) := by rfl
  obtain ⟨hacyclic, hextended, hnew⟩ := unify_new_bindings hs hu
  exact ⟨_, _, hs, hu, hacyclic, hextended, by rfl, by rfl, hnew⟩

/-! ### What stays settled -/

/-- A ground value stays the value. -/
theorem ExtendedBy.reify_eq_of_isGround (h : s.ExtendedBy s') (hs' : s'.Acyclic) {t : Term}
    (hground : (s.reify t).isGround = true) : s'.reify t = s.reify t := by
  rw [← h.reify_reify hs', reify_of_isGround hground]

theorem ExtendedBy.resolve?_eq_some (h : s.ExtendedBy s') (hs' : s'.Acyclic) {v : Nat} {t : Term}
    (ht : s.resolve? v = some t) : s'.resolve? v = some t := by
  unfold resolve? at ht ⊢
  dsimp only at ht ⊢
  split at ht
  · rename_i hground
    rw [h.reify_eq_of_isGround hs' hground, if_pos hground, ht]
  · cases ht

/-- A check that is decided has ground arguments, which keep their values. -/
theorem ExtendedBy.run_eq_ok (h : s.ExtendedBy s') (hs' : s'.Acyclic) {c : Check} {b : Bool} (hb : c.run s = .ok b) :
    c.run s' = .ok b := by
  obtain ⟨hground, hverdict⟩ := Check.run_eq_ok_iff.1 hb
  have hvalue : ∀ t ∈ c.args, s'.reify t = s.reify t := fun t ht => h.reify_eq_of_isGround hs' (hground t ht)
  refine Check.run_eq_ok_iff.2 ⟨fun t ht => ?_, ?_⟩
  · rw [hvalue t ht]
    exact hground t ht
  · rw [Check.verdict_congr hvalue, hverdict]

/-- What is settled under `s` is settled in the same way under `s'`. -/
structure Settled (s s' : Bindings) : Prop where
  /-- Values may be put in before. -/
  reify : ∀ t, s'.reify (s.reify t) = s'.reify t
  /-- Variables keep their ground values. -/
  resolve : ∀ v t, s.resolve? v = some t → s'.resolve? v = some t
  /-- Checks that are decided stay decided. -/
  run : ∀ c b, Check.run s c = .ok b → Check.run s' c = .ok b
  /-- A check that ends in another way met an argument whose value was not ground. -/
  error : ∀ c, Check.run s' c ≠ Check.run s c →
    ∃ t ∈ c.args, (s.reify t).isGround = false ∧ Check.run s c = .error ⟨c.operator, s.reify t⟩

theorem ExtendedBy.settled (h : s.ExtendedBy s') (hs' : s'.Acyclic) : Settled s s' where
  reify t := h.reify_reify hs' t
  resolve _ _ ht := h.resolve?_eq_some hs' ht
  run _ _ hb := h.run_eq_ok hs' hb
  error c hne := by
    cases hrun : c.run s with
    | ok b => exact absurd ((h.run_eq_ok hs' hrun).trans hrun.symm) hne
    | error e =>
      obtain ⟨t, ht, hopen, rfl⟩ := Check.exists_of_run_eq_error hrun
      exact ⟨t, ht, hopen, rfl⟩

/-- **What is settled stays settled**, through any sequence of unifications that succeed. -/
theorem settled_of_unifyAll (hs : s.Acyclic) {pairs : List (Term × Term)} (h : s.unifyAll pairs = some s') :
    Settled s s' :=
  have hunified := unified_of_unifyAll hs h
  hunified.extended.settled hunified.acyclic

/-- With `0` bound to a pair that begins with `1`, the check that `0` differs from `"x"` is not decided. It is after two
unifications that bind `1`, and the check that `2` is not `"x"`, decided before, is as it was. -/
theorem settled_pair : ∃ s s' : Bindings, s.Acyclic ∧
    s.unifyAll [(.var 1, .var 3), (.compound [.var 3], .compound [.str "x"])] = some s' ∧ Settled s s' ∧
      Check.run s (.distinct (.var 2) (.str "x")) = .ok true ∧
        Check.run s' (.distinct (.var 2) (.str "x")) = .ok true ∧
          Check.run s (.distinct (.var 0) (.str "x")) = .error ⟨"neq", .compound [.var 1, .int 5]⟩ ∧
            Check.run s' (.distinct (.var 0) (.str "x")) = .ok true := by
  have hs : ((empty.extend 0 (.compound [.var 1, .int 5])).extend 2 (.str "y")).Acyclic :=
    acyclic_extend (acyclic_extend acyclic_empty (get?_empty 0) (by decide)) (by rfl) (by decide)
  have hu : ((empty.extend 0 (.compound [.var 1, .int 5])).extend 2 (.str "y")).unifyAll
      [(.var 1, .var 3), (.compound [.var 3], .compound [.str "x"])] =
        some ((((empty.extend 0 (.compound [.var 1, .int 5])).extend 2 (.str "y")).extend 1 (.var 3)).extend 3
          (.str "x")) := by rfl
  have hsettled := settled_of_unifyAll hs hu
  exact ⟨_, _, hs, hu, hsettled, by rfl, hsettled.run _ _ (by rfl), by rfl, by rfl⟩

end TripleStore.Bindings
