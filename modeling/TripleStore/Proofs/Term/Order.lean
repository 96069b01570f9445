import TripleStore.Proofs.Term.Assignment
import TripleStore.Term.Order

/-!
# The order on terms is lawful

Comparing terms with `Term.cmp` gives equality exactly for equal terms, the opposite when the terms are
exchanged, and is transitive; so do pairs of terms. Search trees with terms as keys rest on these instances.
Each law is first stated for lists of terms, from the law for their items.
-/

namespace TripleStore.Term

open Std

theorem cmp_of_kind_ne {a b : Term} (h : a.kind ≠ b.kind) : cmp a b = compare a.kind b.kind := by
  cases a <;> cases b <;> first | rfl | exact absurd rfl h

/-! ### Exchange -/

theorem cmpAll_eq_swap {xs : List Term} (h : ∀ x ∈ xs, ∀ y, cmp x y = (cmp y x).swap) (ys : List Term) :
    cmpAll xs ys = (cmpAll ys xs).swap := by
  induction xs generalizing ys with
  | nil => cases ys <;> rfl
  | cons x xs ih =>
    cases ys with
    | nil => rfl
    | cons y ys =>
      obtain ⟨hx, hxs⟩ := List.forall_mem_cons.1 h
      rw [cmpAll, cmpAll, Ordering.swap_then, hx y, ih hxs ys]

theorem cmp_eq_swap (a b : Term) : cmp a b = (cmp b a).swap := by
  induction a generalizing b with
  | compound xs ih =>
    cases b with
    | compound ys => exact cmpAll_eq_swap ih ys
    | _ => exact OrientedOrd.eq_swap
  | _ => cases b <;> exact OrientedOrd.eq_swap

instance : OrientedCmp cmp := ⟨cmp_eq_swap _ _⟩

/-! ### Equality -/

theorem kind_eq_of_cmp_eq {a b : Term} (h : cmp a b = .eq) : a.kind = b.kind := by
  by_contra hk
  rw [cmp_of_kind_ne hk] at h
  exact hk (LawfulEqOrd.eq_of_compare h)

theorem eq_of_cmpAll {xs : List Term} (h : ∀ x ∈ xs, ∀ y, cmp x y = .eq → x = y) {ys : List Term}
    (hc : cmpAll xs ys = .eq) : xs = ys := by
  induction xs generalizing ys with
  | nil =>
    cases ys with
    | nil => rfl
    | cons y ys => cases hc
  | cons x xs ih =>
    cases ys with
    | nil => cases hc
    | cons y ys =>
      obtain ⟨hx, hxs⟩ := List.forall_mem_cons.1 h
      rw [cmpAll, Ordering.then_eq_eq] at hc
      rw [hx y hc.1, ih hxs hc.2]

theorem eq_of_cmp {a b : Term} (h : cmp a b = .eq) : a = b := by
  have hk := kind_eq_of_cmp_eq h
  induction a generalizing b with
  | compound xs ih =>
    cases b with
    | compound ys => exact congrArg _ (eq_of_cmpAll (fun x hx y h => ih x hx h (kind_eq_of_cmp_eq h)) h)
    | _ => cases hk
  | _ => cases b <;> first | exact congrArg _ (LawfulEqOrd.eq_of_compare h) | cases hk

instance : LawfulEqCmp cmp where
  compare_self := ReflCmp.compare_self
  eq_of_compare := eq_of_cmp

/-! ### Transitivity -/

theorem cmpAll_isLE_trans {xs : List Term}
    (h : ∀ x ∈ xs, ∀ y z, (cmp x y).isLE → (cmp y z).isLE → (cmp x z).isLE) {ys zs : List Term}
    (hxy : (cmpAll xs ys).isLE) (hyz : (cmpAll ys zs).isLE) : (cmpAll xs zs).isLE := by
  induction xs generalizing ys zs with
  | nil => cases zs <;> rfl
  | cons x xs ih =>
    cases ys with
    | nil => cases hxy
    | cons y ys =>
      cases zs with
      | nil => cases hyz
      | cons z zs =>
        obtain ⟨hx, hxs⟩ := List.forall_mem_cons.1 h
        rw [cmpAll, Ordering.isLE_then_iff_or] at *
        have hle : (cmp x z).isLE := by
          refine hx y z ?_ ?_
          · rcases hxy with hxy | ⟨hxy, -⟩ <;> rw [hxy] <;> rfl
          · rcases hyz with hyz | ⟨hyz, -⟩ <;> rw [hyz] <;> rfl
        by_cases heq : cmp x z = .eq
        · -- the first items are all equal, as the order goes up and down between them
          obtain rfl := eq_of_cmp heq
          rcases hxy with hxy | ⟨hxy, hxys⟩
          · rw [cmp_eq_swap y x, hxy] at hyz
            simp at hyz
          · obtain rfl := eq_of_cmp hxy
            rw [heq] at hyz
            exact .inr ⟨heq, ih hxs hxys (by simpa using hyz)⟩
        · cases hc : cmp x z with
          | lt => exact .inl rfl
          | eq => exact absurd hc heq
          | gt => rw [hc] at hle; cases hle

theorem cmp_isLE_trans {a b c : Term} (hab : (cmp a b).isLE) (hbc : (cmp b c).isLE) : (cmp a c).isLE := by
  induction a generalizing b c with
  | compound xs ih =>
    cases b with
    | compound ys =>
      cases c with
      | compound zs => exact cmpAll_isLE_trans (fun x hx y z => ih x hx) hab hbc
      | _ => cases hbc
    | _ => cases hab
  | _ =>
    cases b <;> cases c <;> first
      | exact TransOrd.isLE_trans hab hbc
      | rfl
      | exact absurd hab Bool.false_ne_true
      | exact absurd hbc Bool.false_ne_true

instance : TransCmp cmp := ⟨cmp_isLE_trans⟩

instance : TransCmp fun a b : Term × Term => cmp a.1 b.1 where
  eq_swap := cmp_eq_swap _ _
  isLE_trans := cmp_isLE_trans

instance : TransCmp fun a b : Term × Term => cmp a.2 b.2 where
  eq_swap := cmp_eq_swap _ _
  isLE_trans := cmp_isLE_trans

instance : TransCmp cmpPair :=
  inferInstanceAs (TransCmp (compareLex (fun a b : Term × Term => cmp a.1 b.1) fun a b => cmp a.2 b.2))

instance : LawfulEqCmp cmpPair where
  compare_self := ReflCmp.compare_self
  eq_of_compare {a b} h := by
    rw [cmpPair, Ordering.then_eq_eq] at h
    exact Prod.ext (eq_of_cmp h.1) (eq_of_cmp h.2)

end TripleStore.Term
