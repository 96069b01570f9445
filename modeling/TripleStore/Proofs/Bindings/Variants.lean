import TripleStore.Proofs.Bindings.Failure

/-!
# Variants

Acyclic bindings that are respected by the same assignments are variants: they have the same size, and one renaming of
the variables leads from the values under the one to the values under the other (**`Equivalent.variants`**). The
renaming is `exchange`: each variable that only one of the bindings leaves unbound changes places with the variable
that is its value under the other, and it goes back as it came (`Equivalent.involutive_exchange`).

The assignments that make all pairs of a list equal do not depend on the order of the pairs, or on which side of a pair
a term stands (`Rearranged.forall_equal_iff`). So all ways to solve the pairs of a list fail, or all succeed, with
variants (**`unifyAll_rearranged`**).
-/

namespace TripleStore.Bindings

open Term

variable {s s₁ s₂ : Bindings} {v : Nat}

/-- The second bindings are as many as the first and give the same values, but for the names of variables. -/
structure Variants (s₁ s₂ : Bindings) : Prop where
  size_eq : s₁.size = s₂.size
  renamed : ∃ ρ : Nat → Nat, ρ.Bijective ∧ ∀ t, s₂.reify t = (s₁.reify t).rename ρ

/-- Both bindings are acyclic, and they are respected by the same assignments. -/
structure Equivalent (s₁ s₂ : Bindings) : Prop where
  left : s₁.Acyclic
  right : s₂.Acyclic
  respectedBy_iff : ∀ τ, s₁.RespectedBy τ ↔ s₂.RespectedBy τ

theorem Equivalent.symm (h : Equivalent s₁ s₂) : Equivalent s₂ s₁ :=
  ⟨h.right, h.left, fun τ => (h.respectedBy_iff τ).symm⟩

/-- The values under the one bindings lead to those under the other. -/
theorem Equivalent.subst_value (h : Equivalent s₁ s₂) (t : Term) : (s₁.reify t).subst s₂.value = s₂.reify t := by
  rw [((h.respectedBy_iff _).2 h.right.respectedBy_value).subst_reify, reify_eq_subst]

/-- A variable that the one bindings leave unbound has a variable for its value under the other. That one is left
unbound there, and has the first one for its value under the one bindings. -/
theorem Equivalent.exists_var (h : Equivalent s₁ s₂) (hv : s₁.get? v = none) :
    ∃ w, s₂.value v = .var w ∧ s₂.get? w = none ∧ s₁.value w = .var v := by
  have hback : (s₂.value v).subst s₁.value = .var v := by rw [value, h.symm.subst_value, reify_var_of_none hv]
  cases hvalue : s₂.value v with
  | var w =>
    have hmem : w ∈ (s₂.reify (.var v)).vars := by rw [show s₂.reify (.var v) = .var w from hvalue, mem_vars_var]
    rw [hvalue] at hback
    exact ⟨w, rfl, ((mem_vars_reify h.right).1 hmem).1, hback⟩
  | compound items =>
    rw [hvalue, subst_compound] at hback
    cases hback
  | _ =>
    rw [hvalue] at hback
    cases hback

/-! ### The exchange of variables -/

/-- Exchanges each variable that only one of the bindings leaves unbound with the variable that is its value under the
other. -/
def exchange (s₁ s₂ : Bindings) (v : Nat) : Nat :=
  match s₁.get? v, s₂.get? v with
  | none, some _ => (s₂.value v).vars.headD v
  | some _, none => (s₁.value v).vars.headD v
  | _, _ => v

theorem exchange_comm (s₁ s₂ : Bindings) : s₁.exchange s₂ = s₂.exchange s₁ := by
  funext v
  unfold exchange
  cases s₁.get? v <;> cases s₂.get? v <;> rfl

theorem exchange_of_bound (h₁ : s₁.get? v ≠ none) (h₂ : s₂.get? v ≠ none) : s₁.exchange s₂ v = v := by
  unfold exchange
  cases hv₁ : s₁.get? v with
  | none => exact absurd hv₁ h₁
  | some t₁ =>
    cases hv₂ : s₂.get? v with
    | none => exact absurd hv₂ h₂
    | some t₂ => rfl

theorem Equivalent.value_eq_var (h : Equivalent s₁ s₂) (hv : s₁.get? v = none) :
    s₂.value v = .var (s₁.exchange s₂ v) := by
  unfold exchange
  rw [hv]
  cases hv₂ : s₂.get? v with
  | none => exact reify_var_of_none hv₂
  | some t =>
    obtain ⟨w, hw, -⟩ := h.exists_var hv
    rw [hw]
    rfl

theorem Equivalent.exchange_exchange_of_none (h : Equivalent s₁ s₂) (hv : s₁.get? v = none) :
    s₁.exchange s₂ (s₁.exchange s₂ v) = v := by
  obtain ⟨w, hw, hnone, hback⟩ := h.exists_var hv
  have hto : s₁.exchange s₂ v = w := Term.var.inj ((h.value_eq_var hv).symm.trans hw)
  rw [hto, exchange_comm]
  exact Term.var.inj ((h.symm.value_eq_var hnone).symm.trans hback)

/-- Exchanging twice changes nothing. -/
theorem Equivalent.involutive_exchange (h : Equivalent s₁ s₂) : (s₁.exchange s₂).Involutive := by
  intro v
  by_cases h₁ : s₁.get? v = none
  · exact h.exchange_exchange_of_none h₁
  · by_cases h₂ : s₂.get? v = none
    · rw [exchange_comm]
      exact h.symm.exchange_exchange_of_none h₂
    · rw [exchange_of_bound h₁ h₂, exchange_of_bound h₁ h₂]

/-- A bound variable is exchanged with one that the other bindings bind. -/
theorem Equivalent.exchange_mem_bound (h : Equivalent s₁ s₂) (hv : v ∈ s₁.bound) : s₁.exchange s₂ v ∈ s₂.bound := by
  rw [mem_bound, Option.isSome_iff_ne_none] at hv ⊢
  by_cases h₂ : s₂.get? v = none
  · obtain ⟨w, hw, hnone, hback⟩ := h.symm.exists_var h₂
    have hto : s₁.exchange s₂ v = w := by
      rw [exchange_comm]
      exact Term.var.inj ((h.symm.value_eq_var h₂).symm.trans hw)
    rw [hto]
    intro hw₂
    -- left unbound by both, it would be its own value, and so `v`, which is bound
    rw [value, reify_var_of_none hw₂] at hback
    cases hback
    exact hv hnone
  · rw [exchange_of_bound hv h₂]
    exact h₂

theorem Equivalent.size_le (h : Equivalent s₁ s₂) : s₁.size ≤ s₂.size := by
  rw [← card_bound, ← card_bound]
  exact Finset.card_le_card_of_injOn (s₁.exchange s₂) (fun v hv => h.exchange_mem_bound hv)
    h.involutive_exchange.injective.injOn

/-- The values under the one bindings, renamed by the exchange, are those under the other. -/
theorem Equivalent.reify_eq_rename (h : Equivalent s₁ s₂) (t : Term) :
    s₂.reify t = (s₁.reify t).rename (s₁.exchange s₂) := by
  rw [← h.subst_value, rename]
  exact subst_congr fun v hv => h.value_eq_var ((mem_vars_reify h.left).1 hv).1

/-- **Bindings that are respected by the same assignments are variants.** -/
theorem Equivalent.variants (h : Equivalent s₁ s₂) : Variants s₁ s₂ where
  size_eq := Nat.le_antisymm h.size_le h.symm.size_le
  renamed := ⟨s₁.exchange s₂, h.involutive_exchange.bijective, h.reify_eq_rename⟩

/-! ### The order of pairs -/

/-- The second list has the pairs of the first, in any order and with any of them turned round. -/
def Rearranged (ps qs : List (Term × Term)) : Prop :=
  ∃ rs, ps.Perm rs ∧ List.Forall₂ (fun p q => q = p ∨ q = p.swap) rs qs

theorem Rearranged.forall_equal_iff {ps qs : List (Term × Term)} (h : Rearranged ps qs) (τ : Nat → Term) :
    (∀ p ∈ ps, p.1.subst τ = p.2.subst τ) ↔ ∀ q ∈ qs, q.1.subst τ = q.2.subst τ := by
  obtain ⟨rs, hperm, hturned⟩ := h
  have hrs : (∀ p ∈ ps, p.1.subst τ = p.2.subst τ) ↔ ∀ p ∈ rs, p.1.subst τ = p.2.subst τ :=
    forall_congr' fun p => by rw [hperm.mem_iff]
  rw [hrs]
  clear hperm hrs
  induction hturned with
  | nil => simp
  | cons hpq _ ih =>
    rw [List.forall_mem_cons, List.forall_mem_cons]
    rcases hpq with rfl | rfl
    · exact and_congr Iff.rfl ih
    · exact and_congr eq_comm ih

/-- **Order and orientation of equations do not matter.** On acyclic bindings, all ways in which the pairs of a list can
be unified one after the other, in any order and with any of them turned round, fail, or all of them succeed; and any
two results are variants: they bind as many variables, and one renaming of the variables, which can be undone, leads
from the values of all terms under the one to those under the other. -/
theorem unifyAll_rearranged (hs : s.Acyclic) {ps qs₁ qs₂ : List (Term × Term)} (h₁ : Rearranged ps qs₁)
    (h₂ : Rearranged ps qs₂) : Option.Rel Variants (s.unifyAll qs₁) (s.unifyAll qs₂) := by
  have hequal (τ : Nat → Term) : (∀ q ∈ qs₁, q.1.subst τ = q.2.subst τ) ↔ ∀ q ∈ qs₂, q.1.subst τ = q.2.subst τ :=
    (h₁.forall_equal_iff τ).symm.trans (h₂.forall_equal_iff τ)
  have hexists : (∃ s₁, s.unifyAll qs₁ = some s₁) ↔ ∃ s₂, s.unifyAll qs₂ = some s₂ := by
    rw [exists_unifyAll_iff hs, exists_unifyAll_iff hs]
    exact exists_congr fun τ => and_congr_right fun _ => hequal τ
  cases hu₁ : s.unifyAll qs₁ with
  | none =>
    cases hu₂ : s.unifyAll qs₂ with
    | none => exact .none
    | some s₂ =>
      obtain ⟨s₁, hu⟩ := hexists.2 ⟨s₂, hu₂⟩
      rw [hu₁] at hu
      cases hu
  | some s₁ =>
    obtain ⟨s₂, hu₂⟩ := hexists.1 ⟨s₁, hu₁⟩
    rw [hu₂]
    have hunified₁ := unified_of_unifyAll hs hu₁
    have hunified₂ := unified_of_unifyAll hs hu₂
    have hequivalent : Equivalent s₁ s₂ := ⟨hunified₁.acyclic, hunified₂.acyclic, fun τ => by
      rw [hunified₁.respectedBy_iff, hunified₂.respectedBy_iff, hequal]⟩
    exact .some hequivalent.variants

/-- Where `0` is bound to a pair that begins with `1`, two ways to solve two equations bind different variables, and
give variants. -/
theorem unifyAll_rearranged_pair : ∃ s s₁ s₂ : Bindings, s.Acyclic ∧
    s.unifyAll [(.var 2, .var 1), (.var 3, .var 0)] = some s₁ ∧
      s.unifyAll [(.var 0, .var 3), (.var 1, .var 2)] = some s₂ ∧ s₁.get? 1 ≠ s₂.get? 1 ∧ Variants s₁ s₂ := by
  have hs : (empty.extend 0 (.compound [.var 1, .str "x"])).Acyclic :=
    acyclic_extend acyclic_empty (get?_empty 0) (by decide)
  have h₁ : Rearranged [(.var 2, .var 1), (.var 3, .var 0)] [(.var 2, .var 1), (.var 3, .var 0)] :=
    ⟨_, .refl _, .cons (.inl rfl) (.cons (.inl rfl) .nil)⟩
  have h₂ : Rearranged [(.var 2, .var 1), (.var 3, .var 0)] [(.var 0, .var 3), (.var 1, .var 2)] :=
    ⟨_, .swap _ _ _, .cons (.inr rfl) (.cons (.inr rfl) .nil)⟩
  have hu₁ : (empty.extend 0 (.compound [.var 1, .str "x"])).unifyAll [(.var 2, .var 1), (.var 3, .var 0)] =
      some (((empty.extend 0 (.compound [.var 1, .str "x"])).extend 2 (.var 1)).extend 3
        (.compound [.var 1, .str "x"])) := by rfl
  have hu₂ : (empty.extend 0 (.compound [.var 1, .str "x"])).unifyAll [(.var 0, .var 3), (.var 1, .var 2)] =
      some (((empty.extend 0 (.compound [.var 1, .str "x"])).extend 3 (.compound [.var 1, .str "x"])).extend 1
        (.var 2)) := by rfl
  have h := unifyAll_rearranged hs h₁ h₂
  rw [hu₁, hu₂] at h
  cases h with
  | some hvariants => exact ⟨_, _, _, hs, hu₁, hu₂, by decide, hvariants⟩

end TripleStore.Bindings
