import Mathlib.Data.Finset.Card
import Mathlib.Logic.Relation
import TripleStore.Bindings
import TripleStore.Proofs.Term.Assignment

/-!
# Acyclic bindings

Bindings are acyclic when no variable reaches itself through bound terms. Then every variable has a rank
that falls along bindings and is at most the number of bindings (`Acyclic.exists_rank`), so that following
bindings comes to an end within the bounds of `walk` and `reify`: `walk_var`, `reify_var` are the equations
of the unbounded functions.

An assignment respects bindings when every bound variable has the value of its term. Values of terms under
such an assignment do not change when bindings are followed (`RespectedBy.subst_walk`,
`RespectedBy.subst_reify`), and acyclic bindings are respected by an assignment of their own
(`Acyclic.respectedBy_value`).
-/

namespace TripleStore.Bindings

open Term Relation

variable {s s' s'' : Bindings}

/-- The variable `v` is bound to a term in which `w` occurs. -/
def Mentions (s : Bindings) (v w : Nat) : Prop := ∃ t, s.get? v = some t ∧ w ∈ t.vars

/-- No variable reaches itself through bindings. -/
def Acyclic (s : Bindings) : Prop := ∀ v, ¬ TransGen s.Mentions v v

/-- Every binding of `s` is also one of `s'`. -/
def ExtendedBy (s s' : Bindings) : Prop := ∀ v t, s.get? v = some t → s'.get? v = some t

theorem ExtendedBy.refl (s : Bindings) : s.ExtendedBy s := fun _ _ h => h

theorem ExtendedBy.trans (h : s.ExtendedBy s') (h' : s'.ExtendedBy s'') : s.ExtendedBy s'' :=
  fun v t hv => h' v t (h v t hv)

/-- What is unbound in the larger bindings is unbound in the smaller ones. -/
theorem ExtendedBy.get?_eq_none (h : s.ExtendedBy s') {x : Nat} (hx : s'.get? x = none) : s.get? x = none := by
  cases hv : s.get? x with
  | none => rfl
  | some t =>
    rw [h x t hv] at hx
    cases hx

theorem ExtendedBy.mentions (h : s.ExtendedBy s') {v w : Nat} (hvw : s.Mentions v w) : s'.Mentions v w := by
  obtain ⟨t, ht, hw⟩ := hvw
  exact ⟨t, h v t ht, hw⟩

theorem ExtendedBy.acyclic (h : s.ExtendedBy s') (hs' : s'.Acyclic) : s.Acyclic :=
  fun v hv => hs' v (TransGen.mono (fun _ _ => h.mentions) _ _ hv)

theorem extendedBy_extend {x : Nat} (hx : s.get? x = none) (t : Term) : s.ExtendedBy (s.extend x t) := by
  intro v u hv
  rw [get?_extend, if_neg]
  · exact hv
  · rintro rfl
    rw [hx] at hv
    cases hv

theorem acyclic_empty : empty.Acyclic := by
  intro v h
  obtain ⟨w, ⟨t, ht, -⟩, -⟩ := TransGen.head'_iff.1 h
  simp at ht

/-! ### Ranks -/

/-- The bound variables. -/
def bound (s : Bindings) : Finset Nat := s.entries.keys.toFinset

theorem mem_bound {v : Nat} : v ∈ s.bound ↔ (s.get? v).isSome = true := by
  simp [bound, get?, Std.ExtTreeMap.mem_keys]

theorem card_bound (s : Bindings) : s.bound.card = s.size := by
  rw [bound, List.toFinset_card_of_nodup Std.ExtTreeMap.nodup_keys, Std.ExtTreeMap.length_keys, size]

/-- A numbering of the variables, no higher than the number of bindings, that falls from each bound
variable to the variables of its term. -/
structure Ranked (s : Bindings) (rank : Nat → Nat) : Prop where
  le_size : ∀ v, rank v ≤ s.size
  pos : ∀ {v t}, s.get? v = some t → 0 < rank v
  falls : ∀ {v t}, s.get? v = some t → ∀ w ∈ t.vars, rank w < rank v

/-- In acyclic bindings the bound variables that a variable reaches can be counted. -/
theorem Acyclic.exists_rank (hs : s.Acyclic) : ∃ rank, s.Ranked rank := by
  classical
  let reached v := s.bound.filter fun w => ReflTransGen s.Mentions v w
  have self {v t} (hv : s.get? v = some t) : v ∈ reached v :=
    Finset.mem_filter.2 ⟨mem_bound.2 (by rw [hv]; rfl), .refl⟩
  refine ⟨fun v => (reached v).card, fun v => ?_, fun hv => Finset.card_pos.2 ⟨_, self hv⟩,
    fun {v t} hv w hw => ?_⟩
  · rw [← card_bound]
    exact Finset.card_filter_le _ _
  · have hvw : s.Mentions v w := ⟨t, hv, hw⟩
    refine Finset.card_lt_card (Finset.ssubset_iff_of_subset ?_ |>.2 ⟨v, self hv, ?_⟩)
    · intro u hu
      obtain ⟨hu, hwu⟩ := Finset.mem_filter.1 hu
      exact Finset.mem_filter.2 ⟨hu, .head hvw hwu⟩
    · intro hv
      exact hs v (.head' hvw (Finset.mem_filter.1 hv).2)

/-- Induction along bindings: what holds of the variables of a bound term holds of the variable. -/
theorem Acyclic.induct (hs : s.Acyclic) {P : Nat → Prop} (step : ∀ v, (∀ w, s.Mentions v w → P w) → P v)
    (v : Nat) : P v := by
  obtain ⟨rank, hr⟩ := hs.exists_rank
  induction hn : rank v using Nat.strong_induction_on generalizing v with
  | _ n ih =>
    refine step v fun w ⟨t, hv, hw⟩ => ih (rank w) ?_ w rfl
    rw [← hn]
    exact hr.falls hv w hw

/-! ### Following bindings -/

/-- Two bounds on a walk that both reach the rank of the variable give the same result. -/
theorem Ranked.walkWithin_eq {rank : Nat → Nat} (hr : s.Ranked rank) :
    ∀ {n m : Nat} {t : Term}, (∀ v ∈ t.vars, rank v ≤ n) → (∀ v ∈ t.vars, rank v ≤ m) →
      s.walkWithin n t = s.walkWithin m t := by
  intro n
  induction n with
  | zero =>
    intro m t hn _
    cases m with
    | zero => rfl
    | succ m =>
      cases t with
      | var v =>
        cases hv : s.get? v with
        | none => simp [walkWithin, hv]
        | some u =>
          have := hr.pos hv
          have := hn v (by simp)
          omega
      | _ => rfl
  | succ n ih =>
    intro m t hn hm
    cases t with
    | var v =>
      cases hv : s.get? v with
      | none => cases m <;> simp [walkWithin, hv]
      | some u =>
        have hpos := hr.pos hv
        have hvn := hn v (by simp)
        have hvm := hm v (by simp)
        obtain ⟨m, rfl⟩ : ∃ k, m = k + 1 := ⟨m - 1, by omega⟩
        simp only [walkWithin, hv]
        refine ih (fun w hw => ?_) fun w hw => ?_
        · have := hr.falls hv w hw
          omega
        · have := hr.falls hv w hw
          omega
    | _ => cases m <;> rfl

/-- Two bounds on the replacement of bound variables that both reach the ranks of the variables give the
same result. -/
theorem Ranked.reifyWithin_eq {rank : Nat → Nat} (hr : s.Ranked rank) :
    ∀ {n m : Nat} {t : Term}, (∀ v ∈ t.vars, rank v ≤ n) → (∀ v ∈ t.vars, rank v ≤ m) →
      s.reifyWithin n t = s.reifyWithin m t := by
  -- without steps left no variable of the term is bound
  have none_of_zero {t : Term} (m : Nat) (h : ∀ v ∈ t.vars, rank v ≤ 0) : s.reifyWithin m t = t := by
    cases m with
    | zero => rfl
    | succ m =>
      rw [reifyWithin]
      conv_rhs => rw [← subst_var t]
      refine subst_congr fun v hv => ?_
      cases hg : s.get? v with
      | none => rfl
      | some u =>
        have := hr.pos hg
        have := h v hv
        omega
  intro n
  induction n with
  | zero => intro m t hn _; rw [none_of_zero 0 hn, none_of_zero m hn]
  | succ n ih =>
    intro m t hn hm
    cases m with
    | zero => rw [none_of_zero 0 hm, none_of_zero (n + 1) hm]
    | succ m =>
      rw [reifyWithin, reifyWithin]
      refine subst_congr fun v hv => ?_
      cases hg : s.get? v with
      | none => rfl
      | some u =>
        have hvn := hn v hv
        have hvm := hm v hv
        refine ih (fun w hw => ?_) fun w hw => ?_
        · have := hr.falls hg w hw
          omega
        · have := hr.falls hg w hw
          omega

/-- A walk goes from a bound variable on from its term. -/
theorem walk_var (hs : s.Acyclic) {v : Nat} {t : Term} (hv : s.get? v = some t) : s.walk (.var v) = s.walk t := by
  obtain ⟨rank, hr⟩ := hs.exists_rank
  have hpos := hr.pos hv
  have hle := hr.le_size v
  obtain ⟨n, hn⟩ : ∃ n, s.size = n + 1 := ⟨s.size - 1, by omega⟩
  have : s.walk (.var v) = s.walkWithin n t := by simp only [walk, hn, walkWithin, hv]
  rw [this, walk]
  refine hr.walkWithin_eq (fun w hw => ?_) fun w _ => hr.le_size w
  have := hr.falls hv w hw
  omega

/-- A walk stops at an unbound variable. -/
theorem walk_var_of_none {v : Nat} (hv : s.get? v = none) : s.walk (.var v) = .var v := by
  rw [walk]
  cases s.size <;> simp [walkWithin, hv]

/-- A walk does not leave a term that is not a variable. -/
theorem walk_of_ne_var {t : Term} (ht : ∀ v, t ≠ .var v) : s.walk t = t := by
  rw [walk]
  cases t with
  | var v => exact absurd rfl (ht v)
  | _ => cases s.size <;> rfl

/-- The value of a bound variable is that of its term. -/
theorem reify_var (hs : s.Acyclic) {v : Nat} {t : Term} (hv : s.get? v = some t) :
    s.reify (.var v) = s.reify t := by
  obtain ⟨rank, hr⟩ := hs.exists_rank
  have hpos := hr.pos hv
  have hle := hr.le_size v
  obtain ⟨n, hn⟩ : ∃ n, s.size = n + 1 := ⟨s.size - 1, by omega⟩
  have : s.reify (.var v) = s.reifyWithin n t := by simp only [reify, hn, reifyWithin, subst, hv]
  rw [this, reify]
  refine hr.reifyWithin_eq (fun w hw => ?_) fun w _ => hr.le_size w
  have := hr.falls hv w hw
  omega

/-- An unbound variable is its own value. -/
theorem reify_var_of_none {v : Nat} (hv : s.get? v = none) : s.reify (.var v) = .var v := by
  rw [reify]
  cases s.size <;> simp [reifyWithin, subst, hv]

/-- The values of all variables. -/
def value (s : Bindings) (v : Nat) : Term := s.reify (.var v)

theorem reify_eq_subst (s : Bindings) (t : Term) : s.reify t = t.subst s.value := by
  have within : ∀ n, s.reifyWithin n t = t.subst fun v => s.reifyWithin n (.var v) := by
    intro n
    cases n with
    | zero => exact (subst_var t).symm
    | succ n => rfl
  exact within s.size

@[simp] theorem reify_compound (s : Bindings) (items : List Term) :
    s.reify (.compound items) = .compound (items.map s.reify) := by
  simp [reify_eq_subst]

theorem reify_of_isGround {t : Term} (h : t.isGround = true) (s : Bindings) : s.reify t = t := by
  rw [reify_eq_subst, subst_of_isGround h]

/-- The variables of the value of a term are the unbound ones that its variables reach. -/
theorem mem_vars_reify (hs : s.Acyclic) {t : Term} {x : Nat} :
    x ∈ (s.reify t).vars ↔ s.get? x = none ∧ ∃ v ∈ t.vars, ReflTransGen s.Mentions v x := by
  have of_var : ∀ v, x ∈ (s.value v).vars ↔ s.get? x = none ∧ ReflTransGen s.Mentions v x := by
    intro v
    induction v using hs.induct with
    | _ v ih =>
      cases hv : s.get? v with
      | none =>
        rw [value, reify_var_of_none hv, mem_vars_var]
        constructor
        · rintro rfl
          exact ⟨hv, .refl⟩
        · rintro ⟨-, hvx⟩
          obtain rfl | ⟨w, ⟨t, ht, -⟩, -⟩ := ReflTransGen.cases_head hvx
          · rfl
          · rw [hv] at ht
            cases ht
      | some u =>
        rw [value, reify_var hs hv, reify_eq_subst, mem_vars_subst]
        constructor
        · rintro ⟨w, hw, hx⟩
          have hvw : s.Mentions v w := ⟨u, hv, hw⟩
          obtain ⟨hx, hwx⟩ := (ih w hvw).1 hx
          exact ⟨hx, .head hvw hwx⟩
        · rintro ⟨hx, hvx⟩
          obtain rfl | ⟨w, hvw, hwx⟩ := ReflTransGen.cases_head hvx
          · rw [hv] at hx
            cases hx
          · obtain ⟨t, ht, hw⟩ := hvw
            rw [hv] at ht
            cases ht
            exact ⟨w, hw, (ih w ⟨u, hv, hw⟩).2 ⟨hx, hwx⟩⟩
  rw [reify_eq_subst, mem_vars_subst]
  constructor
  · rintro ⟨v, hv, hx⟩
    obtain ⟨hx, hvx⟩ := (of_var v).1 hx
    exact ⟨hx, v, hv, hvx⟩
  · rintro ⟨hx, v, hv, hvx⟩
    exact ⟨v, hv, (of_var v).2 ⟨hx, hvx⟩⟩

/-- A walk ends at an unbound variable or at a term that is not a variable. -/
theorem get?_of_walk_eq_var (hs : s.Acyclic) {t : Term} {v : Nat} (h : s.walk t = .var v) : s.get? v = none := by
  have of_var : ∀ w, s.walk (.var w) = .var v → s.get? v = none := by
    intro w
    induction w using hs.induct with
    | _ w ih =>
      intro h
      cases hw : s.get? w with
      | none =>
        rw [walk_var_of_none hw] at h
        cases h
        exact hw
      | some u =>
        rw [walk_var hs hw] at h
        cases u with
        | var w' => exact ih w' ⟨_, hw, by simp⟩ h
        | _ =>
          rw [walk_of_ne_var (by simp)] at h
          cases h
  cases t with
  | var w => exact of_var w h
  | _ =>
    rw [walk_of_ne_var (by simp)] at h
    cases h

/-! ### Assignments that respect bindings -/

/-- Under the assignment every bound variable has the value of its term. -/
def RespectedBy (s : Bindings) (τ : Nat → Term) : Prop := ∀ v t, s.get? v = some t → τ v = t.subst τ

theorem respectedBy_empty (τ : Nat → Term) : empty.RespectedBy τ := fun v t hv => by simp at hv

theorem ExtendedBy.respectedBy (h : s.ExtendedBy s') {τ : Nat → Term} (hτ : s'.RespectedBy τ) :
    s.RespectedBy τ := fun v t hv => hτ v t (h v t hv)

theorem RespectedBy.subst_walk {τ : Nat → Term} (hτ : s.RespectedBy τ) (t : Term) :
    (s.walk t).subst τ = t.subst τ := by
  have within : ∀ n t, (s.walkWithin n t).subst τ = t.subst τ := by
    intro n
    induction n with
    | zero => intro t; rfl
    | succ n ih =>
      intro t
      cases t with
      | var v =>
        cases hv : s.get? v with
        | none => simp [walkWithin, hv]
        | some u =>
          simp only [walkWithin, hv]
          rw [ih u, ← hτ v u hv]
          rfl
      | _ => rfl
  exact within _ t

theorem RespectedBy.subst_reify {τ : Nat → Term} (hτ : s.RespectedBy τ) (t : Term) :
    (s.reify t).subst τ = t.subst τ := by
  have within : ∀ n t, (s.reifyWithin n t).subst τ = t.subst τ := by
    intro n
    induction n with
    | zero => intro t; rfl
    | succ n ih =>
      intro t
      rw [reifyWithin, subst_subst]
      refine subst_congr fun v _ => ?_
      cases hv : s.get? v with
      | none => rfl
      | some u =>
        show (s.reifyWithin n u).subst τ = τ v
        rw [ih u, hτ v u hv]
  exact within _ t

/-- Acyclic bindings are respected by the values that they give. -/
theorem Acyclic.respectedBy_value (hs : s.Acyclic) : s.RespectedBy s.value := fun v t hv => by
  rw [value, reify_var hs hv, reify_eq_subst]

/-- The value of a term is that of where a walk from it ends. -/
theorem reify_walk (hs : s.Acyclic) (t : Term) : s.reify (s.walk t) = s.reify t := by
  rw [reify_eq_subst, hs.respectedBy_value.subst_walk, reify_eq_subst]

/-- Following earlier bindings first does not change a value. -/
theorem ExtendedBy.reify_reify (h : s.ExtendedBy s') (hs' : s'.Acyclic) (t : Term) :
    s'.reify (s.reify t) = s'.reify t := by
  rw [reify_eq_subst s', (h.respectedBy hs'.respectedBy_value).subst_reify, ← reify_eq_subst]

/-! ### One more binding -/

/-- The occurs check finds the variables of the value of a term. -/
theorem occurs_iff {x : Nat} {t : Term} : s.occurs x t = true ↔ x ∈ (s.reify t).vars := by
  have within : ∀ n t, s.occursWithin x n t = true ↔ x ∈ (s.reifyWithin n t).vars := by
    intro n
    induction n with
    | zero => intro t; simp [occursWithin, reifyWithin]
    | succ n ih =>
      intro t
      rw [occursWithin, reifyWithin, List.any_eq_true, mem_vars_subst]
      refine exists_congr fun v => and_congr_right fun _ => ?_
      cases hv : s.get? v with
      | none =>
        show (v == x) = true ↔ x ∈ (Term.var v).vars
        rw [beq_iff_eq, mem_vars_var, eq_comm]
      | some u => exact ih u
  exact within _ t

theorem mentions_extend {x : Nat} (hx : s.get? x = none) {t : Term} {v w : Nat} :
    (s.extend x t).Mentions v w ↔ s.Mentions v w ∨ v = x ∧ w ∈ t.vars := by
  unfold Mentions
  rw [get?_extend]
  split
  · rename_i h
    subst h
    simp [hx]
  · rename_i h
    simp [Ne.symm h]

/-- Binding an unbound variable to a term in whose value it does not occur closes no cycle. -/
theorem acyclic_extend (hs : s.Acyclic) {x : Nat} (hx : s.get? x = none) {t : Term}
    (ht : x ∉ (s.reify t).vars) : (s.extend x t).Acyclic := by
  -- a path uses the new binding, and then ends behind it, or is a path of the old bindings
  have split : ∀ {v w}, TransGen (s.extend x t).Mentions v w → TransGen s.Mentions v w ∨
      ReflTransGen s.Mentions v x ∧ ∃ u ∈ t.vars, ReflTransGen s.Mentions u w := by
    intro v w h
    induction h with
    | single h =>
      obtain h | ⟨rfl, hw⟩ := (mentions_extend hx).1 h
      · exact .inl (.single h)
      · exact .inr ⟨.refl, _, hw, .refl⟩
    | tail _ h ih =>
      obtain h | ⟨rfl, hw⟩ := (mentions_extend hx).1 h
      · rcases ih with ih | ⟨hv, u, hu, hw⟩
        · exact .inl (ih.tail h)
        · exact .inr ⟨hv, u, hu, hw.tail h⟩
      · rcases ih with ih | ⟨hv, -⟩
        · exact .inr ⟨ih.to_reflTransGen, _, hw, .refl⟩
        · exact .inr ⟨hv, _, hw, .refl⟩
  intro v hv
  rcases split hv with h | ⟨hvx, u, hu, huv⟩
  · exact hs v h
  · exact ht ((mem_vars_reify hs).2 ⟨hx, u, hu, huv.trans hvx⟩)

theorem respectedBy_extend {x : Nat} (hx : s.get? x = none) {t : Term} {τ : Nat → Term} :
    (s.extend x t).RespectedBy τ ↔ s.RespectedBy τ ∧ τ x = t.subst τ := by
  constructor
  · intro h
    exact ⟨(extendedBy_extend hx t).respectedBy h, h x t (by rw [get?_extend, if_pos rfl])⟩
  · rintro ⟨h, hxt⟩ v u hv
    rw [get?_extend] at hv
    split at hv
    · rename_i hxv
      cases hv
      rw [← hxv, hxt]
    · exact h v u hv

end TripleStore.Bindings
