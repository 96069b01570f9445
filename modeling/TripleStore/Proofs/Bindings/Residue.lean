import TripleStore.Proofs.Bindings.Failure

/-!
# What bindings have beyond others

`Residue s s₁ s₂` says that `s₂` is what the bindings `s₁` have beyond `s`: it binds the variables that `s₁` binds and
`s` does not, to the same terms with their values under `s` put in. Putting in the values under `s` and then those
under `s₂` is putting in the values under `s₁` (`Residue.reify`), and `s₁` has as many bindings as the two together
(`Residue.size_eq`).

Unifying two terms under `s₁` is unifying their values under `s` under `s₂` (**`Residue.unify`**): both fail, or both
bind the same variables. They need not take the same way there, as terms may have one value under `s` before they
are equal. Where the values are equal already, unification goes all the way down to find that there is nothing to be
bound (`Unified.eq_self`).
-/

namespace TripleStore.Bindings

open Term Relation

variable {s s₁ s₂ s₁' : Bindings}

/-! ### Pairs of one value -/

/-- Pairs that have the same value already bind nothing. -/
theorem Unified.eq_self {pairs : List (Term × Term)} (h : Unified s pairs s') (hs : s.Acyclic)
    (heq : ∀ p ∈ pairs, s.reify p.1 = s.reify p.2) : s' = s := by
  simp only [reify_eq_subst] at heq
  have hvalue : s'.RespectedBy s.value := (h.respectedBy_iff _).2 ⟨hs.respectedBy_value, heq⟩
  ext1 v
  cases hv : s.get? v with
  | some t => exact h.extended v t hv
  | none =>
    cases hv' : s'.get? v with
    | none => rfl
    | some t =>
      -- a variable that is its own value would be bound to a term that leads back to it
      have hmem : v ∈ (s.reify t).vars := by
        rw [reify_eq_subst, ← hvalue v t hv', value, reify_var_of_none hv, mem_vars_var]
      obtain ⟨-, w, hw, hwv⟩ := (mem_vars_reify hs).1 hmem
      have hback : ReflTransGen s'.Mentions w v := ReflTransGen.mono (fun _ _ => h.extended.mentions) _ _ hwv
      exact absurd (TransGen.head' ⟨t, hv', hw⟩ hback) (h.acyclic v)

/-! ### Residues -/

/-- The bindings `s₂` are those that `s₁` has beyond `s`, with the values under `s` put into their terms. -/
structure Residue (s s₁ s₂ : Bindings) : Prop where
  acyclic : s₁.Acyclic
  extended : s.ExtendedBy s₁
  get?_of_some : ∀ {v t}, s.get? v = some t → s₂.get? v = none
  get?_of_none : ∀ {v}, s.get? v = none → s₂.get? v = (s₁.get? v).map s.reify

/-- What a residue mentions, the bindings lead to. -/
theorem Residue.transGen_mentions (h : Residue s s₁ s₂) {v w : Nat} (hvw : s₂.Mentions v w) :
    TransGen s₁.Mentions v w := by
  obtain ⟨t, ht, hw⟩ := hvw
  cases hv : s.get? v with
  | some u =>
    rw [h.get?_of_some hv] at ht
    cases ht
  | none =>
    rw [h.get?_of_none hv, Option.map_eq_some_iff] at ht
    obtain ⟨u, hu, rfl⟩ := ht
    obtain ⟨-, x, hx, hxw⟩ := (mem_vars_reify (h.extended.acyclic h.acyclic)).1 hw
    exact .head' ⟨u, hu, hx⟩ (ReflTransGen.mono (fun _ _ => h.extended.mentions) _ _ hxw)

theorem Residue.acyclic_residue (h : Residue s s₁ s₂) : s₂.Acyclic :=
  fun v hv => h.acyclic v (TransGen.closed (fun _ _ => h.transGen_mentions) _ _ hv)

/-- The values under the bindings are those under `s` with the values under the residue put in. -/
theorem Residue.reify (h : Residue s s₁ s₂) (t : Term) : s₂.reify (s.reify t) = s₁.reify t := by
  have hs := h.extended.acyclic h.acyclic
  have of_vars {u : Term} (hu : ∀ w ∈ u.vars, s₂.reify (s.value w) = s₁.value w) :
      s₂.reify (s.reify u) = s₁.reify u := by
    rw [reify_eq_subst s₂, reify_eq_subst s, reify_eq_subst s₁, subst_subst]
    exact subst_congr fun w hw => by rw [← reify_eq_subst, hu w hw]
  have of_var (v : Nat) : s₂.reify (s.value v) = s₁.value v := by
    induction v using h.acyclic.induct with
    | _ v ih =>
      rw [value, value]
      cases hv : s.get? v with
      | some u =>
        have hv₁ := h.extended v u hv
        rw [reify_var hs hv, reify_var h.acyclic hv₁]
        exact of_vars fun w hw => ih w ⟨u, hv₁, hw⟩
      | none =>
        rw [reify_var_of_none hv]
        cases hv₁ : s₁.get? v with
        | none => rw [reify_var_of_none hv₁, reify_var_of_none (by rw [h.get?_of_none hv, hv₁]; rfl)]
        | some u =>
          have hv₂ : s₂.get? v = some (s.reify u) := by rw [h.get?_of_none hv, hv₁]; rfl
          rw [reify_var h.acyclic_residue hv₂, reify_var h.acyclic hv₁]
          exact of_vars fun w hw => ih w ⟨u, hv₁, hw⟩
  exact of_vars fun w _ => of_var w

/-- A walk from the value under `s` ends at the value of where the walk under the bindings ends. -/
theorem Residue.walk (h : Residue s s₁ s₂) (t : Term) : s₂.walk (s.reify t) = s.reify (s₁.walk t) := by
  have hs := h.extended.acyclic h.acyclic
  have of_not_var {u : Term} (hu : ∀ v, u ≠ .var v) : s₂.walk (s.reify u) = s.reify (s₁.walk u) := by
    cases u with
    | var v => exact absurd rfl (hu v)
    | compound items => rw [walk_of_ne_var (by simp), walk_of_ne_var (by simp)]
    | _ => rw [reify_of_isGround rfl, walk_of_ne_var (by simp), walk_of_ne_var (by simp), reify_of_isGround rfl]
  have of_var (v : Nat) : s₂.walk (s.reify (.var v)) = s.reify (s₁.walk (.var v)) := by
    induction v using h.acyclic.induct with
    | _ v ih =>
      cases hv₁ : s₁.get? v with
      | none =>
        have hv := h.extended.get?_eq_none hv₁
        have hv₂ : s₂.get? v = none := by rw [h.get?_of_none hv, hv₁]; rfl
        rw [walk_var_of_none hv₁, reify_var_of_none hv, walk_var_of_none hv₂]
      | some u =>
        -- on both sides the walk goes on from the term, on the other side from its value
        have hnext : s₂.walk (s.reify (.var v)) = s₂.walk (s.reify u) := by
          cases hv : s.get? v with
          | some u' =>
            have hu := h.extended v u' hv
            rw [hv₁] at hu
            cases hu
            rw [reify_var hs hv]
          | none =>
            rw [reify_var_of_none hv, walk_var h.acyclic_residue (by rw [h.get?_of_none hv, hv₁]; rfl)]
        rw [hnext, walk_var h.acyclic hv₁]
        cases u with
        | var w => exact ih w ⟨_, hv₁, by simp⟩
        | _ => exact of_not_var (by simp)
  cases t with
  | var v => exact of_var v
  | _ => exact of_not_var (by simp)

theorem Residue.size_eq (h : Residue s s₁ s₂) : s₁.size = s.size + s₂.size := by
  have hdisjoint : Disjoint s.bound s₂.bound := by
    rw [Finset.disjoint_left]
    intro v hv hv₂
    obtain ⟨t, ht⟩ := Option.isSome_iff_exists.1 (mem_bound.1 hv)
    rw [mem_bound, h.get?_of_some ht] at hv₂
    cases hv₂
  have hunion : s₁.bound = s.bound ∪ s₂.bound := by
    ext v
    rw [Finset.mem_union, mem_bound, mem_bound, mem_bound]
    cases hv : s.get? v with
    | some t => simp [h.extended v t hv]
    | none => simp [h.get?_of_none hv]
  rw [← card_bound, ← card_bound, ← card_bound, hunion, Finset.card_union_of_disjoint hdisjoint]

/-! ### Unification -/

/-- Binding a variable to a term on the one side is binding it to the value of the term on the other. -/
theorem Residue.bind? (h : Residue s s₁ s₂) {x : Nat} (hx : s₁.get? x = none) (t : Term) :
    Option.Rel (Residue s) (s₁.bind? x t) (s₂.bind? x (s.reify t)) := by
  have hoccurs : s₂.occurs x (s.reify t) = s₁.occurs x t := by
    rw [Bool.eq_iff_iff, occurs_iff, occurs_iff, h.reify]
  rw [Bindings.bind?, Bindings.bind?, hoccurs]
  split
  · exact .none
  · rename_i hoc
    refine .some ⟨acyclic_extend h.acyclic hx fun hmem => hoc (occurs_iff.2 hmem),
      h.extended.trans (extendedBy_extend hx t), fun {v u} hv => ?_, fun {v} hv => ?_⟩
    · have hxv : x ≠ v := by
        rintro rfl
        rw [h.extended.get?_eq_none hx] at hv
        cases hv
      rw [get?_extend, if_neg hxv, h.get?_of_some hv]
    · rw [get?_extend, get?_extend]
      split
      · rfl
      · exact h.get?_of_none hv

/-- Where both walks end at one value under `s`, there is nothing to be bound. -/
theorem Residue.eq_of_walk (h : Residue s s₁ s₂) {a b : Term} (hu : Unified s₁ [(a, b)] s₁')
    (hab : s.reify (s₁.walk a) = s.reify (s₁.walk b)) : s₁' = s₁ := by
  refine hu.eq_self h.acyclic (List.forall_mem_singleton.2 ?_)
  have hvalue := congrArg s₂.reify hab
  rwa [h.reify, h.reify, reify_walk h.acyclic, reify_walk h.acyclic] at hvalue

/-- What is unified within some bound on the depth is unified on the other side. -/
theorem Residue.exists_unify : ∀ {depth : Nat} {s₁ s₂ s₁' : Bindings} {a b : Term}, Residue s s₁ s₂ →
    unifyWithin depth s₁ a b = some s₁' → ∃ s₂', s₂.unify (s.reify a) (s.reify b) = some s₂' ∧ Residue s s₁' s₂' := by
  intro depth
  induction depth with
  | zero => intro s₁ s₂ s₁' a b _ hu; cases hu
  | succ depth ih =>
    intro s₁ s₂ s₁' a b h hu
    have hunified := unified_of_unifyWithin h.acyclic hu
    have hva (v) := get?_of_walk_eq_var h.acyclic (t := a) (v := v)
    have hvb (v) := get?_of_walk_eq_var h.acyclic (t := b) (v := v)
    rw [unify_eq h.acyclic_residue, h.walk, h.walk]
    by_cases hab : s.reify (s₁.walk a) = s.reify (s₁.walk b)
    · exact ⟨s₂, if_pos hab, h.eq_of_walk hunified hab ▸ h⟩
    · rw [if_neg hab]
      have hne : s₁.walk a ≠ s₁.walk b := fun heq => hab (congrArg _ heq)
      rw [unifyWithin, if_neg hne] at hu
      generalize s₁.walk a = a' at *
      generalize s₁.walk b = b' at *
      cases a' with
      | var x =>
        rw [reify_var_of_none (h.extended.get?_eq_none (hva x rfl))]
        exact exists_of_rel (h.bind? (hva x rfl) b') hu
      | compound xs =>
        cases b' with
        | var y =>
          have hbind := exists_of_rel (h.bind? (hvb y rfl) _) hu
          rw [reify_compound] at hbind
          rwa [reify_var_of_none (h.extended.get?_eq_none (hvb y rfl)), reify_compound]
        | compound ys =>
          rw [reify_compound, reify_compound]
          dsimp only at hu ⊢
          rw [List.length_map, List.length_map]
          split at hu
          · rw [if_pos ‹_›, List.zip_map, List.foldlM_map]
            exact foldlM_exists (fun _ => ih) h hu
          · cases hu
        | _ => cases hu
      | _ =>
        cases b' with
        | var y =>
          have hbind := exists_of_rel (h.bind? (hvb y rfl) _) hu
          rw [reify_of_isGround rfl] at hbind
          rwa [reify_var_of_none (h.extended.get?_eq_none (hvb y rfl)), reify_of_isGround rfl]
        | _ => cases hu

/-- An assignment that respects the residue respects the bindings, once values under `s` are put in. -/
theorem Residue.respectedBy (h : Residue s s₁ s₂) {τ : Nat → Term} (hτ : s₂.RespectedBy τ) :
    s₁.RespectedBy fun v => (s.value v).subst τ := by
  intro v t hv
  calc (s.value v).subst τ = (s₂.reify (s.reify (.var v))).subst τ := (hτ.subst_reify _).symm
    _ = (s₂.reify (s.reify t)).subst τ := by rw [h.reify, h.reify, reify_var h.acyclic hv]
    _ = (s.reify t).subst τ := hτ.subst_reify _
    _ = t.subst fun v => (s.value v).subst τ := by rw [reify_eq_subst, subst_subst]

/-- **Unifying two terms is unifying their values under the residue.** -/
theorem Residue.unify (h : Residue s s₁ s₂) (a b : Term) :
    Option.Rel (Residue s) (s₁.unify a b) (s₂.unify (s.reify a) (s.reify b)) := by
  cases hu : s₁.unify a b with
  | some s₁' =>
    obtain ⟨s₂', hu₂, h'⟩ := h.exists_unify hu
    rw [hu₂]
    exact .some h'
  | none =>
    cases hu₂ : s₂.unify (s.reify a) (s.reify b) with
    | none => exact .none
    | some s₂' =>
      have hunified := unified_of_unify h.acyclic_residue hu₂
      obtain ⟨hτ, heq⟩ := (hunified.respectedBy_iff _).1 hunified.acyclic.respectedBy_value
      have hvalues := List.forall_mem_singleton.1 heq
      rw [reify_eq_subst, reify_eq_subst, subst_subst, subst_subst] at hvalues
      exact absurd hvalues (not_equal_of_unify_eq_none h.acyclic hu (h.respectedBy hτ))

end TripleStore.Bindings
