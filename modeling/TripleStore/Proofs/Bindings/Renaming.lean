import TripleStore.Proofs.Bindings.Failure

/-!
# Renamed bindings

`s.RenamedTo ρ s'` says that `s'` is `s` with every variable `v` renamed to `ρ v`, in the bound variables
and in their terms, and that `s'` binds nothing else. When `ρ` gives different variables different names,
everything that is read off bindings is renamed with them: values (`RenamedTo.reify`), the occurs check and
unification (`RenamedTo.unify`, `RenamedTo.unifyTriple`).
-/

namespace TripleStore.Bindings

open Term

variable {s s' : Bindings} {ρ : Nat → Nat}

/-- The bindings `s'` are `s` with every variable renamed by `ρ`. -/
structure RenamedTo (ρ : Nat → Nat) (s s' : Bindings) : Prop where
  get?_map : ∀ v, s'.get? (ρ v) = (s.get? v).map (rename ρ)
  get?_of_ne : ∀ w, (∀ v, ρ v ≠ w) → s'.get? w = none

theorem RenamedTo.get?_eq_some (h : s.RenamedTo ρ s') {w : Nat} {t : Term} (hw : s'.get? w = some t) :
    ∃ v u, s.get? v = some u ∧ w = ρ v ∧ t = u.rename ρ := by
  by_cases hv : ∃ v, ρ v = w
  · obtain ⟨v, rfl⟩ := hv
    rw [h.get?_map, Option.map_eq_some_iff] at hw
    obtain ⟨u, hu, rfl⟩ := hw
    exact ⟨v, u, hu, rfl, rfl⟩
  · rw [h.get?_of_ne w fun v hvw => hv ⟨v, hvw⟩] at hw
    cases hw

theorem RenamedTo.size_eq (hρ : ρ.Injective) (h : s.RenamedTo ρ s') : s'.size = s.size := by
  have : s'.bound = s.bound.image ρ := by
    ext w
    rw [mem_bound, Finset.mem_image, Option.isSome_iff_exists]
    constructor
    · rintro ⟨t, hw⟩
      obtain ⟨v, u, hv, rfl, -⟩ := h.get?_eq_some hw
      exact ⟨v, mem_bound.2 (by rw [hv]; rfl), rfl⟩
    · rintro ⟨v, hv, rfl⟩
      obtain ⟨u, hu⟩ := Option.isSome_iff_exists.1 (mem_bound.1 hv)
      exact ⟨u.rename ρ, by rw [h.get?_map, hu]; rfl⟩
  rw [← card_bound, ← card_bound, this, Finset.card_image_of_injective _ hρ]

theorem RenamedTo.extend (hρ : ρ.Injective) (h : s.RenamedTo ρ s') (x : Nat) (t : Term) :
    (s.extend x t).RenamedTo ρ (s'.extend (ρ x) (t.rename ρ)) where
  get?_map v := by
    rw [get?_extend, get?_extend]
    by_cases hv : x = v
    · rw [if_pos hv, if_pos (congrArg ρ hv)]
      rfl
    · rw [if_neg hv, if_neg fun heq => hv (hρ heq), h.get?_map]
  get?_of_ne w hw := by
    rw [get?_extend, if_neg (hw x), h.get?_of_ne w hw]

/-! ### Values -/

theorem RenamedTo.walk (hρ : ρ.Injective) (h : s.RenamedTo ρ s') (t : Term) :
    s'.walk (t.rename ρ) = (s.walk t).rename ρ := by
  have within : ∀ n t, s'.walkWithin n (t.rename ρ) = (s.walkWithin n t).rename ρ := by
    intro n
    induction n with
    | zero => exact fun _ => rfl
    | succ n ih =>
      intro t
      cases t with
      | var v =>
        rw [rename_var]
        cases hv : s.get? v with
        | none =>
          have hv' : s'.get? (ρ v) = none := by rw [h.get?_map, hv]; rfl
          simp only [walkWithin, hv, hv', rename_var]
        | some u =>
          have hv' : s'.get? (ρ v) = some (u.rename ρ) := by rw [h.get?_map, hv]; rfl
          simp only [walkWithin, hv, hv', ih]
      | _ => rfl
  rw [Bindings.walk, Bindings.walk, h.size_eq hρ, within]

theorem RenamedTo.reify (hρ : ρ.Injective) (h : s.RenamedTo ρ s') (t : Term) :
    s'.reify (t.rename ρ) = (s.reify t).rename ρ := by
  have within : ∀ n t, s'.reifyWithin n (t.rename ρ) = (s.reifyWithin n t).rename ρ := by
    intro n
    induction n with
    | zero => exact fun _ => rfl
    | succ n ih =>
      intro t
      rw [reifyWithin, reifyWithin, subst_rename, rename_subst]
      refine subst_congr fun v _ => ?_
      rw [h.get?_map]
      cases s.get? v with
      | none => rfl
      | some u => exact ih u
  rw [Bindings.reify, Bindings.reify, h.size_eq hρ, within]

/-- A variable whose value is renamed has the same ground value, or none as before. -/
theorem resolve?_eq_of_rename {v : Nat} (h : s'.reify (.var v) = (s.reify (.var v)).rename ρ) :
    s.resolve? v = s'.resolve? v := by
  rw [resolve?, resolve?, h, isGround_rename]
  split
  · rename_i hground
    rw [rename_of_isGround hground]
  · rfl

theorem RenamedTo.acyclic (hρ : ρ.Injective) (h : s.RenamedTo ρ s') (hs : s.Acyclic) : s'.Acyclic := by
  have mentions {v w : Nat} (hvw : s'.Mentions v w) : ∃ v₀ w₀, s.Mentions v₀ w₀ ∧ v = ρ v₀ ∧ w = ρ w₀ := by
    obtain ⟨t, ht, hw⟩ := hvw
    obtain ⟨v₀, u, hu, rfl, rfl⟩ := h.get?_eq_some ht
    obtain ⟨w₀, hw₀, rfl⟩ := mem_vars_rename.1 hw
    exact ⟨v₀, w₀, ⟨u, hu, hw₀⟩, rfl, rfl⟩
  have back : ∀ {v w}, Relation.TransGen s'.Mentions v w →
      ∃ v₀ w₀, Relation.TransGen s.Mentions v₀ w₀ ∧ v = ρ v₀ ∧ w = ρ w₀ := by
    intro v w hvw
    induction hvw with
    | single hvw =>
      obtain ⟨v₀, w₀, hm, hv, hw⟩ := mentions hvw
      exact ⟨v₀, w₀, .single hm, hv, hw⟩
    | tail _ hwx ih =>
      obtain ⟨v₀, w₀, hvw, rfl, rfl⟩ := ih
      obtain ⟨w₁, x₀, hm, hw, rfl⟩ := mentions hwx
      cases hρ hw
      exact ⟨v₀, x₀, hvw.tail hm, rfl, rfl⟩
  intro v hv
  obtain ⟨v₀, w₀, hm, rfl, heq⟩ := back hv
  cases hρ heq
  exact hs v₀ hm

/-! ### Unification -/

theorem RenamedTo.occurs (hρ : ρ.Injective) (h : s.RenamedTo ρ s') (x : Nat) (t : Term) :
    s'.occurs (ρ x) (t.rename ρ) = s.occurs x t := by
  rw [Bool.eq_iff_iff, occurs_iff, occurs_iff, h.reify hρ, mem_vars_rename]
  constructor
  · rintro ⟨v, hv, hvx⟩
    exact hρ hvx ▸ hv
  · exact fun hx => ⟨x, hx, rfl⟩

theorem RenamedTo.bind? (hρ : ρ.Injective) (h : s.RenamedTo ρ s') (x : Nat) (t : Term) :
    Option.Rel (RenamedTo ρ) (s.bind? x t) (s'.bind? (ρ x) (t.rename ρ)) := by
  rw [Bindings.bind?, Bindings.bind?, h.occurs hρ]
  split
  · exact .none
  · exact .some (h.extend hρ x t)

/-- Unification of renamed terms under renamed bindings, within any bound on the depth. -/
theorem RenamedTo.unifyWithin (hρ : ρ.Injective) : ∀ {depth : Nat} {s s' : Bindings} (a b : Term),
    s.RenamedTo ρ s' → Option.Rel (RenamedTo ρ) (Bindings.unifyWithin depth s a b)
      (Bindings.unifyWithin depth s' (a.rename ρ) (b.rename ρ)) := by
  intro depth
  induction depth with
  | zero => exact fun _ _ _ => .none
  | succ depth ih =>
    intro s s' a b h
    rw [Bindings.unifyWithin, Bindings.unifyWithin, h.walk hρ, h.walk hρ]
    generalize s.walk a = a
    generalize s.walk b = b
    by_cases hab : a = b
    · rw [if_pos hab, if_pos (congrArg _ hab)]
      exact .some h
    · rw [if_neg hab, if_neg fun heq => hab (rename_injective hρ heq)]
      cases a with
      | var x => exact h.bind? hρ x b
      | compound xs =>
        cases b with
        | var y => exact h.bind? hρ y (.compound xs)
        | compound ys =>
          rw [rename_compound, rename_compound]
          dsimp only
          rw [List.length_map, List.length_map, List.zip_map, List.foldlM_map]
          split
          · exact foldlM_rel (fun p h => ih p.1 p.2 h) h
          · exact .none
        | _ => simpa only [rename_compound] using .none
      | _ =>
        cases b with
        | var y => exact h.bind? hρ y _
        | compound ys => simpa only [rename_compound] using .none
        | _ => exact .none

/-- **Unification commutes with renaming.** -/
theorem RenamedTo.unify (hρ : ρ.Injective) (hs : s.Acyclic) (h : s.RenamedTo ρ s') (a b : Term) :
    Option.Rel (RenamedTo ρ) (s.unify a b) (s'.unify (a.rename ρ) (b.rename ρ)) := by
  have within (depth : Nat) : Option.Rel (RenamedTo ρ) (Bindings.unifyWithin depth s a b)
      (Bindings.unifyWithin depth s' (a.rename ρ) (b.rename ρ)) := RenamedTo.unifyWithin hρ a b h
  cases hu : s.unify a b with
  | some s₁ =>
    have hr := within (s.unifyDepth a b)
    rw [show Bindings.unifyWithin (s.unifyDepth a b) s a b = some s₁ from hu] at hr
    generalize hu' : Bindings.unifyWithin _ s' _ _ = r at hr
    cases hr with
    | some h₁ =>
      rw [unify_of_unifyWithin (h.acyclic hρ hs) hu']
      exact .some h₁
  | none =>
    have hr := within (s'.unifyDepth (a.rename ρ) (b.rename ρ))
    generalize hu' : Bindings.unifyWithin _ s a b = r at hr
    cases hr' : s'.unify (a.rename ρ) (b.rename ρ) with
    | none => exact .none
    | some s₁ =>
      rw [show Bindings.unifyWithin _ s' _ _ = some s₁ from hr'] at hr
      cases hr with
      | some h₁ =>
        rw [unify_of_unifyWithin hs hu'] at hu
        cases hu

theorem RenamedTo.unifyTriple (hρ : ρ.Injective) (hs : s.Acyclic) (h : s.RenamedTo ρ s') (a b : Triple) :
    Option.Rel (RenamedTo ρ) (s.unifyTriple a b)
      (s'.unifyTriple (a.map (rename ρ)) (b.map (rename ρ))) := by
  have position {s s'} (a b : Term) (h : Acyclic s ∧ RenamedTo ρ s s') :
      Option.Rel (fun s s' => Acyclic s ∧ RenamedTo ρ s s') (s.unify a b) (s'.unify (a.rename ρ) (b.rename ρ)) :=
    rel_imp (h.2.unify hρ h.1 a b) fun _ _ hu hr => ⟨(unified_of_unify h.1 hu).acyclic, hr⟩
  exact rel_imp (unifyTriple_rel position ⟨hs, h⟩ a b) fun _ _ _ hr => hr.2

end TripleStore.Bindings
