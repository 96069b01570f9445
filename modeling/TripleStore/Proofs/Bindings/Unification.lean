import TripleStore.Proofs.Bindings.Acyclic

/-!
# Unification

`Unified s pairs s'` says what it means that `s'` comes from solving some pairs of terms under `s`: it is
acyclic, keeps every binding, is respected by exactly the assignments that respect `s` and make the pairs
equal, and binds nothing but what the pairs reach. Solutions of lists of pairs compose
(`Unified.append`), so each way in which unification goes on is one short lemma, and
**`unified_of_unify`** puts them together: what `unify` returns is unified.

That `unify` returns nothing only where there is no solution is in `TripleStore.Proofs.Bindings.Failure`.
-/

namespace TripleStore

open Term

namespace Bindings

variable {s s' s'' : Bindings}

/-- What holds of a term holds of the items of a sequence and of the terms that variables are bound to. -/
structure Hereditary (s : Bindings) (P : Term → Prop) : Prop where
  item : ∀ {items}, P (.compound items) → ∀ t ∈ items, P t
  bound : ∀ {v t}, s.get? v = some t → P (.var v) → P t

theorem Hereditary.walk {P : Term → Prop} (hP : s.Hereditary P) {t : Term} (ht : P t) : P (s.walk t) := by
  have within : ∀ n t, P t → P (s.walkWithin n t) := by
    intro n
    induction n with
    | zero => exact fun _ ht => ht
    | succ n ih =>
      intro t ht
      cases t with
      | var v =>
        cases hv : s.get? v with
        | none => simpa only [walkWithin, hv] using ht
        | some u => simpa only [walkWithin, hv] using ih u (hP.bound hv ht)
      | _ => exact ht
  exact within _ t ht

/-- The bindings `s'` come from solving the pairs under `s`. -/
structure Unified (s : Bindings) (pairs : List (Term × Term)) (s' : Bindings) : Prop where
  acyclic : s'.Acyclic
  extended : s.ExtendedBy s'
  respectedBy_iff : ∀ τ, s'.RespectedBy τ ↔ s.RespectedBy τ ∧ ∀ p ∈ pairs, p.1.subst τ = p.2.subst τ
  new_binding : ∀ {P : Term → Prop}, s.Hereditary P → (∀ p ∈ pairs, P p.1 ∧ P p.2) →
    ∀ v t, s'.get? v = some t → s.get? v = some t ∨ P (.var v) ∧ P t

theorem Unified.nil (hs : s.Acyclic) : Unified s [] s where
  acyclic := hs
  extended := .refl s
  respectedBy_iff τ := by simp
  new_binding _ _ v t hv := .inl hv

/-- A hereditary property of the pairs stays hereditary when they are solved. -/
theorem Unified.hereditary {pairs : List (Term × Term)} (h : Unified s pairs s') {P : Term → Prop}
    (hP : s.Hereditary P) (hpairs : ∀ p ∈ pairs, P p.1 ∧ P p.2) : s'.Hereditary P where
  item := hP.item
  bound {v t} hv ht := by
    rcases h.new_binding hP hpairs v t hv with hv | ⟨-, ht⟩
    · exact hP.bound hv ht
    · exact ht

/-- Pairs may be solved one part after the other. -/
theorem Unified.append {ps qs : List (Term × Term)} (h : Unified s ps s') (h' : Unified s' qs s'') :
    Unified s (ps ++ qs) s'' where
  acyclic := h'.acyclic
  extended := h.extended.trans h'.extended
  respectedBy_iff τ := by
    rw [h'.respectedBy_iff, h.respectedBy_iff, and_assoc, ← List.forall_mem_append]
  new_binding {P} hP hpairs v t hv := by
    obtain ⟨hps, hqs⟩ := List.forall_mem_append.1 hpairs
    rcases h'.new_binding (h.hereditary hP hps) hqs v t hv with hv | hv
    · exact h.new_binding hP hps v t hv
    · exact .inr hv

theorem Unified.of_walk {a b : Term} (h : Unified s [(s.walk a, s.walk b)] s') : Unified s [(a, b)] s' where
  acyclic := h.acyclic
  extended := h.extended
  respectedBy_iff τ := by
    rw [h.respectedBy_iff]
    refine and_congr_right fun hτ => ?_
    simp only [List.forall_mem_singleton, hτ.subst_walk]
  new_binding {P} hP hpairs := by
    obtain ⟨ha, hb⟩ := List.forall_mem_singleton.1 hpairs
    exact h.new_binding hP (List.forall_mem_singleton.2 ⟨hP.walk ha, hP.walk hb⟩)

theorem Unified.swap {a b : Term} (h : Unified s [(a, b)] s') : Unified s [(b, a)] s' where
  acyclic := h.acyclic
  extended := h.extended
  respectedBy_iff τ := by
    rw [h.respectedBy_iff]
    simp only [List.forall_mem_singleton, eq_comm]
  new_binding {P} hP hpairs := by
    obtain ⟨hb, ha⟩ := List.forall_mem_singleton.1 hpairs
    exact h.new_binding hP (List.forall_mem_singleton.2 ⟨ha, hb⟩)

theorem Unified.same (hs : s.Acyclic) (t : Term) : Unified s [(t, t)] s where
  acyclic := hs
  extended := .refl s
  respectedBy_iff τ := by simp
  new_binding _ _ v t hv := .inl hv

/-- Binding an unbound variable solves the pair of the variable and the term. -/
theorem unified_of_bind? (hs : s.Acyclic) {x : Nat} (hx : s.get? x = none) {t : Term}
    (h : s.bind? x t = some s') : Unified s [(.var x, t)] s' := by
  unfold bind? at h
  split at h
  · cases h
  · rename_i hoc
    cases h
    refine ⟨acyclic_extend hs hx fun hmem => hoc (occurs_iff.2 hmem), extendedBy_extend hx t, fun τ => ?_,
      fun {P} hP hpairs v u hv => ?_⟩
    · rw [respectedBy_extend hx, List.forall_mem_singleton]
      rfl
    · have hxt := hpairs (.var x, t) (List.mem_singleton_self _)
      rw [get?_extend] at hv
      split at hv
      · rename_i hxv
        cases hv
        exact .inr (hxv ▸ hxt)
      · exact .inl hv

/-- Sequences of one length have the same value when their items have, pair by pair. -/
theorem map_subst_eq_iff {τ : Nat → Term} {xs ys : List Term} (hlen : xs.length = ys.length) :
    xs.map (subst τ) = ys.map (subst τ) ↔ ∀ p ∈ xs.zip ys, p.1.subst τ = p.2.subst τ := by
  induction xs generalizing ys with
  | nil =>
    cases ys with
    | nil => simp
    | cons y ys => simp at hlen
  | cons x xs ih =>
    cases ys with
    | nil => simp at hlen
    | cons y ys =>
      rw [List.map_cons, List.map_cons, List.cons.injEq, List.zip_cons_cons, List.forall_mem_cons,
        ih (by simpa using hlen)]

theorem Unified.of_items {xs ys : List Term} (hlen : xs.length = ys.length) (h : Unified s (xs.zip ys) s') :
    Unified s [(.compound xs, .compound ys)] s' where
  acyclic := h.acyclic
  extended := h.extended
  respectedBy_iff τ := by
    rw [h.respectedBy_iff, List.forall_mem_singleton, subst_compound, subst_compound, compound.injEq,
      map_subst_eq_iff hlen]
  new_binding {P} hP hpairs := by
    obtain ⟨hxs, hys⟩ := List.forall_mem_singleton.1 hpairs
    refine h.new_binding hP fun p hp => ?_
    obtain ⟨hx, hy⟩ := List.of_mem_zip hp
    exact ⟨hP.item hxs _ hx, hP.item hys _ hy⟩

/-- If each pair is solved on its own, a list of pairs is solved by going through it. -/
theorem unified_of_foldlM {f : Bindings → Term × Term → Option Bindings}
    (hf : ∀ {s p s'}, s.Acyclic → f s p = some s' → Unified s [p] s') :
    ∀ {pairs s s'}, s.Acyclic → pairs.foldlM f s = some s' → Unified s pairs s' := by
  intro pairs
  induction pairs with
  | nil =>
    intro s s' hs h
    cases h
    exact .nil hs
  | cons p pairs ih =>
    intro s s' hs h
    rw [List.foldlM_cons] at h
    obtain ⟨s₁, h₁, h⟩ := Option.bind_eq_some_iff.1 h
    have hp := hf hs h₁
    exact hp.append (ih hp.acyclic h)

/-! ### One level of unification -/

/-- How unification settles a pair of walked terms, with `f` for the pairs of their items. -/
inductive Level (f : Bindings → Term → Term → Option Bindings) (s : Bindings) :
    Term → Term → Option Bindings → Prop
  /-- Equal terms need no binding. -/
  | same (t : Term) : Level f s t t (some s)
  /-- A variable on the left is bound. -/
  | left {x : Nat} {b : Term} : .var x ≠ b → Level f s (.var x) b (s.bind? x b)
  /-- A variable on the right is bound. -/
  | right {a : Term} {y : Nat} : a ≠ .var y → Level f s a (.var y) (s.bind? y a)
  /-- Sequences of one length are unified item by item. -/
  | items {xs ys : List Term} : xs.length = ys.length →
      Level f s (.compound xs) (.compound ys) ((xs.zip ys).foldlM (fun s p => f s p.1 p.2) s)
  /-- Other terms have no value in common. -/
  | clash {a b : Term} : (∀ τ, a.subst τ ≠ b.subst τ) → Level f s a b none

theorem unifyWithin_level (depth : Nat) (s : Bindings) (a b : Term) :
    Level (unifyWithin depth) s (s.walk a) (s.walk b) (unifyWithin (depth + 1) s a b) := by
  rw [unifyWithin]
  split
  · rename_i h
    rw [h]
    exact .same _
  · rename_i hne
    split
    · rename_i h
      rw [h] at hne ⊢
      exact .left hne
    · rename_i h _
      rw [h] at hne ⊢
      exact .right hne
    · rename_i hb ha
      rw [ha, hb]
      split
      · exact .items ‹_›
      · rename_i hlen
        refine .clash fun τ h => hlen ?_
        rw [subst_compound, subst_compound, compound.injEq] at h
        simpa using congrArg List.length h
    · rename_i hvar hvar' hitems
      refine .clash fun τ h => ?_
      generalize s.walk a = a' at *
      generalize s.walk b = b' at *
      cases a' <;> cases b' <;> simp_all [subst]

/-- **What unification returns within any bound on its depth is unified.** -/
theorem unified_of_unifyWithin : ∀ {depth : Nat} {s s' : Bindings} {a b : Term}, s.Acyclic →
    unifyWithin depth s a b = some s' → Unified s [(a, b)] s' := by
  intro depth
  induction depth with
  | zero => intro s s' a b _ h; cases h
  | succ depth ih =>
    intro s s' a b hs h
    refine .of_walk ?_
    have hlevel := unifyWithin_level depth s a b
    rw [h] at hlevel
    generalize ha : s.walk a = a' at hlevel ⊢
    generalize hb : s.walk b = b' at hlevel ⊢
    generalize hr : some s' = r at hlevel
    cases hlevel with
    | same t =>
      cases hr
      exact .same hs _
    | left _ => exact unified_of_bind? hs (get?_of_walk_eq_var hs ha) hr.symm
    | right _ => exact (unified_of_bind? hs (get?_of_walk_eq_var hs hb) hr.symm).swap
    | items hlen => exact .of_items hlen (unified_of_foldlM (fun hs h => ih hs h) hs hr.symm)
    | clash _ => cases hr

/-- **What unification returns is unified**: it is respected by exactly the assignments that respect the
given bindings and make the two terms equal. -/
theorem unified_of_unify (hs : s.Acyclic) {a b : Term} (h : s.unify a b = some s') : Unified s [(a, b)] s' :=
  unified_of_unifyWithin hs h

/-! ### Lists of pairs -/

/-- Unifies the pairs of a list one after the other, each under the bindings that the earlier ones left. -/
def unifyAll (s : Bindings) (pairs : List (Term × Term)) : Option Bindings :=
  pairs.foldlM (fun s p => s.unify p.1 p.2) s

theorem unified_of_unifyAll (hs : s.Acyclic) {pairs : List (Term × Term)} (h : s.unifyAll pairs = some s') :
    Unified s pairs s' :=
  unified_of_foldlM (fun hs h => unified_of_unify hs h) hs h

/-! ### Triples -/

/-- The pairs of the positions of two triples. -/
def positionPairs (a b : Triple) : List (Term × Term) := a.toList.zip b.toList

theorem positionPairs_eq_iff {a b : Triple} {τ : Nat → Term} :
    (∀ p ∈ positionPairs a b, p.1.subst τ = p.2.subst τ) ↔ a.map (subst τ) = b.map (subst τ) := by
  simp [positionPairs, Triple.toList, Triple.map]

theorem unifyTriple_eq_unifyAll (s : Bindings) (a b : Triple) :
    s.unifyTriple a b = s.unifyAll (positionPairs a b) := by
  simp [unifyTriple, unifyAll, positionPairs, Triple.toList]

theorem unified_of_unifyTriple (hs : s.Acyclic) {a b : Triple} (h : s.unifyTriple a b = some s') :
    Unified s (positionPairs a b) s' :=
  unified_of_unifyAll hs ((unifyTriple_eq_unifyAll s a b).symm.trans h)

/-- What triples are unified with is respected by the assignments that respect the given bindings and make the two
triples equal. -/
theorem respectedBy_iff_of_unifyTriple (hs : s.Acyclic) {a b : Triple} (h : s.unifyTriple a b = some s')
    (τ : Nat → Term) : s'.RespectedBy τ ↔ s.RespectedBy τ ∧ a.map (subst τ) = b.map (subst τ) := by
  rw [(unified_of_unifyTriple hs h).respectedBy_iff, positionPairs_eq_iff]

/-- The values that triples are unified with respect the given bindings and make the two triples equal. -/
theorem equal_of_unifyTriple (hs : s.Acyclic) {a b : Triple} (h : s.unifyTriple a b = some s') :
    s.RespectedBy s'.value ∧ a.map (subst s'.value) = b.map (subst s'.value) :=
  (respectedBy_iff_of_unifyTriple hs h _).1 (unified_of_unifyTriple hs h).acyclic.respectedBy_value

/-! ### Two unifications side by side -/

/-- What is found on both sides is related in every way that its relation and the first side give. -/
theorem rel_imp {α β : Type} {R Q : α → β → Prop} {a : Option α} {b : Option β} (h : Option.Rel R a b)
    (hQ : ∀ x y, a = some x → R x y → Q x y) : Option.Rel Q a b := by
  cases h with
  | none => exact .none
  | some hr => exact .some (hQ _ _ rfl hr)

theorem exists_of_rel {α β : Type} {R : α → β → Prop} {a : Option α} {b : Option β} {x : α} (h : Option.Rel R a b)
    (ha : a = some x) : ∃ y, b = some y ∧ R x y := by
  cases h with
  | none => cases ha
  | some hr =>
    cases ha
    exact ⟨_, rfl, hr⟩

/-- Going through pairs in two ways that are related at each pair keeps bindings related. -/
theorem foldlM_rel {T : Bindings → Bindings → Prop} {f f' : Bindings → Term × Term → Option Bindings}
    (hf : ∀ {s s'} p, T s s' → Option.Rel T (f s p) (f' s' p)) :
    ∀ {pairs : List (Term × Term)} {s s'}, T s s' → Option.Rel T (pairs.foldlM f s) (pairs.foldlM f' s') := by
  intro pairs
  induction pairs with
  | nil => exact fun h => .some h
  | cons p pairs ih =>
    intro s s' h
    rw [List.foldlM_cons, List.foldlM_cons]
    have hp := hf p h
    generalize f s p = r at hp
    generalize f' s' p = r' at hp
    cases hp with
    | none => exact .none
    | some h₁ => exact ih h₁

/-- Going through pairs in a second way that succeeds wherever the first does keeps bindings related. -/
theorem foldlM_exists {T : Bindings → Bindings → Prop} {f f' : Bindings → Term × Term → Option Bindings}
    (hf : ∀ {s s' s₁} p, T s s' → f s p = some s₁ → ∃ s₁', f' s' p = some s₁' ∧ T s₁ s₁') :
    ∀ {pairs : List (Term × Term)} {s s' s₁}, T s s' → pairs.foldlM f s = some s₁ →
      ∃ s₁', pairs.foldlM f' s' = some s₁' ∧ T s₁ s₁' := by
  intro pairs
  induction pairs with
  | nil =>
    intro s s' s₁ h hfold
    cases hfold
    exact ⟨s', rfl, h⟩
  | cons p pairs ih =>
    intro s s' s₁ h hfold
    rw [List.foldlM_cons] at hfold
    obtain ⟨s₂, hp, hfold⟩ := Option.bind_eq_some_iff.1 hfold
    obtain ⟨s₂', hp', h₂⟩ := hf p h hp
    rw [List.foldlM_cons, hp']
    exact ih h₂ hfold

/-- Where terms unify alike, triples do. -/
theorem unifyTriple_rel {T : Bindings → Bindings → Prop} {f : Term → Term}
    (hT : ∀ {s s' : Bindings} (a b : Term), T s s' → Option.Rel T (s.unify a b) (s'.unify (f a) (f b)))
    {s s' : Bindings} (h : T s s') (a b : Triple) :
    Option.Rel T (s.unifyTriple a b) (s'.unifyTriple (a.map f) (b.map f)) := by
  have hpairs : positionPairs (a.map f) (b.map f) = (positionPairs a b).map (Prod.map f f) := rfl
  rw [unifyTriple_eq_unifyAll, unifyTriple_eq_unifyAll, hpairs, unifyAll, unifyAll, List.foldlM_map]
  exact foldlM_rel (fun p h => hT p.1 p.2 h) h

end Bindings

end TripleStore
