import TripleStore.Proofs.Bindings.Unification

/-!
# When unification fails

Unification descends into sequences with a bound on the depth. On acyclic bindings the bound of `unify` is
not met: the sequences on the way down are different parts of the terms involved, because each has a larger
value than the next, and there are no more parts than `unifyDepth` counts. So unification fails only where
no assignment that respects the bindings makes the two terms equal (`not_equal_of_unify_eq_none`), and a
bound that was large enough once gives the result of `unify` (`unify_of_unifyWithin`). With what is known of
success, unification computes exactly the common solutions (**`unify_solutions`**).
-/

namespace TripleStore.Bindings

open Term

variable {s s' : Bindings}

/-! ### A finite supply of terms -/

/-- A set of terms with the items of its sequences and the terms of all bindings. -/
structure Supplies (U : Finset Term) (s : Bindings) : Prop where
  item : ∀ {items}, .compound items ∈ U → ∀ t ∈ items, t ∈ U
  bound : ∀ {v t}, s.get? v = some t → t ∈ U

theorem Supplies.hereditary {U : Finset Term} (hU : Supplies U s) : s.Hereditary (· ∈ U) :=
  ⟨hU.item, fun hv _ => hU.bound hv⟩

theorem Supplies.unified {U : Finset Term} (hU : Supplies U s) {pairs : List (Term × Term)}
    (hpairs : ∀ p ∈ pairs, p.1 ∈ U ∧ p.2 ∈ U) (h : Unified s pairs s') : Supplies U s' where
  item := hU.item
  bound {v t} hv := by
    rcases h.new_binding hU.hereditary hpairs v t hv with hv | ⟨-, ht⟩
    · exact hU.bound hv
    · exact ht

theorem mass_eq_sum (s : Bindings) : s.mass = (s.entries.toList.map fun e => e.2.size).sum := by
  have sum : ∀ (es : List (Nat × Term)) (n : Nat),
      es.foldl (fun n e => n + e.2.size) n = n + (es.map fun e => e.2.size).sum := by
    intro es
    induction es with
    | nil => simp
    | cons e es ih =>
      intro n
      rw [List.foldl_cons, ih, List.map_cons, List.sum_cons, Nat.add_assoc]
  rw [mass, Std.ExtTreeMap.foldl_eq_foldl_toList, sum, Nat.zero_add]

/-- The parts of two terms and of all bound terms, no more than `unifyDepth` counts. -/
theorem exists_supplies (s : Bindings) (a b : Term) :
    ∃ U : Finset Term, Supplies U s ∧ a ∈ U ∧ b ∈ U ∧ U.card ≤ s.mass + a.size + b.size := by
  classical
  let terms := a :: b :: s.entries.toList.map (·.2)
  have mem {t : Term} (ht : t ∈ terms) : t ∈ (terms.flatMap parts).toFinset :=
    List.mem_toFinset.2 (List.mem_flatMap.2 ⟨t, ht, self_mem_parts t⟩)
  refine ⟨(terms.flatMap parts).toFinset, ⟨fun {items} h t ht => ?_, fun {v t} hv => mem ?_⟩, mem ?_, mem ?_, ?_⟩
  · obtain ⟨u, hu, h⟩ := List.mem_flatMap.1 (List.mem_toFinset.1 h)
    exact List.mem_toFinset.2 (List.mem_flatMap.2 ⟨u, hu, mem_parts_of_mem h ht⟩)
  · have : (v, t) ∈ s.entries.toList := Std.ExtTreeMap.mem_toList_iff_getElem?_eq_some.2 hv
    exact List.mem_cons_of_mem _ (List.mem_cons_of_mem _ (List.mem_map_of_mem this))
  · exact List.mem_cons_self
  · exact List.mem_cons_of_mem _ List.mem_cons_self
  · refine (List.toFinset_card_le _).trans ?_
    rw [List.length_flatMap, mass_eq_sum]
    simp only [terms, List.map_cons, List.map_map, List.sum_cons, length_parts, Function.comp_def]
    omega

/-! ### Failure -/

/-- Where going through a list fails, it fails at one of the members, behind a part that succeeds. -/
theorem exists_of_foldlM_eq_none {α β : Type} {f : β → α → Option β} :
    ∀ {xs : List α} {b : β}, xs.foldlM f b = none →
      ∃ ys x zs b', xs = ys ++ x :: zs ∧ ys.foldlM f b = some b' ∧ f b' x = none := by
  intro xs
  induction xs with
  | nil => intro b h; cases h
  | cons x xs ih =>
    intro b h
    cases hx : f b x with
    | none => exact ⟨[], x, xs, b, rfl, rfl, hx⟩
    | some b₁ =>
      rw [List.foldlM_cons, hx] at h
      obtain ⟨ys, y, zs, b', rfl, hys, hy⟩ := ih h
      refine ⟨x :: ys, y, zs, b', rfl, ?_, hy⟩
      rw [List.foldlM_cons, hx]
      exact hys

theorem not_equal_of_bind?_eq_none {x : Nat} {t : Term} (hxt : .var x ≠ t)
    (hwalk : ∀ y, t = .var y → s.get? y = none) (h : s.bind? x t = none) {τ : Nat → Term}
    (hτ : s.RespectedBy τ) : τ x ≠ t.subst τ := by
  unfold bind? at h
  split at h
  · rename_i hoc
    have hmem := occurs_iff.1 hoc
    have hne : s.reify t ≠ .var x := by
      intro hr
      cases t with
      | var y =>
        rw [reify_var_of_none (hwalk y rfl)] at hr
        exact hxt hr.symm
      | compound items => simp at hr
      | str _ => rw [reify_of_isGround rfl] at hr; cases hr
      | int _ => rw [reify_of_isGround rfl] at hr; cases hr
      | bool _ => rw [reify_of_isGround rfl] at hr; cases hr
    have hlt := size_lt_size_subst (f := τ) hmem hne
    rw [hτ.subst_reify] at hlt
    intro heq
    rw [heq] at hlt
    exact absurd hlt (Nat.lt_irrefl _)
  · cases h

/-- The sequences `V` are passed on the way down to `a`: each has a larger value than `a`, under every
assignment that respects the bindings. -/
structure Passed (U V : Finset Term) (s : Bindings) (a : Term) : Prop where
  subset : V ⊆ U
  larger : ∀ u ∈ V, ∀ τ, s.RespectedBy τ → (a.subst τ).size < (u.subst τ).size

/-- A sequence has not been passed before, as it is not larger than itself. -/
theorem Passed.not_mem {U V : Finset Term} {a : Term} (h : Passed U V s a) (hs : s.Acyclic) : s.walk a ∉ V := by
  intro hmem
  have := h.larger _ hmem _ hs.respectedBy_value
  rw [hs.respectedBy_value.subst_walk] at this
  exact absurd this (Nat.lt_irrefl _)

/-- On the way down to an item, its sequence is passed too. -/
theorem Passed.item {U V : Finset Term} {a x : Term} {xs : List Term} (h : Passed U V s a)
    (hxs : s.walk a = .compound xs) (hU : .compound xs ∈ U) (hx : x ∈ xs) (hext : s.ExtendedBy s') :
    Passed U (insert (.compound xs) V) s' x where
  subset := Finset.insert_subset hU h.subset
  larger u hu τ hτ := by
    have hτs := hext.respectedBy hτ
    have hlt : (x.subst τ).size < ((Term.compound xs).subst τ).size := by
      rw [subst_compound]
      exact size_lt_of_mem (List.mem_map_of_mem hx)
    rcases Finset.mem_insert.1 hu with rfl | hu
    · exact hlt
    · have := h.larger u hu τ hτs
      rw [← hxs, hτs.subst_walk] at hlt
      exact hlt.trans this

/-- The depth is enough to go down from `a` and `b`, with the sequences `V` passed on the way: it exceeds the number of
parts that are not yet passed. -/
structure Suffices (U V : Finset Term) (depth : Nat) (s : Bindings) (a b : Term) : Prop where
  acyclic : s.Acyclic
  supplies : Supplies U s
  left : a ∈ U
  right : b ∈ U
  passed : Passed U V s a
  card : U.card < depth + V.card

theorem Suffices.depth_ne_zero {U V : Finset Term} {depth : Nat} {a b : Term} (h : Suffices U V depth s a b) :
    depth ≠ 0 := by
  have := Finset.card_le_card h.passed.subset
  have := h.card
  omega

/-- A depth that is enough for two sequences leaves one that is enough for each pair of their items: no sequence is met
twice on the way down. -/
theorem Suffices.item {U V : Finset Term} {depth : Nat} {a b : Term} {xs ys : List Term}
    (h : Suffices U V (depth + 1) s a b) (ha : s.walk a = .compound xs) (hb : s.walk b = .compound ys)
    {ps qs : List (Term × Term)} {p : Term × Term} (hsplit : xs.zip ys = ps ++ p :: qs)
    (hps : ps.foldlM (fun s p => unifyWithin depth s p.1 p.2) s = some s') :
    Suffices U (insert (.compound xs) V) depth s' p.1 p.2 := by
  have hxs : .compound xs ∈ U := ha ▸ h.supplies.hereditary.walk h.left
  have hys : .compound ys ∈ U := hb ▸ h.supplies.hereditary.walk h.right
  have hpairs : ∀ q ∈ xs.zip ys, q.1 ∈ U ∧ q.2 ∈ U := fun q hq =>
    ⟨h.supplies.item hxs _ (List.of_mem_zip hq).1, h.supplies.item hys _ (List.of_mem_zip hq).2⟩
  have hpx : p.1 ∈ xs := (List.of_mem_zip (hsplit ▸ List.mem_append_right ps List.mem_cons_self)).1
  have hnew : .compound xs ∉ V := ha ▸ h.passed.not_mem h.acyclic
  have hunified : Unified s ps s' := unified_of_foldlM (fun hs h => unified_of_unifyWithin hs h) h.acyclic hps
  rw [hsplit, List.forall_mem_append, List.forall_mem_cons] at hpairs
  refine ⟨hunified.acyclic, h.supplies.unified hpairs.1 hunified, hpairs.2.1.1, hpairs.2.1.2,
    h.passed.item ha hxs hpx hunified.extended, ?_⟩
  have := h.card
  rw [Finset.card_insert_of_notMem hnew]
  omega

theorem exists_suffices (hs : s.Acyclic) (a b : Term) :
    ∃ U, Suffices U ∅ (s.mass + a.size + b.size + 1) s a b := by
  obtain ⟨U, hU, ha, hb, hcard⟩ := exists_supplies s a b
  exact ⟨U, hs, hU, ha, hb, ⟨Finset.empty_subset U, by simp⟩, by rw [Finset.card_empty]; omega⟩

/-- Unification within a depth that is enough fails only where the terms are never equal. -/
theorem not_equal_of_unifyWithin_eq_none {U : Finset Term} : ∀ {depth : Nat} {s : Bindings} {a b : Term}
    {V : Finset Term}, Suffices U V depth s a b → unifyWithin depth s a b = none →
    ∀ τ, s.RespectedBy τ → a.subst τ ≠ b.subst τ := by
  intro depth
  induction depth with
  | zero => exact fun h => absurd rfl h.depth_ne_zero
  | succ depth ih =>
    intro s a b V hV h τ hτ
    have hva (v) := get?_of_walk_eq_var hV.acyclic (t := a) (v := v)
    have hvb (v) := get?_of_walk_eq_var hV.acyclic (t := b) (v := v)
    rw [← hτ.subst_walk a, ← hτ.subst_walk b]
    have hlevel := unifyWithin_level depth s a b
    rw [h] at hlevel
    generalize ha : s.walk a = a' at hva hlevel ⊢
    generalize hb : s.walk b = b' at hvb hlevel ⊢
    generalize hr : none = r at hlevel
    cases hlevel with
    | same _ => cases hr
    | left hne => exact not_equal_of_bind?_eq_none hne hvb hr.symm hτ
    | right hne => exact (not_equal_of_bind?_eq_none (Ne.symm hne) hva hr.symm hτ).symm
    | clash hne => exact hne τ
    | @items xs ys hlen =>
      obtain ⟨ps, p, qs, s₁, hsplit, hps, hp⟩ := exists_of_foldlM_eq_none hr.symm
      have hunified : Unified s ps s₁ := unified_of_foldlM (fun hs h => unified_of_unifyWithin hs h) hV.acyclic hps
      rw [subst_compound, subst_compound, ne_eq, compound.injEq, map_subst_eq_iff hlen, hsplit]
      intro hall
      rw [List.forall_mem_append, List.forall_mem_cons] at hall
      exact ih (hV.item ha hb hsplit hps) hp τ ((hunified.respectedBy_iff τ).2 ⟨hτ, hall.1⟩) hall.2.1

/-- Where one of the walked terms is not a sequence, one level settles the pair. -/
theorem unifyWithin_eq_of_not_items {a b : Term}
    (h : ¬∃ xs ys, s.walk a = .compound xs ∧ s.walk b = .compound ys) (d e : Nat) :
    unifyWithin (d + 1) s a b = unifyWithin (e + 1) s a b := by
  rw [unifyWithin, unifyWithin]
  split
  · rfl
  · split
    · rfl
    · rfl
    · rename_i ha hb
      exact absurd ⟨_, _, ha, hb⟩ h
    · rfl

/-- The depth that `unify` allows is as good as one that is enough for all pairs. -/
theorem unify_eq_unifyWithin (s : Bindings) (a b : Term) :
    s.unify a b = unifyWithin (s.mass + a.size + b.size + 1) s a b := by
  unfold unify unifyDepth
  split
  · rfl
  · rename_i hitems
    exact unifyWithin_eq_of_not_items (fun ⟨xs, ys, hxs, hys⟩ => hitems xs ys hxs hys) 0 _

/-- **Unification fails only where there is no solution**: no assignment that respects the bindings makes
the two terms equal. -/
theorem not_equal_of_unify_eq_none (hs : s.Acyclic) {a b : Term} (h : s.unify a b = none) {τ : Nat → Term}
    (hτ : s.RespectedBy τ) : a.subst τ ≠ b.subst τ := by
  obtain ⟨U, hU⟩ := exists_suffices hs a b
  exact not_equal_of_unifyWithin_eq_none hU ((unify_eq_unifyWithin s a b).symm.trans h) τ hτ

/-! ### The bound on the depth -/

/-- A larger bound on the depth keeps a result. -/
theorem unifyWithin_mono : ∀ {d e : Nat} {s s' : Bindings} {a b : Term}, d ≤ e →
    unifyWithin d s a b = some s' → unifyWithin e s a b = some s' := by
  intro d
  induction d with
  | zero => intro e s s' a b _ h; cases h
  | succ d ih =>
    intro e s s' a b hde h
    obtain ⟨e, rfl⟩ : ∃ n, e = n + 1 := ⟨e - 1, by omega⟩
    have fold {ps : List (Term × Term)} {s s' : Bindings}
        (h : ps.foldlM (fun s p => unifyWithin d s p.1 p.2) s = some s') :
        ps.foldlM (fun s p => unifyWithin e s p.1 p.2) s = some s' := by
      have step {r r' r₁ : Bindings} (p : Term × Term) (heq : r = r') (hp : unifyWithin d r p.1 p.2 = some r₁) :
          ∃ r₁', unifyWithin e r' p.1 p.2 = some r₁' ∧ r₁ = r₁' := ⟨r₁, ih (by omega) (heq ▸ hp), rfl⟩
      obtain ⟨_, h', rfl⟩ := foldlM_exists step rfl h
      exact h'
    rw [unifyWithin] at h ⊢
    split at h
    · rw [if_pos ‹_›]
      exact h
    · rw [if_neg ‹_›]
      split at h
      · exact h
      · exact h
      · split at h
        · rw [if_pos ‹_›]
          exact fold h
        · cases h
      · cases h

/-- What unification returns within some bound on the depth, it returns within its own. -/
theorem unify_of_unifyWithin (hs : s.Acyclic) {depth : Nat} {a b : Term}
    (h : unifyWithin depth s a b = some s') : s.unify a b = some s' := by
  cases hu : s.unify a b with
  | none =>
    have hunified := unified_of_unifyWithin hs h
    have hvalue := hunified.acyclic.respectedBy_value
    obtain ⟨hτ, heq⟩ := (hunified.respectedBy_iff _).1 hvalue
    exact absurd (heq _ (List.mem_singleton_self _)) (not_equal_of_unify_eq_none hs hu hτ)
  | some s₁ =>
    have h₁ := unifyWithin_mono (Nat.le_max_left (s.unifyDepth a b) depth) hu
    have h₂ := unifyWithin_mono (Nat.le_max_right (s.unifyDepth a b) depth) h
    rw [← h₁, h₂]

/-- Going through pairs within a bound on the depth that was large enough is going through them without one. -/
theorem foldlM_unify_of_unifyWithin {depth : Nat} {pairs : List (Term × Term)} (hs : s.Acyclic)
    (h : pairs.foldlM (fun s p => unifyWithin depth s p.1 p.2) s = some s') :
    pairs.foldlM (fun s p => s.unify p.1 p.2) s = some s' := by
  have step {r r' r₁ : Bindings} (p : Term × Term) (hr : r.Acyclic ∧ r = r')
      (hp : unifyWithin depth r p.1 p.2 = some r₁) : ∃ r₁', r'.unify p.1 p.2 = some r₁' ∧ r₁.Acyclic ∧ r₁ = r₁' := by
    obtain ⟨hacyclic, rfl⟩ := hr
    exact ⟨r₁, unify_of_unifyWithin hacyclic hp, (unified_of_unifyWithin hacyclic hp).acyclic, rfl⟩
  obtain ⟨_, h', -, rfl⟩ := foldlM_exists (T := fun r r' => r.Acyclic ∧ r = r') step ⟨hs, rfl⟩ h
  exact h'

/-- The depth that `unify` allows does not show when it goes through the items of two sequences. -/
theorem foldlM_unifyWithin_eq (hs : s.Acyclic) {a b : Term} {xs ys : List Term} (ha : s.walk a = .compound xs)
    (hb : s.walk b = .compound ys) (hlen : xs.length = ys.length) {depth : Nat}
    (h : s.unify a b = (xs.zip ys).foldlM (fun s p => unifyWithin depth s p.1 p.2) s) :
    s.unify a b = (xs.zip ys).foldlM (fun s p => s.unify p.1 p.2) s := by
  cases hu : s.unify a b with
  | some s' => exact (foldlM_unify_of_unifyWithin hs (h.symm.trans hu)).symm
  | none =>
    cases hfold : (xs.zip ys).foldlM (fun s p => s.unify p.1 p.2) s with
    | none => rfl
    | some s' =>
      -- the items have a common solution, which the two terms would have too
      have hitems : Unified s (xs.zip ys) s' := unified_of_foldlM (fun hs h => unified_of_unify hs h) hs hfold
      have hunified : Unified s [(a, b)] s' := .of_walk (ha ▸ hb ▸ .of_items hlen hitems)
      obtain ⟨hτ, heq⟩ := (hunified.respectedBy_iff _).1 hunified.acyclic.respectedBy_value
      exact absurd (heq _ (List.mem_singleton_self _)) (not_equal_of_unify_eq_none hs hu hτ)

/-- **Unification without a bound on the depth**: walked terms that are equal need nothing, variables are bound,
sequences of one length are unified item by item, and all else fails. -/
theorem unify_eq (hs : s.Acyclic) (a b : Term) : s.unify a b =
    if s.walk a = s.walk b then some s
    else
      match s.walk a, s.walk b with
      | .var x, b => s.bind? x b
      | a, .var y => s.bind? y a
      | .compound xs, .compound ys =>
        if xs.length = ys.length then (xs.zip ys).foldlM (fun s p => s.unify p.1 p.2) s else none
      | _, _ => none := by
  obtain ⟨depth, hdepth⟩ : ∃ depth, s.unifyDepth a b = depth + 1 := by
    unfold unifyDepth
    split
    · exact ⟨_, rfl⟩
    · exact ⟨0, rfl⟩
  have h : s.unify a b = unifyWithin (depth + 1) s a b := by rw [unify, hdepth]
  have hitems : ∀ {xs ys}, s.walk a = .compound xs → s.walk b = .compound ys → xs.length = ys.length →
      s.unify a b = (xs.zip ys).foldlM (fun s p => unifyWithin depth s p.1 p.2) s →
        s.unify a b = (xs.zip ys).foldlM (fun s p => s.unify p.1 p.2) s :=
    fun ha hb hlen h => foldlM_unifyWithin_eq hs ha hb hlen h
  rw [unifyWithin] at h
  generalize s.walk a = a' at *
  generalize s.walk b = b' at *
  split
  · rwa [if_pos ‹_›] at h
  · rw [if_neg ‹_›] at h
    cases a' with
    | var x => exact h
    | compound xs =>
      cases b' with
      | compound ys =>
        dsimp only at h ⊢
        split
        · rw [if_pos ‹_›] at h
          exact hitems rfl rfl ‹_› h
        · rwa [if_neg ‹_›] at h
      | _ => exact h
    | _ => cases b' <;> exact h

/-! ### Lists of pairs -/

/-- Pairs fail to unify one after the other only where no assignment that respects the bindings makes all of them
equal. -/
theorem not_forall_equal_of_unifyAll_eq_none (hs : s.Acyclic) {pairs : List (Term × Term)}
    (h : s.unifyAll pairs = none) {τ : Nat → Term} (hτ : s.RespectedBy τ) :
    ¬∀ p ∈ pairs, p.1.subst τ = p.2.subst τ := by
  obtain ⟨ps, p, qs, s₁, hsplit, hps, hp⟩ := exists_of_foldlM_eq_none h
  have hunified : Unified s ps s₁ := unified_of_unifyAll hs hps
  rw [hsplit, List.forall_mem_append, List.forall_mem_cons]
  rintro ⟨hpairs, heq, -⟩
  exact not_equal_of_unify_eq_none hunified.acyclic hp ((hunified.respectedBy_iff τ).2 ⟨hτ, hpairs⟩) heq

/-- Pairs unify one after the other exactly where some assignment that respects the bindings makes all of them
equal. -/
theorem exists_unifyAll_iff (hs : s.Acyclic) {pairs : List (Term × Term)} :
    (∃ s', s.unifyAll pairs = some s') ↔ ∃ τ, s.RespectedBy τ ∧ ∀ p ∈ pairs, p.1.subst τ = p.2.subst τ := by
  constructor
  · rintro ⟨s', h⟩
    have hunified := unified_of_unifyAll hs h
    exact ⟨s'.value, (hunified.respectedBy_iff _).1 hunified.acyclic.respectedBy_value⟩
  · rintro ⟨τ, hτ, hpairs⟩
    cases h : s.unifyAll pairs with
    | some s' => exact ⟨s', rfl⟩
    | none => exact absurd hpairs (not_forall_equal_of_unifyAll_eq_none hs h hτ)

/-- Triples fail to unify only where no assignment that respects the bindings makes them equal. -/
theorem not_equal_of_unifyTriple_eq_none (hs : s.Acyclic) {a b : Triple} (h : s.unifyTriple a b = none)
    {τ : Nat → Term} (hτ : s.RespectedBy τ) : a.map (subst τ) ≠ b.map (subst τ) := by
  rw [ne_eq, ← positionPairs_eq_iff]
  exact not_forall_equal_of_unifyAll_eq_none hs ((unifyTriple_eq_unifyAll s a b).symm.trans h) hτ

/-! ### The common solutions -/

/-- The assignment is a common solution of bindings and a pair of terms, and all others are instances of it. -/
structure MostGeneral (s : Bindings) (a b : Term) (σ : Nat → Term) : Prop where
  respects : s.RespectedBy σ
  equal : a.subst σ = b.subst σ
  instances : ∀ τ, s.RespectedBy τ → a.subst τ = b.subst τ → ∃ π, ∀ v, τ v = (σ v).subst π

/-- The values that unified bindings give are a most general solution: an assignment that respects the bindings
is an instance of them by itself. -/
theorem Unified.mostGeneral {a b : Term} (h : Unified s [(a, b)] s') : MostGeneral s a b s'.value := by
  obtain ⟨hs, heq⟩ := (h.respectedBy_iff _).1 h.acyclic.respectedBy_value
  refine ⟨hs, heq _ (List.mem_singleton_self _), fun τ hτ hab => ⟨τ, fun v => ?_⟩⟩
  have hrespects : s'.RespectedBy τ := (h.respectedBy_iff τ).2 ⟨hτ, List.forall_mem_singleton.2 hab⟩
  exact (hrespects.subst_reify (.var v)).symm

/-- **Unification computes exactly the common solutions.** On acyclic bindings, what `unify` returns is respected
by the assignments that respect the given bindings and make the two terms equal, and by no others; hence it
gives the two terms one value, and its values are a most general solution. Where `unify` returns nothing, no
assignment that respects the given bindings makes the two terms equal. -/
theorem unify_solutions (hs : s.Acyclic) (a b : Term) :
    (∀ s', s.unify a b = some s' →
      (∀ τ, s'.RespectedBy τ ↔ s.RespectedBy τ ∧ a.subst τ = b.subst τ) ∧
        s'.reify a = s'.reify b ∧ MostGeneral s a b s'.value) ∧
      (s.unify a b = none → ∀ τ, s.RespectedBy τ → a.subst τ ≠ b.subst τ) := by
  refine ⟨fun s' h => ?_, fun h τ hτ => not_equal_of_unify_eq_none hs h hτ⟩
  have hunified := unified_of_unify hs h
  refine ⟨fun τ => ?_, ?_, hunified.mostGeneral⟩
  · rw [hunified.respectedBy_iff, List.forall_mem_singleton]
  · rw [reify_eq_subst, reify_eq_subst]
    exact hunified.mostGeneral.equal

/-- Where `0` is bound to a pair that begins with `1`, it unifies with another pair, but not with `1`. -/
theorem unify_solutions_pair : ∃ s s' : Bindings, s.Acyclic ∧
    s.unify (.var 0) (.compound [.str "x", .var 2]) = some s' ∧
      MostGeneral s (.var 0) (.compound [.str "x", .var 2]) s'.value ∧
        s.unify (.var 1) (.var 0) = none ∧ ∀ τ, s.RespectedBy τ → τ 1 ≠ τ 0 := by
  have hs : (empty.extend 0 (.compound [.var 1, .int 2])).Acyclic :=
    acyclic_extend acyclic_empty (get?_empty 0) (by decide)
  refine ⟨_, _, hs, by rfl, ?_, by rfl, ?_⟩
  · exact ((unify_solutions hs _ _).1 _ (by rfl)).2.2
  · exact (unify_solutions hs (.var 1) (.var 0)).2 (by rfl)

end TripleStore.Bindings
