import Mathlib.Algebra.Ring.Nat
import Mathlib.Data.Finset.Card
import TripleStore.Term.Basic

/-!
# Assignments, renamings and parts of terms

An assignment gives every variable a term; `subst` carries it over to all terms. This module has what the
theory of bindings and of search needs to know about it: the value of a term is at least as large as the
value of each variable in it (`size_le_size_subst`), strictly so if the term is more than that variable
(`size_lt_size_subst`), which is what the occurs check is about; ground terms are their own values
(`subst_of_isGround`); and a renaming by an injective function loses nothing (`rename_injective`).
-/

namespace TripleStore.Term

/-- Induction on terms: what holds of all items of a sequence holds of the sequence. -/
@[elab_as_elim, induction_eliminator]
theorem induction {P : Term → Prop} (var : ∀ v, P (.var v)) (str : ∀ s, P (.str s)) (int : ∀ n, P (.int n))
    (bool : ∀ b, P (.bool b)) (compound : ∀ items, (∀ t ∈ items, P t) → P (.compound items)) (t : Term) : P t :=
  @Term.rec P (fun ts => ∀ t ∈ ts, P t) var str int bool compound (by simp)
    (fun _ _ hd tl => List.forall_mem_cons.2 ⟨hd, tl⟩) t

/-! ### Lists of terms -/

theorem varsAll_eq_flatMap (ts : List Term) : varsAll ts = ts.flatMap vars := by
  induction ts with
  | nil => rfl
  | cons t ts ih => rw [varsAll, ih, List.flatMap_cons]

theorem substAll_eq_map (f : Nat → Term) (ts : List Term) : substAll f ts = ts.map (subst f) := by
  induction ts with
  | nil => rfl
  | cons t ts ih => rw [substAll, ih, List.map_cons]

theorem sizeAll_eq_sum (ts : List Term) : sizeAll ts = (ts.map size).sum := by
  induction ts with
  | nil => rfl
  | cons t ts ih => rw [sizeAll, ih, List.map_cons, List.sum_cons]

@[simp] theorem mem_vars_var {v w : Nat} : w ∈ (var v).vars ↔ w = v := by simp [vars]

@[simp] theorem mem_vars_compound {items : List Term} {v : Nat} :
    v ∈ (compound items).vars ↔ ∃ t ∈ items, v ∈ t.vars := by
  simp [vars, varsAll_eq_flatMap]

@[simp] theorem subst_compound (f : Nat → Term) (items : List Term) :
    (compound items).subst f = compound (items.map (subst f)) := by
  simp [subst, substAll_eq_map]

/-- The variables of a value are those of the values of the variables. -/
theorem mem_vars_subst {f : Nat → Term} {t : Term} {w : Nat} :
    w ∈ (t.subst f).vars ↔ ∃ v ∈ t.vars, w ∈ (f v).vars := by
  simp [vars_subst]

/-! ### Ground terms -/

theorem isGround_iff {t : Term} : t.isGround = true ↔ ∀ v, v ∉ t.vars := by
  rw [isGround, List.isEmpty_iff, List.eq_nil_iff_forall_not_mem]

theorem isGround_compound {items : List Term} :
    (compound items).isGround = true ↔ ∀ t ∈ items, t.isGround = true := by
  simp only [isGround_iff, mem_vars_compound, not_exists, not_and]
  exact ⟨fun h t ht v => h v t ht, fun h v t ht => h t ht v⟩

/-- No assignment changes a ground term. -/
theorem subst_of_isGround {t : Term} (h : t.isGround = true) (f : Nat → Term) : t.subst f = t := by
  conv_rhs => rw [← subst_var t]
  exact subst_congr fun v hv => absurd hv (isGround_iff.1 h v)

/-- The value of a term is ground when the values of its variables are. -/
theorem isGround_subst {t : Term} {f : Nat → Term} (h : ∀ v ∈ t.vars, (f v).isGround = true) :
    (t.subst f).isGround = true := by
  rw [isGround_iff]
  intro w hw
  obtain ⟨v, hv, hw⟩ := mem_vars_subst.1 hw
  exact isGround_iff.1 (h v hv) w hw

/-- An assignment of ground terms. -/
def Grounding (f : Nat → Term) : Prop := ∀ v, (f v).isGround = true

theorem Grounding.subst {f : Nat → Term} (h : Grounding f) (t : Term) : (t.subst f).isGround = true :=
  isGround_subst fun v _ => h v

/-! ### Sizes -/

theorem size_le_sizeAll {items : List Term} {t : Term} (h : t ∈ items) : t.size ≤ sizeAll items := by
  induction items with
  | nil => simp at h
  | cons u us ih =>
    rw [sizeAll]
    rcases List.mem_cons.1 h with rfl | h
    · omega
    · have := ih h
      omega

theorem size_lt_of_mem {items : List Term} {t : Term} (h : t ∈ items) : t.size < (compound items).size := by
  have := size_le_sizeAll h
  rw [size]
  omega

/-- The value of a term is at least as large as that of each variable in it. -/
theorem size_le_size_subst {f : Nat → Term} {t : Term} {x : Nat} (hx : x ∈ t.vars) :
    (f x).size ≤ (t.subst f).size := by
  induction t with
  | var v => rw [mem_vars_var.1 hx]; exact le_rfl
  | str _ => simp [vars] at hx
  | int _ => simp [vars] at hx
  | bool _ => simp [vars] at hx
  | compound items ih =>
    obtain ⟨t, ht, hx⟩ := mem_vars_compound.1 hx
    have := size_lt_of_mem (List.mem_map_of_mem (f := Term.subst f) ht)
    rw [subst_compound]
    exact (ih t ht hx).trans this.le

/-- The value of a term that is more than the variable `x`, but contains it, is larger than the value
of `x`. -/
theorem size_lt_size_subst {f : Nat → Term} {t : Term} {x : Nat} (hx : x ∈ t.vars) (ht : t ≠ var x) :
    (f x).size < (t.subst f).size := by
  cases t with
  | var v => exact absurd (by rw [mem_vars_var.1 hx]) ht
  | str _ => simp [vars] at hx
  | int _ => simp [vars] at hx
  | bool _ => simp [vars] at hx
  | compound items =>
    obtain ⟨t, ht, hx⟩ := mem_vars_compound.1 hx
    have := size_lt_of_mem (List.mem_map_of_mem (f := Term.subst f) ht)
    rw [subst_compound]
    exact (size_le_size_subst hx).trans_lt this

/-! ### Parts -/

mutual

/-- The terms that occur in a term, the term itself among them. -/
def parts : Term → List Term
  | .compound items => .compound items :: partsAll items
  | .var v => [.var v]
  | .str s => [.str s]
  | .int n => [.int n]
  | .bool b => [.bool b]

/-- The terms that occur in the terms of a list. -/
def partsAll : List Term → List Term
  | [] => []
  | t :: ts => parts t ++ partsAll ts

end

theorem partsAll_eq_flatMap (ts : List Term) : partsAll ts = ts.flatMap parts := by
  induction ts with
  | nil => rfl
  | cons t ts ih => rw [partsAll, ih, List.flatMap_cons]

/-- A term has as many parts as nodes. -/
theorem length_parts (t : Term) : t.parts.length = t.size := by
  induction t with
  | var _ => rfl
  | str _ => rfl
  | int _ => rfl
  | bool _ => rfl
  | compound items ih =>
    rw [parts, size, partsAll_eq_flatMap, sizeAll_eq_sum, List.length_cons, List.length_flatMap,
      List.map_congr_left ih, Nat.add_comm]

theorem self_mem_parts (t : Term) : t ∈ t.parts := by
  cases t <;> simp [parts]

theorem parts_subset {items : List Term} {t : Term} (ht : t ∈ items) : t.parts ⊆ (compound items).parts := by
  intro u hu
  rw [parts, partsAll_eq_flatMap]
  exact List.mem_cons_of_mem _ (List.mem_flatMap.2 ⟨t, ht, hu⟩)

/-- The items of a sequence that occurs in a term occur in it too. -/
theorem mem_parts_of_mem {items : List Term} {t u : Term} (h : compound items ∈ t.parts) (hu : u ∈ items) :
    u ∈ t.parts := by
  induction t with
  | var _ => simp [parts] at h
  | str _ => simp [parts] at h
  | int _ => simp [parts] at h
  | bool _ => simp [parts] at h
  | compound ts ih =>
    simp only [parts, partsAll_eq_flatMap, List.mem_cons, compound.injEq, List.mem_flatMap] at h ⊢
    obtain rfl | ⟨t, ht, h⟩ := h
    · exact .inr ⟨u, hu, self_mem_parts u⟩
    · exact .inr ⟨t, ht, ih t ht h⟩

/-! ### Renamings -/

/-- Renames the variables of a term. -/
def rename (ρ : Nat → Nat) : Term → Term := subst fun v => var (ρ v)

theorem shift_eq_rename (base : Nat) : shift base = rename (· + base) := rfl

@[simp] theorem rename_var (ρ : Nat → Nat) (v : Nat) : (var v).rename ρ = var (ρ v) := rfl

@[simp] theorem rename_compound (ρ : Nat → Nat) (items : List Term) :
    (compound items).rename ρ = compound (items.map (rename ρ)) := by
  simp [rename]

@[simp] theorem mem_vars_rename {ρ : Nat → Nat} {t : Term} {w : Nat} :
    w ∈ (t.rename ρ).vars ↔ ∃ v ∈ t.vars, ρ v = w := by
  simp [rename, mem_vars_subst, eq_comm]

theorem vars_rename (ρ : Nat → Nat) (t : Term) : (t.rename ρ).vars = t.vars.map ρ := by
  rw [rename, vars_subst, List.map_eq_flatMap]
  rfl

@[simp] theorem isGround_rename (ρ : Nat → Nat) (t : Term) : (t.rename ρ).isGround = t.isGround := by
  rw [isGround, isGround, vars_rename, List.isEmpty_map]

theorem rename_of_isGround {t : Term} (h : t.isGround = true) (ρ : Nat → Nat) : t.rename ρ = t :=
  subst_of_isGround h _

/-- The value of a renamed term. -/
theorem subst_rename (ρ : Nat → Nat) (f : Nat → Term) (t : Term) :
    (t.rename ρ).subst f = t.subst fun v => f (ρ v) :=
  subst_subst _ f t

theorem rename_subst (f : Nat → Term) (ρ : Nat → Nat) (t : Term) :
    (t.subst f).rename ρ = t.subst fun v => (f v).rename ρ :=
  subst_subst f _ t

theorem rename_rename (ρ π : Nat → Nat) (t : Term) : (t.rename ρ).rename π = t.rename fun v => π (ρ v) :=
  subst_rename ρ _ t

theorem rename_congr {ρ π : Nat → Nat} {t : Term} (h : ∀ v ∈ t.vars, ρ v = π v) : t.rename ρ = t.rename π :=
  subst_congr fun v hv => by rw [h v hv]

/-- The value of a term whose variables were moved into the range that begins at `base`. -/
theorem subst_shift (base : Nat) (f : Nat → Term) (t : Term) :
    (t.shift base).subst f = t.subst fun v => f (v + base) :=
  subst_rename _ f t

/-- An assignment that takes one range to another takes a term in the one to the term in the other. -/
theorem subst_shift_eq {f : Nat → Term} {n m : Nat} (h : ∀ v, f (v + n) = var (v + m)) (t : Term) :
    (t.shift n).subst f = t.shift m := by
  rw [subst_shift]
  exact subst_congr fun v _ => h v

/-- A renaming that gives different variables different names can be undone. -/
theorem rename_injective {ρ : Nat → Nat} (hρ : Function.Injective ρ) : Function.Injective (rename ρ) := by
  intro a b h
  have undo : ∀ t : Term, (t.rename ρ).rename (Function.invFun ρ) = t := fun t => by
    rw [rename_rename]
    conv_rhs => rw [← subst_var t]
    exact subst_congr fun v _ => congrArg var (Function.leftInverse_invFun hρ v)
  rw [← undo a, h, undo b]

end TripleStore.Term
