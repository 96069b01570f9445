/-!
# Terms

A term is a numbered variable, a constant (text, 64-bit integer, truth value) or a finite sequence of
terms. This module holds the type, decidable equality, the variables of a term, substitution for
variables, and triples of terms.

New variables get their numbers by addition. In a running program these numbers are 64-bit words, and a sum that is
no word wraps around; a `Numbering` says whether sums are words or have no bound.

Every traversal of a term is a mutual pair: one function for a term and one for a list of terms.
-/

namespace TripleStore

/-- How the numbers of variables are added. -/
inductive Numbering where
  /-- Without a bound. -/
  | unbounded
  /-- In 64-bit words: what is beyond the largest of them begins again at zero. -/
  | words
  deriving DecidableEq

/-- The number that a sum comes out as. -/
def Numbering.keep : Numbering → Nat → Nat
  | unbounded, n => n
  | words, n => n % UInt64.size

/-- A logic term. -/
inductive Term where
  /-- The variable with the given number, a 64-bit word in a running program. -/
  | var (id : Nat)
  /-- A text constant. -/
  | str (text : String)
  /-- A signed 64-bit integer constant. -/
  | int (value : Int64)
  /-- A truth value. -/
  | bool (value : Bool)
  /-- A sequence of terms; its length is part of its identity. -/
  | compound (items : List Term)
  deriving Inhabited

namespace Term

/-! ### Equality -/

mutual

/-- Structural equality test. -/
def beq : Term → Term → Bool
  | .var m, .var n => decide (m = n)
  | .str s, .str t => decide (s = t)
  | .int m, .int n => decide (m = n)
  | .bool b, .bool c => decide (b = c)
  | .compound xs, .compound ys => beqAll xs ys
  | _, _ => false

/-- Structural equality test for lists of terms. -/
def beqAll : List Term → List Term → Bool
  | [], [] => true
  | x :: xs, y :: ys => beq x y && beqAll xs ys
  | _, _ => false

end

mutual

/-- The equality test accepts exactly the pairs of equal terms. -/
theorem beq_eq_true_iff : ∀ a b : Term, beq a b = true ↔ a = b
  | .var _, b => by cases b <;> simp [beq]
  | .str _, b => by cases b <;> simp [beq]
  | .int _, b => by cases b <;> simp [beq]
  | .bool _, b => by cases b <;> simp [beq]
  | .compound xs, .compound ys => by simp [beq, beqAll_eq_true_iff xs ys]
  | .compound _, .var _ => by simp [beq]
  | .compound _, .str _ => by simp [beq]
  | .compound _, .int _ => by simp [beq]
  | .compound _, .bool _ => by simp [beq]

/-- The equality test for lists accepts exactly the pairs of equal lists. -/
theorem beqAll_eq_true_iff : ∀ xs ys : List Term, beqAll xs ys = true ↔ xs = ys
  | [], [] => by simp [beqAll]
  | [], _ :: _ => by simp [beqAll]
  | _ :: _, [] => by simp [beqAll]
  | x :: xs, y :: ys => by simp [beqAll, beq_eq_true_iff x y, beqAll_eq_true_iff xs ys]

end

instance : DecidableEq Term := fun a b => decidable_of_iff _ (beq_eq_true_iff a b)

/-! ### Variables -/

mutual

/-- The variables of a term, from left to right, once per occurrence. -/
def vars : Term → List Nat
  | .var v => [v]
  | .compound items => varsAll items
  | .str _ => []
  | .int _ => []
  | .bool _ => []

/-- The variables of a list of terms, from left to right. -/
def varsAll : List Term → List Nat
  | [] => []
  | t :: ts => vars t ++ varsAll ts

end

/-- A term is ground when no variable occurs in it. -/
def isGround (t : Term) : Bool := t.vars.isEmpty

/-- The largest variable of a term, if it has any. -/
def maxVar? (t : Term) : Option Nat := t.vars.max?

mutual

/-- Replaces every variable `v` by `f v`. -/
def subst (f : Nat → Term) : Term → Term
  | .var v => f v
  | .compound items => .compound (substAll f items)
  | .str s => .str s
  | .int n => .int n
  | .bool b => .bool b

/-- Replaces the variables of a list of terms. -/
def substAll (f : Nat → Term) : List Term → List Term
  | [] => []
  | t :: ts => subst f t :: substAll f ts

end

/-- Renames every variable by adding `base` to its number. -/
def shift (base : Nat) : Term → Term := subst fun v => .var (v + base)

/-- Renames every variable to what its number and `base` add up to. -/
def shiftIn (ν : Numbering) (base : Nat) : Term → Term := subst fun v => .var (ν.keep (v + base))

mutual

/-- The variables after a replacement are those of the replacements, in order. -/
theorem vars_subst (f : Nat → Term) :
    ∀ t : Term, (t.subst f).vars = t.vars.flatMap fun v => (f v).vars
  | .var v => by simp [subst, vars]
  | .str _ => rfl
  | .int _ => rfl
  | .bool _ => rfl
  | .compound items => by simp [subst, vars, varsAll_substAll f items]

/-- The variables of a list of terms after a replacement. -/
theorem varsAll_substAll (f : Nat → Term) :
    ∀ ts : List Term, varsAll (substAll f ts) = (varsAll ts).flatMap fun v => (f v).vars
  | [] => rfl
  | t :: ts => by simp [substAll, varsAll, vars_subst f t, varsAll_substAll f ts]

end

mutual

/-- Only what the variables of a term are replaced by matters. -/
theorem subst_congr {f g : Nat → Term} :
    ∀ {t : Term}, (∀ v ∈ t.vars, f v = g v) → t.subst f = t.subst g
  | .var v, h => h v (by simp [vars])
  | .str _, _ => rfl
  | .int _, _ => rfl
  | .bool _, _ => rfl
  | .compound _, h => congrArg compound (substAll_congr h)

/-- Only what the variables of a list of terms are replaced by matters. -/
theorem substAll_congr {f g : Nat → Term} :
    ∀ {ts : List Term}, (∀ v ∈ varsAll ts, f v = g v) → substAll f ts = substAll g ts
  | [], _ => rfl
  | _ :: _, h => by
    simp only [varsAll, List.mem_append] at h
    simp only [substAll]
    rw [subst_congr fun v hv => h v (.inl hv), substAll_congr fun v hv => h v (.inr hv)]

end

mutual

/-- Two replacements one after the other are one replacement. -/
theorem subst_subst (f g : Nat → Term) :
    ∀ t : Term, (t.subst f).subst g = t.subst fun v => (f v).subst g
  | .var _ => rfl
  | .str _ => rfl
  | .int _ => rfl
  | .bool _ => rfl
  | .compound items => congrArg compound (substAll_substAll f g items)

/-- Two replacements one after the other in a list of terms are one replacement. -/
theorem substAll_substAll (f g : Nat → Term) :
    ∀ ts : List Term, substAll g (substAll f ts) = substAll (fun v => (f v).subst g) ts
  | [] => rfl
  | t :: ts => by simp only [substAll, subst_subst f g t, substAll_substAll f g ts]

end

mutual

/-- Replacing each variable by itself changes nothing. -/
theorem subst_var : ∀ t : Term, t.subst var = t
  | .var _ => rfl
  | .str _ => rfl
  | .int _ => rfl
  | .bool _ => rfl
  | .compound items => congrArg compound (substAll_var items)

/-- Replacing each variable of a list of terms by itself changes nothing. -/
theorem substAll_var : ∀ ts : List Term, substAll var ts = ts
  | [] => rfl
  | t :: ts => by simp only [substAll, subst_var t, substAll_var ts]

end

mutual

/-- The number of nodes of a term. -/
def size : Term → Nat
  | .compound items => 1 + sizeAll items
  | .var _ => 1
  | .str _ => 1
  | .int _ => 1
  | .bool _ => 1

/-- The number of nodes of a list of terms. -/
def sizeAll : List Term → Nat
  | [] => 0
  | t :: ts => size t + sizeAll ts

end

/-- The text of a text constant. -/
def text? : Term → Option String
  | .str s => some s
  | _ => none

/-- The number of an integer constant. -/
def int? : Term → Option Int64
  | .int n => some n
  | _ => none

end Term

/-- An entity, an attribute and a value: a pattern when it has variables, a fact when it is ground. -/
structure Triple where
  /-- The entity position. -/
  entity : Term
  /-- The attribute position. -/
  attr : Term
  /-- The value position. -/
  value : Term
  deriving DecidableEq, Inhabited

namespace Triple

/-- The positions of a triple as a list. -/
def toList (t : Triple) : List Term := [t.entity, t.attr, t.value]

/-- Applies a function to each position. -/
def map (f : Term → Term) (t : Triple) : Triple := ⟨f t.entity, f t.attr, f t.value⟩

/-- The variables of a triple, from left to right. -/
def vars (t : Triple) : List Nat := Term.varsAll t.toList

/-- A triple is ground when each position is. -/
def isGround (t : Triple) : Bool := t.toList.all Term.isGround

/-- The first position with a variable in it. -/
def openPosition? (t : Triple) : Option Term := t.toList.find? fun p => !p.isGround

/-- No position has a variable in it exactly when the triple is ground. -/
theorem openPosition?_eq_none_iff {t : Triple} : t.openPosition? = none ↔ t.isGround = true := by
  simp [openPosition?, isGround]

/-- Renames every variable of a triple by adding `base` to its number. -/
def shift (base : Nat) (t : Triple) : Triple := t.map (Term.shift base)

/-- Renames every variable of a triple to what its number and `base` add up to. -/
def shiftIn (ν : Numbering) (base : Nat) (t : Triple) : Triple := t.map (Term.shiftIn ν base)

end Triple

end TripleStore
