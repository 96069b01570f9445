import Std.Data.ExtTreeMap.Lemmas
import TripleStore.Term.Basic

/-!
# Bindings

Bindings map variables to terms. A bound term may mention bound variables again, so the value of a term
is found by following bindings: `walk` at the top of a term, `reify` all the way down. `unify` extends
bindings until two terms have the same value; it refuses to bind a variable to a term that contains it.

The functions that follow bindings carry a bound on how far they go. On bindings in which no variable
reaches itself the bounds given here are never met: a path of bindings visits each variable at most
once, and `unify` never descends twice through the same node of the terms involved.
-/

namespace TripleStore

/-- Finitely many variables with a term for each. -/
structure Bindings where
  /-- The bound variables and their terms. -/
  entries : Std.ExtTreeMap Nat Term := ∅

namespace Bindings

/-- No variable is bound. -/
def empty : Bindings := ⟨∅⟩

instance : Inhabited Bindings := ⟨empty⟩

/-- The term that a variable is bound to. -/
def get? (s : Bindings) (v : Nat) : Option Term := s.entries[v]?

/-- The number of bound variables. -/
def size (s : Bindings) : Nat := s.entries.size

/-- True when no variable is bound. -/
def isEmpty (s : Bindings) : Bool := s.entries.isEmpty

/-- Binds `v` to `t`, in place of an earlier binding of `v` if there is one. -/
def extend (s : Bindings) (v : Nat) (t : Term) : Bindings := ⟨s.entries.insert v t⟩

/-- Bindings are equal when they bind every variable to the same term. -/
@[ext]
theorem ext {s t : Bindings} (h : ∀ v, s.get? v = t.get? v) : s = t := by
  cases s
  cases t
  exact congrArg mk (Std.ExtTreeMap.ext_getElem? h)

/-- The empty bindings bind nothing. -/
@[simp] theorem get?_empty (v : Nat) : empty.get? v = none := by simp [empty, get?]

/-- Binding a variable changes what that variable is bound to, and nothing else. -/
theorem get?_extend (s : Bindings) (v w : Nat) (t : Term) :
    (s.extend v t).get? w = if v = w then some t else s.get? w := by
  simp [extend, get?, Std.ExtTreeMap.getElem?_insert]

/-- Binding an unbound variable adds one to the number of bound variables. -/
theorem size_extend {s : Bindings} {v : Nat} (h : s.get? v = none) (t : Term) :
    (s.extend v t).size = s.size + 1 := by
  have hv : v ∉ s.entries := by simpa [get?] using h
  simp [extend, size, Std.ExtTreeMap.size_insert, hv]

/-- Binds each variable of a list in turn. -/
def ofList (bindings : List (Nat × Term)) : Bindings :=
  bindings.foldl (fun s b => s.extend b.1 b.2) empty

/-- The number of nodes in all bound terms together. -/
def mass (s : Bindings) : Nat := s.entries.foldl (fun n _ t => n + t.size) 0

/-! ### Values of terms -/

/-- Follows at most `steps` bindings from a variable. -/
def walkWithin (s : Bindings) : Nat → Term → Term
  | 0, t => t
  | steps + 1, .var v =>
    match s.get? v with
    | some t => s.walkWithin steps t
    | none => .var v
  | _ + 1, t => t

/-- Follows bindings from a variable to the first term that is not a bound variable. Terms that are not
variables are returned as they are. -/
def walk (s : Bindings) (t : Term) : Term := s.walkWithin s.size t

/-- Replaces bound variables by their values, through at most `steps` bindings one inside the other. -/
def reifyWithin (s : Bindings) : Nat → Term → Term
  | 0, t => t
  | steps + 1, t => t.subst fun v =>
    match s.get? v with
    | some u => s.reifyWithin steps u
    | none => .var v

/-- Replaces every bound variable of a term by its value. -/
def reify (s : Bindings) (t : Term) : Term := s.reifyWithin s.size t

/-- The value of a variable, if it is ground. -/
def resolve? (s : Bindings) (v : Nat) : Option Term :=
  let t := s.reify (.var v)
  if t.isGround then some t else none

/-! ### Unification -/

/-- Looks for the unbound variable `x` in the value of a term, through at most `steps` bindings. -/
def occursWithin (s : Bindings) (x : Nat) : Nat → Term → Bool
  | 0, t => t.vars.contains x
  | steps + 1, t => t.vars.any fun v =>
    match s.get? v with
    | some u => s.occursWithin x steps u
    | none => v == x

/-- True when the unbound variable `x` occurs in the value of a term. -/
def occurs (s : Bindings) (x : Nat) (t : Term) : Bool := s.occursWithin x s.size t

/-- Binds the unbound variable `x` to `t`, unless `x` occurs in the value of `t`. -/
def bind? (s : Bindings) (x : Nat) (t : Term) : Option Bindings :=
  if s.occurs x t then none else some (s.extend x t)

/-- Unifies two terms whose values are compared at most `depth` sequences deep. -/
def unifyWithin : Nat → Bindings → Term → Term → Option Bindings
  | 0, _, _, _ => none
  | depth + 1, s, a, b =>
    let a := s.walk a
    let b := s.walk b
    if a = b then some s
    else
      match a, b with
      | .var x, b => s.bind? x b
      | a, .var y => s.bind? y a
      | .compound xs, .compound ys =>
        if xs.length = ys.length then
          (xs.zip ys).foldlM (fun s p => unifyWithin depth s p.1 p.2) s
        else none
      | _, _ => none

/-- How deep the unification of two terms can go. Each level enters a sequence that occurs in one of the
terms or in a bound term, and no level enters the same one again. A pair that is not a pair of sequences
is settled at once. -/
def unifyDepth (s : Bindings) (a b : Term) : Nat :=
  match s.walk a, s.walk b with
  | .compound _, .compound _ => s.mass + a.size + b.size + 1
  | _, _ => 1

/-- Extends bindings so that two terms get the same value. Variables are bound to walked terms; components
of sequences are unified from left to right, each under the bindings that the earlier ones left. -/
def unify (s : Bindings) (a b : Term) : Option Bindings := unifyWithin (s.unifyDepth a b) s a b

/-- Unifies two triples, position by position. -/
def unifyTriple (s : Bindings) (a b : Triple) : Option Bindings := do
  let s ← s.unify a.entity b.entity
  let s ← s.unify a.attr b.attr
  s.unify a.value b.value

end Bindings

end TripleStore
