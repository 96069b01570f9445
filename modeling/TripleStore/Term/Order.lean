import TripleStore.Term.Basic

/-!
# An order on terms

A total order on terms, for use as the key order of search trees. Terms of different kinds are ordered
by kind; terms of one kind by content, sequences lexicographically.
-/

namespace TripleStore.Term

/-- The place of a term's kind in the order. -/
def kind : Term → Nat
  | .var _ => 0
  | .str _ => 1
  | .int _ => 2
  | .bool _ => 3
  | .compound _ => 4

mutual

/-- Compares two terms. -/
def cmp : Term → Term → Ordering
  | .var m, .var n => compare m n
  | .str s, .str t => compare s t
  | .int m, .int n => compare m n
  | .bool b, .bool c => compare b c
  | .compound xs, .compound ys => cmpAll xs ys
  | a, b => compare a.kind b.kind

/-- Compares two lists of terms lexicographically; a list comes after its proper beginnings. -/
def cmpAll : List Term → List Term → Ordering
  | [], [] => .eq
  | [], _ :: _ => .lt
  | _ :: _, [] => .gt
  | x :: xs, y :: ys => (cmp x y).then (cmpAll xs ys)

end

/-- Compares two pairs of terms, the first components first. -/
def cmpPair (a b : Term × Term) : Ordering := (cmp a.1 b.1).then (cmp a.2 b.2)

end TripleStore.Term
