/-!
# Lists of positions

Positions in a store are listed in ascending order, each once. `union` and `intersect` merge two such
lists into one, in one walk along both.
-/

namespace TripleStore.Positions

/-- Merges `p` and what `tail` puts after it into a list: the members before `p` come first. -/
def unionFrom (tail : List Nat → List Nat) (p : Nat) : List Nat → List Nat
  | [] => p :: tail []
  | q :: rest =>
    if p < q then p :: tail (q :: rest)
    else if q < p then q :: unionFrom tail p rest
    else p :: tail rest

/-- The positions in either of two ascending lists, in ascending order. -/
def union : List Nat → List Nat → List Nat
  | [], qs => qs
  | p :: ps, qs => unionFrom (union ps) p qs

/-- Looks for `p` in a list and goes on with `tail` behind the place where it belongs. -/
def intersectFrom (tail : List Nat → List Nat) (p : Nat) : List Nat → List Nat
  | [] => []
  | q :: rest =>
    if p < q then tail (q :: rest)
    else if q < p then intersectFrom tail p rest
    else p :: tail rest

/-- The positions in both of two ascending lists, in ascending order. -/
def intersect : List Nat → List Nat → List Nat
  | [], _ => []
  | p :: ps, qs => intersectFrom (intersect ps) p qs

end TripleStore.Positions
