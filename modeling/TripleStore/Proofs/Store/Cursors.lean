import Mathlib.Logic.Function.Iterate
import TripleStore.Proofs.Store.Positions

/-!
# Merging with two cursors

Two lists of positions are merged with one cursor in each, which are moved on turn by turn (`Walk.step`). A turn reads
the lists at the cursors, and the last one copies what lies behind them; both could happen outside a list. They do
not: the cursors stay within the lists, and what has been put out is always the merge but for what lies behind the
cursors (`Walk.Follows`). Each turn leaves less of that, so the walk ends with the merge (`Walk.ends_merge`). For
ascending lists this is the one ascending list of the positions in either list, or in both
(**`merging_exact`**).
-/

namespace TripleStore.Positions

/-- Which positions a merge takes. -/
inductive Taken where
  /-- Those in either list. -/
  | either
  /-- Those in both lists. -/
  | both

namespace Taken

variable {ps : List Nat}

/-- The merge of two lists. -/
def merge : Taken → List Nat → List Nat → List Nat
  | either => union
  | both => intersect

/-- What is taken of positions that only one of the lists has. -/
def alone : Taken → List Nat → List Nat
  | either, ps => ps
  | both, _ => []

/-- What is taken of a list from a cursor on when the other list has come to its end. A cursor beyond the end of the
list has nothing behind it, not even an empty rest. -/
def rest? : Taken → List Nat → Nat → Option (List Nat)
  | either, ps, i => if i ≤ ps.length then some (ps.drop i) else none
  | both, _, _ => some []

theorem rest?_of_le (taken : Taken) {i : Nat} (h : i ≤ ps.length) : taken.rest? ps i = some (taken.alone (ps.drop i)) := by
  cases taken with
  | either => exact if_pos h
  | both => rfl

theorem alone_nil (taken : Taken) : taken.alone [] = [] := by
  cases taken <;> rfl

theorem merge_nil_left (taken : Taken) (qs : List Nat) : taken.merge [] qs = taken.alone qs := by
  cases taken <;> rfl

theorem merge_nil_right (taken : Taken) (ps : List Nat) : taken.merge ps [] = taken.alone ps := by
  cases taken with
  | both => cases ps <;> rfl
  | either =>
    induction ps with
    | nil => rfl
    | cons p ps ih => exact congrArg (p :: ·) ih

/-- The first positions of both lists decide what comes first in the merge. -/
theorem merge_cons_cons (taken : Taken) (p q : Nat) (ps qs : List Nat) : taken.merge (p :: ps) (q :: qs) =
    if p < q then taken.alone [p] ++ taken.merge ps (q :: qs)
    else if q < p then taken.alone [q] ++ taken.merge (p :: ps) qs
    else p :: taken.merge ps qs := by
  cases taken <;> rfl

end Taken

/-! ### Turns -/

/-- How far a walk along two lists has come. -/
inductive Walk where
  /-- The cursors are at these places, and these positions have been put out. -/
  | running (i j : Nat) (out : List Nat)
  /-- The walk has come to its end with these positions. -/
  | ended (out : List Nat)
  /-- The walk has read outside a list. -/
  | outOfRange

namespace Walk

variable {taken : Taken} {ps qs out : List Nat} {w : Walk} {i j : Nat}

/-- The walk begins before the first positions. -/
def start : Walk := running 0 0 []

/-- One turn of a walk. As long as neither cursor is at the end of its list, the smaller of the two positions is passed,
or both if they are the same; then the rests of the lists are copied. -/
def step (taken : Taken) (ps qs : List Nat) : Walk → Walk
  | running i j out =>
    if i < ps.length ∧ j < qs.length then
      match ps[i]?, qs[j]? with
      | some p, some q =>
        if p < q then running (i + 1) j (out ++ taken.alone [p])
        else if q < p then running i (j + 1) (out ++ taken.alone [q])
        else running (i + 1) (j + 1) (out ++ [p])
      | _, _ => outOfRange
    else
      match taken.rest? ps i, taken.rest? qs j with
      | some ps', some qs' => ended (out ++ ps' ++ qs')
      | _, _ => outOfRange
  | w => w

/-- A bound on the turns until a walk is at its end: one for each position behind the cursors and the last one. -/
def turns (ps qs : List Nat) : Walk → Nat
  | running i j _ => (ps.length - i) + (qs.length - j) + 1
  | _ => 0

/-- The walk follows the merge: the cursors are in their lists, and only the merge of what lies behind them is still to
be put out. -/
inductive Follows (taken : Taken) (ps qs : List Nat) : Walk → Prop
  | running {i j : Nat} {out : List Nat} : i ≤ ps.length → j ≤ qs.length →
      out ++ taken.merge (ps.drop i) (qs.drop j) = taken.merge ps qs → Follows taken ps qs (running i j out)
  | ended : Follows taken ps qs (ended (taken.merge ps qs))

theorem follows_start (taken : Taken) (ps qs : List Nat) : Follows taken ps qs start :=
  .running (Nat.zero_le _) (Nat.zero_le _) rfl

/-- When one of the cursors is at the end of its list, the next turn is the last one. -/
theorem step_last (hi : i ≤ ps.length) (hj : j ≤ qs.length) (hend : i = ps.length ∨ j = qs.length)
    (hout : out ++ taken.merge (ps.drop i) (qs.drop j) = taken.merge ps qs) :
    step taken ps qs (running i j out) = ended (taken.merge ps qs) := by
  have hguard : ¬(i < ps.length ∧ j < qs.length) := by omega
  rw [step, if_neg hguard, taken.rest?_of_le hi, taken.rest?_of_le hj, ← hout]
  dsimp only
  rcases hend with rfl | rfl
  · rw [List.drop_length, taken.merge_nil_left, taken.alone_nil, List.append_nil]
  · rw [List.drop_length, taken.merge_nil_right, taken.alone_nil, List.append_nil]

/-- A turn keeps to the merge, and there is one turn less to come. -/
theorem Follows.turn (h : Follows taken ps qs w) :
    Follows taken ps qs (w.step taken ps qs) ∧ (w.step taken ps qs).turns ps qs ≤ w.turns ps qs - 1 := by
  cases h with
  | ended => exact ⟨.ended, Nat.le_refl 0⟩
  | @running i j out hi hj hout =>
    by_cases hguard : i < ps.length ∧ j < qs.length
    · obtain ⟨hi, hj⟩ := hguard
      have hp : ps.drop i = ps[i] :: ps.drop (i + 1) := List.drop_eq_getElem_cons hi
      have hq : qs.drop j = qs[j] :: qs.drop (j + 1) := List.drop_eq_getElem_cons hj
      rw [hp, hq, taken.merge_cons_cons] at hout
      rw [Walk.step, if_pos ⟨hi, hj⟩, List.getElem?_eq_getElem hi, List.getElem?_eq_getElem hj]
      dsimp only
      -- the turn puts out just what comes first in the merge of what lies behind the cursors
      split_ifs at hout ⊢ with hpq hqp
      · refine ⟨.running hi hj.le ?_, by simp only [turns]; omega⟩
        rw [List.append_assoc, hq, hout]
      · refine ⟨.running hi.le hj ?_, by simp only [turns]; omega⟩
        rw [List.append_assoc, hp, hout]
      · refine ⟨.running hi hj ?_, by simp only [turns]; omega⟩
        rw [List.append_assoc, List.singleton_append, hout]
    · rw [step_last hi hj (by omega) hout]
      exact ⟨.ended, Nat.zero_le _⟩

/-- After some turns the walk still follows the merge, and so many turns fewer are to come. -/
theorem Follows.iterate (h : Follows taken ps qs w) (n : Nat) :
    Follows taken ps qs ((step taken ps qs)^[n] w) ∧ ((step taken ps qs)^[n] w).turns ps qs ≤ w.turns ps qs - n := by
  induction n with
  | zero => exact ⟨h, Nat.le_refl _⟩
  | succ n ih =>
    obtain ⟨hfollows, hturns⟩ := ih
    obtain ⟨hfollows, hless⟩ := hfollows.turn
    rw [Function.iterate_succ_apply']
    exact ⟨hfollows, by omega⟩

/-- The walk along two lists ends with some positions, at the latest after one turn for each position in the lists and
one more, and has read nothing outside the lists. -/
structure Ends (taken : Taken) (ps qs rs : List Nat) : Prop where
  result : (step taken ps qs)^[ps.length + qs.length + 1] start = ended rs
  inRange : ∀ n, (step taken ps qs)^[n] start ≠ outOfRange

/-- **The walk ends with the merge**, whatever the lists are. -/
theorem ends_merge (taken : Taken) (ps qs : List Nat) : Ends taken ps qs (taken.merge ps qs) where
  result := by
    obtain ⟨hfollows, hturns⟩ := (follows_start taken ps qs).iterate (ps.length + qs.length + 1)
    generalize (step taken ps qs)^[ps.length + qs.length + 1] start = w at hfollows hturns
    cases hfollows with
    | ended => rfl
    | running => simp only [turns, start] at hturns; omega
  inRange n := by
    have hfollows := ((follows_start taken ps qs).iterate n).1
    intro hout
    rw [hout] at hfollows
    cases hfollows

end Walk

/-! ### Ascending lists -/

variable {ps qs : List Nat}

/-- An ascending list is the only one with its members. -/
theorem eq_iff_pairwise_and_mem {rs : List Nat} {P : Nat → Prop} (hrs : rs.Pairwise (· < ·)) (hmem : ∀ x, x ∈ rs ↔ P x)
    (l : List Nat) : l = rs ↔ l.Pairwise (· < ·) ∧ ∀ x, x ∈ l ↔ P x := by
  constructor
  · rintro rfl
    exact ⟨hrs, hmem⟩
  · rintro ⟨hl, hlmem⟩
    exact hl.eq_of_mem_iff hrs fun x => (hlmem x).trans (hmem x).symm

theorem count_of_pairwise {l : List Nat} (h : l.Pairwise (· < ·)) (x : Nat) : l.count x = if x ∈ l then 1 else 0 :=
  List.Nodup.count (h.imp fun hlt => hlt.ne)

/-- **Merging is exact.** The union of two ascending lists of positions is the only ascending list of the positions in
either list, the intersection the only one of those in both, so that no position is lost or repeated. The walks with two
cursors come to their ends with these lists and read nothing outside the lists that they merge. -/
theorem merging_exact (hps : ps.Pairwise (· < ·)) (hqs : qs.Pairwise (· < ·)) :
    (∀ rs, rs = union ps qs ↔ rs.Pairwise (· < ·) ∧ ∀ x, x ∈ rs ↔ x ∈ ps ∨ x ∈ qs) ∧
      (∀ rs, rs = intersect ps qs ↔ rs.Pairwise (· < ·) ∧ ∀ x, x ∈ rs ↔ x ∈ ps ∧ x ∈ qs) ∧
      (∀ x, (union ps qs).count x = max (ps.count x) (qs.count x) ∧
        (intersect ps qs).count x = min (ps.count x) (qs.count x)) ∧
      Walk.Ends .either ps qs (union ps qs) ∧ Walk.Ends .both ps qs (intersect ps qs) := by
  have hunion := pairwise_union hps hqs
  have hintersect := pairwise_intersect hps hqs
  refine ⟨eq_iff_pairwise_and_mem hunion (mem_union ps qs), eq_iff_pairwise_and_mem hintersect (mem_intersect hps hqs),
    fun x => ?_, Walk.ends_merge .either ps qs, Walk.ends_merge .both ps qs⟩
  rw [count_of_pairwise hunion, count_of_pairwise hintersect, count_of_pairwise hps, count_of_pairwise hqs]
  simp only [mem_union, mem_intersect hps hqs]
  by_cases hp : x ∈ ps <;> by_cases hq : x ∈ qs <;> simp [hp, hq]

/-- Each list has a position that comes before, one that comes between, and one that is in the other list too. -/
theorem merging_exact_crossing :
    [1, 3, 5].Pairwise (· < ·) ∧ [2, 3, 6].Pairwise (· < ·) ∧
      Walk.Ends .either [1, 3, 5] [2, 3, 6] [1, 2, 3, 5, 6] ∧ Walk.Ends .both [1, 3, 5] [2, 3, 6] [3] := by
  have hps : [1, 3, 5].Pairwise (· < ·) := by decide
  have hqs : [2, 3, 6].Pairwise (· < ·) := by decide
  obtain ⟨-, -, -, heither, hboth⟩ := merging_exact hps hqs
  exact ⟨hps, hqs, heither, hboth⟩

end TripleStore.Positions
