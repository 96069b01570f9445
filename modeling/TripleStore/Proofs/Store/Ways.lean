import Mathlib.Data.Multiset.Bind
import TripleStore.Proofs.Store.Model

/-!
# In how many ways goals are met

`Store.Derivable` says whether a triple follows from a store, not how often. Here a way to meet goals is counted as
often as there are proofs of them, and comes as the set of the assignments that meet the goals in that way: a goal has
as many ways as the proofs that may be chosen for it, some goals have as many as there are choices for all of them, and
the assignments that meet all of them are those that meet each (`Goal.waysAll`). Proofs are counted within a bound on
how deep rules are used inside each other (`Store.proofs`).

There is no order in this: it takes intersections, so the ways to meet some goals are the same in whatever order the
goals are listed (**`Goal.waysAll_perm`**).
-/

namespace TripleStore

open Term

/-! ### Ways to meet goals -/

/-- A way to meet both for each two ways to meet the one and the other. -/
def waysBoth (M N : Multiset (Set (Nat → Term))) : Multiset (Set (Nat → Term)) := M.bind fun X => N.map (X ∩ ·)

theorem waysBoth_left_comm (M N K : Multiset (Set (Nat → Term))) :
    waysBoth M (waysBoth N K) = waysBoth N (waysBoth M K) := by
  simp only [waysBoth, Multiset.map_bind, Multiset.map_map, Function.comp_def]
  rw [Multiset.bind_bind]
  simp only [Set.inter_left_comm]

/-- Taking inverse images on both sides. -/
theorem waysBoth_preimage (f : (Nat → Term) → Nat → Term) (M N : Multiset (Set (Nat → Term))) :
    waysBoth (M.map (Set.preimage f)) (N.map (Set.preimage f)) = (waysBoth M N).map (Set.preimage f) := by
  simp only [waysBoth, Multiset.bind_map, Multiset.map_bind, Multiset.map_map, Function.comp_def, Set.preimage_inter]

namespace Goal

/-- The ways to meet a goal, given the sets of triples that are proved at once: a pattern is met by a proof under the
assignments that make it one of the triples proved, and there is one way for a check to hold. -/
def ways (P : Multiset (Set Triple)) : Goal → Multiset (Set (Nat → Term))
  | .pattern t => P.map fun U => {τ | t.map (subst τ) ∈ U}
  | .check c => {{τ | c.Holds τ}}

/-- The ways to meet some goals together. -/
def waysAll (P : Multiset (Set Triple)) (goals : List Goal) : Multiset (Set (Nat → Term)) :=
  goals.foldr (fun g M => waysBoth (g.ways P) M) {Set.univ}

variable {P : Multiset (Set Triple)}

@[simp] theorem waysAll_nil : waysAll P [] = {Set.univ} := rfl

@[simp] theorem waysAll_cons (g : Goal) (goals : List Goal) :
    waysAll P (g :: goals) = waysBoth (g.ways P) (waysAll P goals) := rfl

/-- **The order of goals does not matter.** -/
theorem waysAll_perm {goals goals' : List Goal} (h : goals.Perm goals') : waysAll P goals = waysAll P goals' := by
  have : LeftCommutative fun g M => waysBoth (ways P g) M := ⟨fun _ _ _ => waysBoth_left_comm _ _ _⟩
  exact h.foldr_eq _

theorem ways_shift (n : Nat) (g : Goal) :
    (g.shift n).ways P = (g.ways P).map (Set.preimage fun τ v => τ (v + n)) := by
  cases g with
  | pattern t =>
    show (P.map fun U => {τ | (t.shift n).map (subst τ) ∈ U}) = _
    simp only [Triple.subst_shift, ways, Multiset.map_map]
    rfl
  | check c =>
    have hholds (τ : Nat → Term) : (c.map (Term.shift n)).Holds τ ↔ c.Holds fun v => τ (v + n) :=
      holds_shift (g := .check c) (M := fun _ => False)
    show {{τ | (c.map (Term.shift n)).Holds τ}} = _
    simp only [hholds, ways, Multiset.map_singleton]
    rfl

/-- The ways to meet renamed goals. -/
theorem waysAll_shift (n : Nat) (goals : List Goal) :
    waysAll P (goals.map (shift n)) = (waysAll P goals).map (Set.preimage fun τ v => τ (v + n)) := by
  induction goals with
  | nil => rfl
  | cons g goals ih => rw [List.map_cons, waysAll_cons, waysAll_cons, ways_shift, ih, waysBoth_preimage]

end Goal

/-! ### Proofs -/

/-- The goals of a rule; a fact has none. -/
def Entry.body : Entry → List Goal
  | fact .. => []
  | rule r => r.body

/-- The triples that an entry proves under some assignments. -/
def Entry.proves (e : Entry) (X : Set (Nat → Term)) : Set Triple := {t | ∃ σ ∈ X, e.head.map (subst σ) = t}

/-- One use of an entry on top of given proofs: as many proofs as there are ways to meet the body of an entry. -/
def Store.prove (st : Store) (P : Multiset (Set Triple)) : Multiset (Set Triple) :=
  (st.entries.toList : Multiset Entry).bind fun e => (Goal.waysAll P e.body).map e.proves

/-- The proofs with rules used at most `depth` deep inside each other. -/
def Store.proofs (st : Store) : (depth : Nat) → Multiset (Set Triple)
  | 0 => 0
  | depth + 1 => st.prove (st.proofs depth)

end TripleStore
