import TripleStore.Search.Stream
import TripleStore.Store.Basic

/-!
# Search

The goals of a conjunction are met one after the other, from the left. A pattern opens a choice between
its candidates: a fact that matches leaves the remaining goals to be met, a rule whose head matches puts
its body, with fresh variables, in front of them. When the goals at hand cannot be met the search goes
back to the latest choice. The state of the search is explicit, so that it can stop after every answer
and go on from there.

A search is told from which number on its rules get their variables, and counts on from there. A running program
counts in 64-bit words (`stepIn .words`), so that a search that is told a number close to the largest word comes back to
variables that are in use. With numbers that have no bound (`step`) it does not, and as long as no sum leaves the words
the two are the same. The search of a query begins at the size of its scope.
-/

namespace TripleStore

/-- A pattern with candidates that have not been tried. -/
structure Choice where
  /-- The bindings under which the pattern was selected. -/
  bindings : Bindings
  /-- The pattern. -/
  pattern : Triple
  /-- The goals to be met after the pattern. -/
  rest : List Goal
  /-- The positions that have not been tried. -/
  candidates : List Nat

/-- The state of a search. -/
structure Search where
  /-- The number from which the next rule gets its variables. -/
  nextVar : Nat
  /-- Goals to be met next, and the bindings to meet them under. -/
  pending : Option (Bindings × List Goal)
  /-- The open choices, the latest first. -/
  choices : List Choice

namespace Search

/-- The search for all ways to meet some goals under bindings. The number `nextVar` has to be above every
variable of the goals and the bindings, and in words also far enough below the largest one. -/
def start (s : Bindings) (goals : List Goal) (nextVar : Nat) : Search := ⟨nextVar, some (s, goals), []⟩

/-- Selects the first of the pending goals; without one, the bindings are an answer. -/
def expand (st : Store) (mode : Retrieval) (search : Search) (s : Bindings) :
    List Goal → Step Search Bindings
  | [] => ⟨.answer s, { search with pending := none }, [.solution s.size]⟩
  | .check c :: rest =>
    match c.run s with
    | .ok true => ⟨.moved, { search with pending := some (s, rest) }, [.check c true]⟩
    | .ok false => ⟨.moved, { search with pending := none }, [.check c false]⟩
    | .error e => ⟨.error e, { search with pending := none, choices := [] }, []⟩
  | .pattern t :: rest =>
    let candidates := st.candidates mode s t
    ⟨.moved, { search with pending := none, choices := ⟨s, t, rest, candidates⟩ :: search.choices },
      [.goal t candidates.length]⟩

/-- Tries an entry against a pattern under bindings; `search` is the search without this entry. The
variables of a rule are used up only when its head matches. -/
def attemptIn (ν : Numbering) (search : Search) (choice : Choice) : Entry → Step Search Bindings
  | .fact t _ =>
    match choice.bindings.unifyTriple choice.pattern t with
    | some s => ⟨.moved, { search with pending := some (s, choice.rest) }, [.fact t true]⟩
    | none => ⟨.moved, search, [.fact t false]⟩
  | .rule r =>
    let head := r.headIn ν search.nextVar
    match choice.bindings.unifyTriple choice.pattern head with
    | some s =>
      ⟨.moved,
        { search with
          nextVar := ν.keep (search.nextVar + r.varCount)
          pending := some (s, r.bodyIn ν search.nextVar ++ choice.rest) },
        [.rule r.name? head search.nextVar]⟩
    | none => ⟨.moved, search, []⟩

/-- Goes on with the next candidate of the latest choice, or closes that choice. -/
def backtrackIn (ν : Numbering) (st : Store) (search : Search) : Step Search Bindings :=
  match search.choices with
  | [] => ⟨.done, search, []⟩
  | choice :: choices =>
    match choice.candidates with
    | [] => ⟨.moved, { search with choices := choices }, []⟩
    | position :: candidates =>
      let search := { search with choices := { choice with candidates := candidates } :: choices }
      match st.get? position with
      | some entry => attemptIn ν search choice entry
      | none => ⟨.moved, search, []⟩

/-- One step of a search that adds the numbers of variables as `ν` says. -/
def stepIn (ν : Numbering) (st : Store) (mode : Retrieval) (search : Search) : Step Search Bindings :=
  match search.pending with
  | some (s, goals) => search.expand st mode s goals
  | none => search.backtrackIn ν st

/-- One step of a search with unbounded numbers. -/
def step (st : Store) (mode : Retrieval) (search : Search) : Step Search Bindings := search.stepIn .unbounded st mode

end Search

end TripleStore
