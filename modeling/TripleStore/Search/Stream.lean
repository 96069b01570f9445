import TripleStore.Search.Event

/-!
# Streams of answers

A stream is a machine that takes one step at a time. A step may bring an answer, an error or the end, or
just move on. `pull` runs a stream to its next answer and `drain` to its end or to a number of answers;
both take a bound on the number of steps and say when it was too small, so that running out of steps is
never taken for the end of the stream.
-/

namespace TripleStore

/-- What a step brings. -/
inductive Progress (α : Type) where
  /-- Nothing yet. -/
  | moved
  /-- An answer. -/
  | answer (a : α)
  /-- An error. -/
  | error (e : Uninstantiated)
  /-- Nothing, now and ever after. -/
  | done

/-- A step of a stream with states `σ`. -/
structure Step (σ α : Type) where
  /-- What the step brings. -/
  progress : Progress α
  /-- The state after the step. -/
  next : σ
  /-- What the step reports. -/
  events : List Event

/-- How a pull ends. -/
inductive Pulled (α : Type) where
  /-- The next answer. -/
  | answer (a : α)
  /-- An error. -/
  | error (e : Uninstantiated)
  /-- There are no more answers. -/
  | done
  /-- The bound on the number of steps was met. -/
  | outOfSteps

/-- A pull: how it ends, and what it leaves. -/
structure Pull (σ α : Type) where
  /-- How the pull ends. -/
  result : Pulled α
  /-- The state after the pull. -/
  state : σ
  /-- What the steps reported. -/
  events : Array Event

/-- How a drain ends. -/
inductive Ending where
  /-- There are no more answers. -/
  | exhausted
  /-- The number of answers asked for was met. -/
  | limit
  /-- An error. -/
  | error (e : Uninstantiated)
  /-- The bound on the number of steps was met. -/
  | outOfSteps

/-- A drain: the answers, how it ends, and what it leaves. -/
structure Drain (σ α : Type) where
  /-- The answers in order. -/
  items : Array α
  /-- How the drain ends. -/
  ending : Ending
  /-- The state after the drain. -/
  state : σ
  /-- What the steps reported. -/
  events : Array Event

namespace Step

variable {σ α : Type} (step : σ → Step σ α)

/-- Takes at most `steps` steps, up to one that brings something; `events` were reported before. -/
def pullFrom : (steps : Nat) → σ → (events : Array Event) → Pull σ α
  | 0, s, events => ⟨.outOfSteps, s, events⟩
  | steps + 1, s, events =>
    let taken := step s
    let events := events ++ taken.events
    match taken.progress with
    | .moved => pullFrom steps taken.next events
    | .answer a => ⟨.answer a, taken.next, events⟩
    | .error e => ⟨.error e, taken.next, events⟩
    | .done => ⟨.done, taken.next, events⟩

/-- Runs a stream to its next answer, within a number of steps. -/
def pull (steps : Nat) (s : σ) : Pull σ α := pullFrom step steps s #[]

/-- Takes at most `steps` steps, up to an error, the end or the number of answers asked for; `items` and
`events` came before. -/
def drainFrom (limit? : Option Nat) :
    (steps : Nat) → σ → (items : Array α) → (events : Array Event) → Drain σ α
  | 0, s, items, events => ⟨items, .outOfSteps, s, events⟩
  | steps + 1, s, items, events =>
    if limit? = some items.size then ⟨items, .limit, s, events⟩
    else
      let taken := step s
      let events := events ++ taken.events
      match taken.progress with
      | .moved => drainFrom limit? steps taken.next items events
      | .answer a => drainFrom limit? steps taken.next (items.push a) events
      | .error e => ⟨items, .error e, taken.next, events⟩
      | .done => ⟨items, .exhausted, taken.next, events⟩

/-- Runs a stream to its end or to a number of answers, within a number of steps. -/
def drain (limit? : Option Nat) (steps : Nat) (s : σ) : Drain σ α :=
  drainFrom step limit? steps s #[] #[]

end Step

end TripleStore
