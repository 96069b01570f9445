import TripleStore.Goal
import TripleStore.Text.Styled

/-!
# Traces

A search reports its steps as events. This module holds the events and their texts: a short one, and a
numbered line for a terminal.
-/

namespace TripleStore

/-- A step of a search. -/
inductive Event where
  /-- A pattern was selected and its candidates found. -/
  | goal (pattern : Triple) (candidates : Nat)
  /-- A fact was tried against the selected pattern. -/
  | fact (triple : Triple) (matched : Bool)
  /-- The head of a rule matched; its variables number from `base`. -/
  | rule (name? : Option String) (head : Triple) (base : Nat)
  /-- A check was decided. -/
  | check (condition : Check) (passed : Bool)
  /-- Every goal was met. -/
  | solution (bindings : Nat)
  /-- A solution was dropped because the variable of a name has no ground value. -/
  | incomplete (name : String)

namespace Event

/-- The text of a truth value. -/
def truth (b : Bool) : String := if b then "true" else "false"

/-- The short text of an event. -/
def brief : Event → String
  | goal pattern _ => "goal " ++ pattern.display
  | fact triple matched => "fact " ++ triple.display ++ " " ++ truth matched
  | rule name? _ _ => "rule " ++ name?.getD "_"
  | check condition passed => "check " ++ condition.operator ++ " " ++ truth passed
  | solution _ => "solution"
  | incomplete name => "incomplete " ++ name

/-- The description of an event in a trace line. -/
def describe (colour : Bool) : Event → String
  | goal pattern candidates =>
    Text.styled colour .boldCyan "goal" ++ " " ++ pattern.display ++
      " (" ++ toString candidates ++ " candidates)"
  | fact triple matched =>
    let mark :=
      if matched then Text.styled colour .green "match" else Text.styled colour .dimmed "miss"
    "  " ++ mark ++ " " ++ triple.display
  | rule name? head base =>
    "  " ++ Text.styled colour .boldYellow "rule" ++ " " ++ name?.getD "<anonymous>" ++ " " ++
      head.display ++ " @" ++ toString base
  | check condition passed =>
    let mark := if passed then Text.styled colour .green "pass" else Text.styled colour .red "fail"
    "  " ++ mark ++ " " ++ condition.display
  | solution bindings =>
    Text.styled colour .boldGreen "solution" ++ " (" ++ toString bindings ++ " bindings)"
  | incomplete name => Text.styled colour .boldRed "dropped" ++ " ?" ++ name ++ " left unbound"

/-- The trace line of an event: its number, six characters wide, and its description. -/
def line (colour : Bool) (number : Nat) (e : Event) : String :=
  Text.styled colour .dimmed (Text.padLeft 6 (toString number)) ++ " " ++ e.describe colour

/-- The trace lines of events, numbered from one. -/
def lines (colour : Bool) (events : List Event) : List String :=
  events.zipIdx.map fun (e, n) => e.line colour (n + 1)

end Event

end TripleStore
