import TripleStore.Yaml.Gap

/-!
# Plain scalars

A plain scalar is a run of words. It ends at a colon after which the word ends, in brackets also at a comma
or bracket, and at a word that begins with a number sign or stands between documents. Outside of brackets
it goes on only on lines that are indented.
-/

namespace TripleStore.Yaml.Plain

/-- Characters that a plain scalar cannot begin with, unless what follows allows it. -/
def isIndicator (c : Char) : Bool := isFlowMark c || "-?:#&*!|>'\"%@\x60".toList.contains c

/-- True when a plain scalar can begin here. -/
def begins (flow : Bool) (cells : List Cell) : Bool :=
  let c := Cell.next cells
  let after := Cell.next (cells.drop 1)
  !(endsWord c || isIndicator c) || (c = '-' && !isBlank after) ||
    (!flow && (c = '?' || c = ':') && !endsWord after)

/-- The characters of a word. In brackets a colon before a mark is refused. -/
def word? (flow : Bool) : List Cell → Option (List Char × List Cell)
  | [] => some ([], [])
  | cell :: rest =>
    let after := Cell.next rest
    if endsWord cell.char then some ([], cell :: rest)
    else if flow && cell.char = ':' && (after = '?' || isFlowMark after) then none
    else if (cell.char = ':' && endsWord after) || (flow && isFlowMark cell.char) then
      some ([], cell :: rest)
    else (word? flow rest).map fun (word, rest) => (cell.char :: word, rest)

/-- The characters of words and of the gaps between them, whether the scalar ended on a later line than its
last word, and what follows. `fuel` bounds the number of words. -/
def words? (flow : Bool) (margin : Nat) :
    (fuel : Nat) → List Cell → Option (List Char × Bool × List Cell)
  | 0, _ => none
  | fuel + 1, cells =>
    if Cell.atBoundary cells || Cell.next cells = '#' then some ([], false, cells)
    else do
      let (word, rest) ← word? flow cells
      let (gap, rest) := Cell.span isGap rest
      guard !(Gap.hasTabBefore margin gap)
      if gap.isEmpty then return (word, false, rest)
      else if !flow && (Cell.front rest).column < margin then return (word, Gap.isBroken gap, rest)
      else
        match ← words? flow margin fuel rest with
        | ([], _, rest) => return (word, Gap.isBroken gap, rest)
        | (more, broken, rest) => return (word ++ Gap.text gap ++ more, broken, rest)

/-- Reads a plain scalar. Outside of brackets its lines are indented by at least `margin`. -/
def read? (flow : Bool) (margin : Nat) (cells : List Cell) : Option (String × Bool × List Cell) :=
  (words? flow margin (cells.length + 1) cells).map fun (text, rest) => (String.ofList text, rest)

end TripleStore.Yaml.Plain
