import TripleStore.Yaml.Cell

/-!
# Blanks and line breaks in YAML texts

Between tokens, blanks, line breaks and comments are skipped. Between the words of a scalar, blanks are
kept as they are unless the line ends: a line break counts as a blank, and of several line breaks the first
one does not count.
-/

namespace TripleStore.Yaml.Gap

/-! ### Between tokens -/

/-- Skips what may stand before a token. A tab is skipped only in brackets or where no key can begin, and a
byte order mark only at the beginning of a line. The first component says whether a key can begin after
what was skipped, which outside of brackets is so on each new line. `comment` is true inside a comment. -/
def skip (flow : Bool) (keyAllowed comment : Bool) : List Cell → Bool × List Cell
  | [] => (keyAllowed, [])
  | cell :: rest =>
    if isBreak cell.char then skip flow (keyAllowed || !flow) false rest
    else if comment then
      if cell.char = endMark then (keyAllowed, cell :: rest) else skip flow keyAllowed true rest
    else if cell.char = '#' then skip flow keyAllowed true rest
    else if cell.char = ' ' || (cell.char = '\t' && (flow || !keyAllowed)) ||
        (cell.char = '\ufeff' && cell.place.column = 0) then
      skip flow keyAllowed false rest
    else (keyAllowed, cell :: rest)

/-- Skips blanks and a comment up to the end of a line, and the end of the line. Nothing else may stand
there. -/
def skipLine? (cells : List Cell) : Option (List Cell) :=
  let cells := Cell.skip isBlank cells
  let cells := if Cell.next cells = '#' then Cell.skip (fun c => !endsLine c) cells else cells
  match cells with
  | [] => some []
  | cell :: rest =>
    if isBreak cell.char then some rest
    else if cell.char = endMark then some (cell :: rest)
    else none

/-! ### Between the words of a scalar -/

/-- What some line breaks between two words stand for. -/
def folded : List Char → List Char
  | ['\n'] => [' ']
  | '\n' :: more => more
  | breaks => breaks

/-- What a gap between two words stands for: line breaks are folded, and there blanks do not count. -/
def text (gap : List Cell) : List Char :=
  match (Cell.chars gap).filter isBreak with
  | [] => Cell.chars gap
  | breaks => folded breaks

/-- True when a gap goes over the end of a line. -/
def isBroken (gap : List Cell) : Bool := gap.any fun cell => isBreak cell.char

/-- True when a line inside a gap has a tab where its first `margin` characters stand. -/
def hasTabBefore (margin : Nat) (gap : List Cell) : Bool :=
  (Cell.skip isBlank gap).any fun cell => cell.char = '\t' && cell.place.column < margin

end TripleStore.Yaml.Gap
