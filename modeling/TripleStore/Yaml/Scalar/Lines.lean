import TripleStore.Yaml.Gap

/-!
# Scalars of lines

A bar or a greater-than sign is followed by lines that form a scalar; they are indented by the same
number of columns. After a bar the line breaks are kept; after a greater-than sign a line break between two
lines that begin without a blank is folded. The header before the lines may say how far the lines are
indented, and whether the line breaks at the end are dropped, reduced to one or kept.
-/

namespace TripleStore.Yaml.Lines

/-- What becomes of the line breaks at the end. -/
inductive Chomping where
  /-- They are dropped. -/
  | strip
  /-- The first one is kept. -/
  | clip
  /-- They are kept. -/
  | keep
  deriving DecidableEq

/-- The chomping of an indicator. -/
def Chomping.ofChar? : Char → Option Chomping
  | '-' => some .strip
  | '+' => some .keep
  | _ => none

/-- What the header says. -/
structure Header where
  /-- What becomes of the line breaks at the end. -/
  chomping : Chomping := .clip
  /-- By how many columns the lines are indented; none when the lines themselves show it. -/
  indentation? : Option Nat := none

/-- Splits the sign for chomping off the front, if there is one. -/
def spanChomping (cells : List Cell) : Chomping × List Cell :=
  match Chomping.ofChar? (Cell.next cells) with
  | some chomping => (chomping, cells.drop 1)
  | none => (.clip, cells)

/-- Splits the digit for the indentation off the front, if there is one; it is not zero. -/
def spanIndentation? (cells : List Cell) : Option (Option Nat × List Cell) :=
  match digit? 10 (Cell.next cells) with
  | some 0 => none
  | some n => some (some n, cells.drop 1)
  | none => some (none, cells)

/-- Reads the header: two signs in any order, each of which may be left out. -/
def header? (cells : List Cell) : Option (Header × List Cell) := do
  let (indentation?, rest) ← spanIndentation? cells
  match indentation? with
  | some n =>
    let (chomping, rest) := spanChomping rest
    return (⟨chomping, some n⟩, rest)
  | none =>
    match Chomping.ofChar? (Cell.next cells) with
    | some chomping =>
      let (indentation?, rest) ← spanIndentation? (cells.drop 1)
      return (⟨chomping, indentation?⟩, rest)
    | none => return ({}, cells)

/-- The line breaks of empty lines, the greatest column that the blanks before them or after them reach, and
what follows. Blanks are skipped up to the given column, or all of them if there is none; a tab is
refused there. -/
def emptyLines? (column? : Option Nat) (reached : Nat) : List Cell → Option (List Char × Nat × List Cell)
  | [] => some ([], reached, [])
  | cell :: rest =>
    let inside := column?.all fun column => cell.place.column < column
    if inside && cell.char = ' ' then emptyLines? column? reached rest
    else
      let reached := max reached cell.place.column
      if inside && cell.char = '\t' then none
      else if isBreak cell.char then
        (emptyLines? column? reached rest).map fun (breaks, rest) => (cell.char :: breaks, rest)
      else some ([], reached, cell :: rest)

/-- What has been read before a line. -/
structure Before where
  /-- The line break of the line before, if there is a line before. -/
  lineBreak : List Char := []
  /-- The line breaks of empty lines since then. -/
  emptyBreaks : List Char
  /-- True when the line before begins with a blank. -/
  blank : Bool := false

/-- What stands between the line before and a line that begins with a blank or not. -/
def Before.text (fold : Bool) (before : Before) (blank : Bool) : List Char :=
  if fold && before.lineBreak = ['\n'] && !before.blank && !blank then
    if before.emptyBreaks.isEmpty then [' '] else before.emptyBreaks
  else before.lineBreak ++ before.emptyBreaks

/-- What is left of the line breaks at the end. -/
def Before.ending (before : Before) : Chomping → List Char
  | .strip => []
  | .clip => before.lineBreak
  | .keep => before.lineBreak ++ before.emptyBreaks

/-- The characters of the lines that begin in a column. `fuel` bounds the number of lines. -/
def lines? (fold : Bool) (chomping : Chomping) (column : Nat) :
    (fuel : Nat) → Before → List Cell → Option (List Char × List Cell)
  | 0, _, _ => none
  | fuel + 1, before, cells =>
    if (Cell.front cells).column = column && Cell.next cells ≠ endMark then do
      let blank := isBlank (Cell.next cells)
      let (line, rest) := Cell.span (fun c => !endsLine c) cells
      let (lineBreak, rest) :=
        if isBreak (Cell.next rest) then ([Cell.next rest], rest.drop 1) else ([], rest)
      let (emptyBreaks, _, rest) ← emptyLines? (some column) 0 rest
      let (more, rest) ← lines? fold chomping column fuel ⟨lineBreak, emptyBreaks, blank⟩ rest
      return (before.text fold blank ++ Cell.chars line ++ more, rest)
    else some (before.ending chomping, cells)

/-- Reads a scalar of lines, from after its bar or greater-than sign. The innermost collection around it
takes the columns below `margin`; one whose margin is zero is none. -/
def read? (fold : Bool) (margin : Nat) (cells : List Cell) : Option (String × List Cell) := do
  let (header, rest) ← header? cells
  let rest ← Gap.skipLine? rest
  let column? := header.indentation?.map (margin - 1 + ·)
  let (emptyBreaks, reached, rest) ← emptyLines? column? 0 rest
  let column := column?.getD (max reached (max margin 1))
  let (text, rest) ← lines? fold header.chomping column (rest.length + 1) ⟨[], emptyBreaks, false⟩ rest
  return (String.ofList text, rest)

end TripleStore.Yaml.Lines
