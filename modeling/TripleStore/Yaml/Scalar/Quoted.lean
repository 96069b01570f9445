import TripleStore.Yaml.Gap

/-!
# Quoted scalars

A quoted scalar ends with its quote and may go over several lines. In single quotes a quote is written
twice. In double quotes there are escapes, and a backslash at the end of a line joins the lines.
-/

namespace TripleStore.Yaml.Quoted

/-- How a word of a quoted scalar ends. -/
inductive Ending where
  /-- Before the closing quote, a blank or a line break. -/
  | here
  /-- After a line break that was escaped. -/
  | joined
  deriving DecidableEq

/-- The characters of a word in single quotes. -/
def singleWord : List Cell → List Char × List Cell
  | a :: b :: rest =>
    if a.char = '\'' && b.char = '\'' then
      let (word, rest) := singleWord rest
      ('\'' :: word, rest)
    else if a.char = '\'' || endsWord a.char then ([], a :: b :: rest)
    else
      let (word, rest) := singleWord (b :: rest)
      (a.char :: word, rest)
  | cells => ([], cells)

/-- The character of an escape of one letter. -/
def escape? : Char → Option Char
  | '0' => some '\x00'
  | 'a' => some '\x07'
  | 'b' => some '\x08'
  | 't' => some '\t'
  | '\t' => some '\t'
  | 'n' => some '\n'
  | 'v' => some '\x0b'
  | 'f' => some '\x0c'
  | 'r' => some '\r'
  | 'e' => some '\x1b'
  | ' ' => some ' '
  | '"' => some '"'
  | '/' => some '/'
  | '\\' => some '\\'
  | 'N' => some '\u0085'
  | '_' => some '\u00a0'
  | 'L' => some '\u2028'
  | 'P' => some '\u2029'
  | _ => none

/-- The number of digits of an escape by code point. -/
def codeLength? : Char → Option Nat
  | 'x' => some 2
  | 'u' => some 4
  | 'U' => some 8
  | _ => none

/-- The character with the code point that is written in base sixteen. -/
def codePoint? (digits : List Char) : Option Char := do
  let code ← digits? 16 digits
  if code.isValidChar then some (Char.ofNat code) else none

/-- The character of an escape that begins with a letter, and what follows. -/
def escaped? (letter : Char) (rest : List Cell) : Option (Char × List Cell) :=
  match codeLength? letter with
  | some n => (codePoint? (Cell.chars (rest.take n))).map fun c => (c, rest.drop n)
  | none => (escape? letter).map fun c => (c, rest)

/-- The characters of a word in double quotes; `fuel` bounds their number. -/
def doubleWord? : (fuel : Nat) → List Cell → Option (List Char × Ending × List Cell)
  | 0, _ => none
  | fuel + 1, cells =>
    match cells with
    | [] => some ([], .here, [])
    | cell :: rest =>
      if cell.char = '"' || endsWord cell.char then some ([], .here, cell :: rest)
      else if cell.char = '\\' then
        if isBreak (Cell.next rest) then some ([], .joined, rest.drop 1)
        else do
          let (c, rest) ← escaped? (Cell.next rest) (rest.drop 1)
          let (word, rest) ← doubleWord? fuel rest
          return (c :: word, rest)
      else (doubleWord? fuel rest).map fun (word, rest) => (cell.char :: word, rest)

/-- The characters of a word of a scalar in the given quotes. -/
def word? (quote : Char) (cells : List Cell) : Option (List Char × Ending × List Cell) :=
  if quote = '"' then doubleWord? (cells.length + 1) cells
  else
    let (word, rest) := singleWord cells
    some (word, .here, rest)

/-- The characters up to the closing quote and what follows it. No line begins with a word that stands
between documents. `fuel` bounds the number of words. -/
def words? (quote : Char) : (fuel : Nat) → List Cell → Option (List Char × List Cell)
  | 0, _ => none
  | fuel + 1, cells =>
    if Cell.atBoundary cells || Cell.next cells = endMark then none
    else do
      let (word, ending, rest) ← word? quote cells
      if Cell.next rest = quote then return (word, rest.drop 1)
      else
        let (gap, rest) := Cell.span isGap rest
        let blank := match ending with
          | .here => Gap.text gap
          | .joined => (Cell.chars gap).filter isBreak
        let (more, rest) ← words? quote fuel rest
        return (word ++ blank ++ more, rest)

/-- Reads a scalar in the given quotes, from after its opening quote. -/
def read? (quote : Char) (cells : List Cell) : Option (String × List Cell) :=
  (words? quote (cells.length + 1) cells).map fun (text, rest) => (String.ofList text, rest)

end TripleStore.Yaml.Quoted
