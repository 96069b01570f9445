/-!
# Characters of a YAML text with their places

What a character of a YAML text means depends on its line and column. A text is therefore read as a list of
cells: each character with its place. The list ends with a cell for the end of the text, whose character
occurs in no text, so that the end has a place as well.
-/

namespace TripleStore.Yaml

/-! ### Classes of characters -/

/-- The character of the cell at the end of a text. -/
def endMark : Char := '\x00'

/-- Blanks within a line. -/
def isBlank (c : Char) : Bool := c = ' ' || c = '\t'

/-- Line breaks, once those that are the same as a line feed are written as one. -/
def isBreak (c : Char) : Bool := c = '\n' || c = '\u2028' || c = '\u2029'

/-- Blanks and line breaks. -/
def isGap (c : Char) : Bool := isBlank c || isBreak c

/-- True at the end of a line. -/
def endsLine (c : Char) : Bool := isBreak c || c = endMark

/-- True at the end of a word. -/
def endsWord (c : Char) : Bool := isGap c || c = endMark

/-- The comma and the brackets, which structure what is written in brackets. -/
def isFlowMark (c : Char) : Bool := c = ',' || c = '[' || c = ']' || c = '\x7b' || c = '\x7d'

/-- Letters, digits, the low line and the hyphen, of which names are made. -/
def isNameChar (c : Char) : Bool := c.isAlphanum || c = '_' || c = '-'

/-- The value of a digit in the given base. -/
def digit? (base : Nat) (c : Char) : Option Nat :=
  let value? :=
    if '0' ≤ c ∧ c ≤ '9' then some (c.toNat - '0'.toNat)
    else if 'a' ≤ c ∧ c ≤ 'z' then some (c.toNat - 'a'.toNat + 10)
    else if 'A' ≤ c ∧ c ≤ 'Z' then some (c.toNat - 'A'.toNat + 10)
    else none
  value?.filter (· < base)

/-- The number of a list of digits; at least one digit is needed. -/
def digits? (base : Nat) (cs : List Char) : Option Nat :=
  if cs.isEmpty then none
  else cs.foldlM (fun n c => (digit? base c).map fun d => n * base + d) 0

/-! ### Places -/

/-- The place of a character in a text. -/
structure Place where
  /-- The number of bytes before the character. -/
  offset : Nat := 0
  /-- The number of lines before the line of the character. -/
  line : Nat := 0
  /-- The number of characters before the character in its line. -/
  column : Nat := 0
  deriving DecidableEq, Inhabited

/-- The place after a character. -/
def Place.after (c : Char) (p : Place) : Place :=
  let offset := p.offset + c.utf8Size
  if isBreak c then ⟨offset, p.line + 1, 0⟩ else ⟨offset, p.line, p.column + 1⟩

/-- A character with its place. -/
structure Cell where
  /-- The character. -/
  char : Char
  /-- Where it stands. -/
  place : Place
  deriving DecidableEq, Inhabited

namespace Cell

/-- The cells of characters from a place on, with the cell for the end. -/
def placed (p : Place) : List Char → List Cell
  | [] => [⟨endMark, p⟩]
  | c :: rest => ⟨c, p⟩ :: placed (p.after c) rest

/-- Characters that a text may hold. -/
def isAllowed (c : Char) : Bool :=
  c = '\n' || c = '\r' || c = '\t' || (0x20 ≤ c.toNat && c.toNat ≤ 0x7e) || c.toNat = 0x85 ||
    (0xa0 ≤ c.toNat && c.toNat ≤ 0xfffd) || 0x10000 ≤ c.toNat

/-- Writes a carriage return, with or without a line feed after it, and the next-line character as line
feeds. -/
def unifyBreaks : List Char → List Char
  | '\r' :: '\n' :: rest => '\n' :: unifyBreaks rest
  | c :: rest => (if c = '\r' || c = '\u0085' then '\n' else c) :: unifyBreaks rest
  | [] => []

/-- The cells of a text, if it holds allowed characters only. -/
def ofText? (text : String) : Option (List Cell) :=
  if text.toList.all isAllowed then some (placed {} (unifyBreaks text.toList)) else none

/-- The characters of some cells. -/
def chars (cells : List Cell) : List Char := cells.map char

/-- The cells of some characters hold these characters and the one for the end. -/
theorem chars_placed (p : Place) (cs : List Char) : chars (placed p cs) = cs ++ [endMark] := by
  induction cs generalizing p with
  | nil => rfl
  | cons c rest ih => exact congrArg (c :: ·) (ih (p.after c))

/-- The character at the front. -/
def next (cells : List Cell) : Char := (cells.head?.map char).getD endMark

/-- The place of the front. -/
def front (cells : List Cell) : Place := (cells.head?.map place).getD {}

/-- The cells at the front whose characters are of a class, and the other ones. -/
def span (isMember : Char → Bool) (cells : List Cell) : List Cell × List Cell :=
  (cells.takeWhile fun cell => isMember cell.char, cells.dropWhile fun cell => isMember cell.char)

/-- Nothing is lost by a split. -/
theorem span_append (isMember : Char → Bool) (cells : List Cell) :
    (span isMember cells).1 ++ (span isMember cells).2 = cells :=
  List.takeWhile_append_dropWhile

/-- Drops the cells at the front whose characters are of a class. -/
def skip (isMember : Char → Bool) (cells : List Cell) : List Cell :=
  cells.dropWhile fun cell => isMember cell.char

/-- True where a line begins with the given character three times and the word ends there: such words
stand between documents. -/
def isMarker (mark : Char) (cells : List Cell) : Bool :=
  (front cells).column = 0 && chars (cells.take 3) = [mark, mark, mark] && endsWord (next (cells.drop 3))

/-- True before a word that stands between documents. -/
def atBoundary (cells : List Cell) : Bool := isMarker '-' cells || isMarker '.' cells

end Cell

end TripleStore.Yaml
