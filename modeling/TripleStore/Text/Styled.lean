/-!
# Styled texts

Terminal styles: a styled text is preceded by the control sequence of its style and followed by the reset
sequence. With colours off a styled text is the text itself.
-/

namespace TripleStore.Text

/-- A style is the list of its numeric attributes, in the order in which they are written. -/
structure Style where
  /-- The attributes, from those that change the weight to those that change the colour. -/
  codes : List Nat
  deriving DecidableEq

namespace Style

/-- Bold. -/
def bold : Style := ⟨[1]⟩

/-- Faint. -/
def dimmed : Style := ⟨[2]⟩

/-- Red. -/
def red : Style := ⟨[31]⟩

/-- Green. -/
def green : Style := ⟨[32]⟩

/-- Yellow. -/
def yellow : Style := ⟨[33]⟩

/-- Bold and red. -/
def boldRed : Style := ⟨[1, 31]⟩

/-- Bold and green. -/
def boldGreen : Style := ⟨[1, 32]⟩

/-- Bold and yellow. -/
def boldYellow : Style := ⟨[1, 33]⟩

/-- Bold and cyan. -/
def boldCyan : Style := ⟨[1, 36]⟩

/-- The control sequence that turns a style on. -/
def start (style : Style) : String :=
  "\x1b[" ++ ";".intercalate (style.codes.map fun n => toString n) ++ "m"

end Style

/-- The control sequence that turns every style off. -/
def reset : String := "\x1b[0m"

/-- Writes `again` after every reset sequence in a text. -/
def restyleAfterReset (again : List Char) : List Char → List Char
  | '\x1b' :: '[' :: '0' :: 'm' :: rest => reset.toList ++ again ++ restyleAfterReset again rest
  | c :: rest => c :: restyleAfterReset again rest
  | [] => []

/-- A text in a style. The style is turned on again after every reset sequence that the text contains. -/
def styled (colour : Bool) (style : Style) (s : String) : String :=
  if colour then
    style.start ++ String.ofList (restyleAfterReset style.start.toList s.toList) ++ reset
  else s

/-- A text with blanks in front of it, at least `width` characters wide. -/
def padLeft (width : Nat) (s : String) : String := "".pushn ' ' (width - s.length) ++ s

end TripleStore.Text
