import TripleStore.Term.Basic
import TripleStore.Text.Quoted

/-!
# The text of a term

Variables are written `_G0`, `_G1`, …; texts in quotes; integers and truth values plainly; sequences in
brackets, with a comma and a blank between the items.
-/

namespace TripleStore

/-- The decimal digits of an integer, after a minus sign if it is negative. -/
def integerChars : Int → List Char
  | .ofNat n => Nat.toDigits 10 n
  | .negSucc n => '-' :: Nat.toDigits 10 (n + 1)

/-- Writes texts one after the other with a comma and a blank between them. -/
def commaSeparated : List (List Char) → List Char
  | [] => []
  | [x] => x
  | x :: y :: rest => x ++ ',' :: ' ' :: commaSeparated (y :: rest)

namespace Term

mutual

/-- The characters of a term's text. -/
def displayChars : Term → List Char
  | .var v => '_' :: 'G' :: Nat.toDigits 10 v
  | .str s => Text.quotedChars s.toList
  | .int n => integerChars n.toInt
  | .bool true => ['t', 'r', 'u', 'e']
  | .bool false => ['f', 'a', 'l', 's', 'e']
  | .compound items => '[' :: (commaSeparated (displayEach items) ++ [']'])

/-- The characters of the text of each term of a list. -/
def displayEach : List Term → List (List Char)
  | [] => []
  | t :: ts => displayChars t :: displayEach ts

end

/-- The text of a term. -/
def display (t : Term) : String := String.ofList t.displayChars

/-- The texts of a list of terms, separated by commas. -/
def displayList (ts : List Term) : String := String.ofList (commaSeparated (displayEach ts))

end Term

/-- The text of a triple: its positions in parentheses. -/
def Triple.display (t : Triple) : String := "(" ++ Term.displayList t.toList ++ ")"

end TripleStore
