import TripleStore.Text.Printable

/-!
# Quoted texts

A text is written between double quotes. The quote, the backslash, line feed, carriage return, tab and the
null character have escapes of two characters; a character that would not be visible by itself is written
by its code point, as in `\u{301}`; every other character stands for itself.
-/

namespace TripleStore.Text

/-- The escape `\u{…}` of a character, with its code point in lower-case hexadecimal digits. -/
def codeEscape (c : Char) : List Char := ['\\', 'u', '\x7b'] ++ Nat.toDigits 16 c.toNat ++ ['\x7d']

/-- True for characters that are visible by themselves. -/
def isVisible (c : Char) : Bool :=
  if c.toNat < 0x7f then 0x20 ≤ c.toNat else !(isExtender c || isUnprintable c)

/-- The written form of a character inside quotes. -/
def quotedChar (c : Char) : List Char :=
  if c = '"' then ['\\', '"']
  else if c = '\\' then ['\\', '\\']
  else if c = '\n' then ['\\', 'n']
  else if c = '\r' then ['\\', 'r']
  else if c = '\t' then ['\\', 't']
  else if c = '\x00' then ['\\', '0']
  else if isVisible c then [c]
  else codeEscape c

/-- The written form of a text: its characters between quotes. -/
def quotedChars (cs : List Char) : List Char := '"' :: (cs.flatMap quotedChar ++ ['"'])

/-- The written form of a text. -/
def quoted (s : String) : String := String.ofList (quotedChars s.toList)

end TripleStore.Text
