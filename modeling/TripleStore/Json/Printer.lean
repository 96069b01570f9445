import TripleStore.Json.Number

/-!
# Writing JSON values

The compact form has no blanks. The indented form puts every item and member on a line of its own, two
blanks further in than its brackets; an empty array or object stays on one line.
-/

namespace TripleStore.Json

/-- The characters that stand for a character inside quotes: an escape for the quote, the backslash and
the controls. -/
def escapedChar (c : Char) : List Char :=
  if c = '"' then ['\\', '"']
  else if c = '\\' then ['\\', '\\']
  else if c = '\x08' then ['\\', 'b']
  else if c = '\x0c' then ['\\', 'f']
  else if c = '\n' then ['\\', 'n']
  else if c = '\r' then ['\\', 'r']
  else if c = '\t' then ['\\', 't']
  else if c.toNat < 0x20 then
    ['\\', 'u', '0', '0', Nat.digitChar (c.toNat / 16), Nat.digitChar (c.toNat % 16)]
  else [c]

/-- A text between quotes. -/
def quoted (s : String) : String :=
  String.ofList ('"' :: (s.toList.flatMap escapedChar ++ ['"']))

mutual

/-- The compact form. -/
def compact : Json → String
  | .null => "null"
  | .bool b => if b then "true" else "false"
  | .number n => n.display
  | .string s => quoted s
  | .array items => "[" ++ ",".intercalate (compactItems items) ++ "]"
  | .object members => "\x7b" ++ ",".intercalate (compactMembers members) ++ "\x7d"

/-- The compact form of each item of an array. -/
def compactItems : List Json → List String
  | [] => []
  | item :: rest => compact item :: compactItems rest

/-- The compact form of each member of an object. -/
def compactMembers : List (String × Json) → List String
  | [] => []
  | (name, value) :: rest => (quoted name ++ ":" ++ compact value) :: compactMembers rest

end

/-- A line break and the blanks at the front of the next line. -/
def newLine (indent : Nat) : String := "".pushn ' ' (2 * indent) |> ("\n" ++ ·)

/-- Puts texts between brackets, each on a line of its own. -/
def bracketed (indent : Nat) (opening : String) (texts : List String) (closing : String) : String :=
  if texts.isEmpty then opening ++ closing
  else
    let line := newLine (indent + 1)
    opening ++ line ++ ("," ++ line).intercalate texts ++ newLine indent ++ closing

mutual

/-- The indented form, at a depth of indentation. -/
def indented (indent : Nat) : Json → String
  | .array items => bracketed indent "[" (indentedItems (indent + 1) items) "]"
  | .object members => bracketed indent "\x7b" (indentedMembers (indent + 1) members) "\x7d"
  | .null => "null"
  | .bool b => if b then "true" else "false"
  | .number n => n.display
  | .string s => quoted s

/-- The indented form of each item of an array. -/
def indentedItems (indent : Nat) : List Json → List String
  | [] => []
  | item :: rest => indented indent item :: indentedItems indent rest

/-- The indented form of each member of an object. -/
def indentedMembers (indent : Nat) : List (String × Json) → List String
  | [] => []
  | (name, value) :: rest =>
    (quoted name ++ ": " ++ indented indent value) :: indentedMembers indent rest

end

/-- The indented form of a value. -/
def pretty (j : Json) : String := indented 0 j

end TripleStore.Json
