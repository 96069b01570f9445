import TripleStore.Json.Number

/-!
# The values of JSON texts

A JSON text has a value when its numbers and texts have values and its arrays and objects are not nested
too deep. Of the members of one name the last one counts.
-/

namespace TripleStore.Json

namespace Written

/-- The code points of the pieces of a text. Two units that form a surrogate pair give one code point; a
surrogate outside a pair has no value. -/
def characters? : List Piece → Option (List Char)
  | [] => some []
  | .char c :: rest => (characters? rest).map (c :: ·)
  | .unit high :: .unit low :: rest =>
    if 0xd800 ≤ high ∧ high < 0xdc00 ∧ 0xdc00 ≤ low ∧ low < 0xe000 then
      (characters? rest).map (Char.ofNat (0x10000 + (high - 0xd800) * 0x400 + (low - 0xdc00)) :: ·)
    else if 0xd800 ≤ high ∧ high < 0xe000 then none
    else (characters? (.unit low :: rest)).map (Char.ofNat high :: ·)
  | .unit code :: rest =>
    if 0xd800 ≤ code ∧ code < 0xe000 then none
    else (characters? rest).map (Char.ofNat code :: ·)

/-- The text of the pieces. -/
def text? (pieces : List Piece) : Option String := (characters? pieces).map String.ofList

/-- How deep arrays and objects may be nested in a text. -/
def maxNesting : Nat := 127

mutual

/-- The value of a written value whose arrays and objects may be nested `room` deep. -/
def json? (room : Nat) : Written → Option Json
  | .null => some .null
  | .bool b => some (.bool b)
  | .number n => (Number.ofWritten? n).map .number
  | .string pieces => (text? pieces).map .string
  | .array items => if room = 0 then none else (jsons? (room - 1) items).map .array
  | .object members => if room = 0 then none else (fields? (room - 1) members).map .ofFields

/-- The values of a list of written values. -/
def jsons? (room : Nat) : List Written → Option (List Json)
  | [] => some []
  | w :: rest => do
    let item ← json? room w
    let items ← jsons? room rest
    return item :: items

/-- The names and values of written members. -/
def fields? (room : Nat) : List (List Piece × Written) → Option (List (String × Json))
  | [] => some []
  | (pieces, w) :: rest => do
    let name ← text? pieces
    let value ← json? room w
    let members ← fields? room rest
    return (name, value) :: members

end

end Written

/-- The value of a JSON text. -/
def ofText? (text : String) : Option Json :=
  (Written.ofText? text).bind (Written.json? Written.maxNesting)

end TripleStore.Json
