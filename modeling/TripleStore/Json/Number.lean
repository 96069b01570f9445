import TripleStore.Decimal.Shortest
import TripleStore.Json.Basic
import TripleStore.Json.Written

/-!
# The numbers of JSON texts

How the digits of a JSON text become a number, and how a number becomes digits again.

Reading: a text without fraction and exponent is an integer if it fits 64 bits, with or without a sign;
all others, and minus zero, are floating-point. Their leading digits are gathered in an unsigned 64-bit
integer for as long as they fit, and the result is scaled by a power of ten, which rounds twice. A number
too large for a float has no value.

Writing: a float gets its shortest digits, always with a point or an exponent.
-/

namespace TripleStore.Json

namespace Number

/-! ### Reading -/

/-- Appends digits to a number for as long as it stays below `2 ^ 64`; returns the digits left over. -/
def gather (significand : Nat) : List Nat → Nat × List Nat
  | [] => (significand, [])
  | d :: rest =>
    if significand * 10 + d < UInt64.size then gather (significand * 10 + d) rest
    else (significand, d :: rest)

/-- The largest power of ten that a float holds. -/
def maxPower : Nat := 308

/-- A power of ten as a float. -/
def power (n : Nat) : Float := Float.ofScientific 1 false n

/-- Divides a float by a power of ten, in steps of the largest one. -/
def divideByPower (x : Float) (n : Nat) : Float :=
  if n ≤ maxPower then x / power n
  else if x == 0 then x
  else divideByPower (x / power maxPower) (n - maxPower)
  termination_by n
  decreasing_by simp only [maxPower] at *; omega

/-- Multiplies a float by a power of ten; no value if the result is infinite. -/
def multiplyByPower? (x : Float) (n : Nat) : Option Float :=
  if n ≤ maxPower then
    let y := x * power n
    if y.isInf then none else some y
  else if x == 0 then some x
  else none

/-- The float `significand · 10 ^ exponent`, for a significand below `2 ^ 64`. -/
def scaled? (significand : Nat) (exponent : Int) : Option Float :=
  let x := significand.toUInt64.toFloat
  match exponent with
  | .ofNat n => multiplyByPower? x n
  | .negSucc n => some (divideByPower x (n + 1))

/-- The largest exponent that is read as a number. -/
def maxExponent : Nat := 2147483647

/-- The magnitude of a number that is not an integer. An exponent beyond the largest one gives zero,
unless it is positive and the digits are not zero. -/
def magnitude? (n : Written.Number) : Option Float :=
  let (whole, left) := gather 0 n.whole
  let (significand, ignored) := gather whole n.fraction
  let exponent := (left.length : Int) - ((n.fraction.length - ignored.length : Nat) : Int)
  match n.exponent? with
  | none => scaled? significand exponent
  | some (negative, digits) =>
    let e := digits.foldl (fun e d => e * 10 + d) 0
    if e ≤ maxExponent then scaled? significand (if negative then exponent - e else exponent + e)
    else if negative ∨ significand = 0 then some 0
    else none

/-- The value of a written number. -/
def ofWritten? (n : Written.Number) : Option Number :=
  let (whole, left) := gather 0 n.whole
  let plain : Bool := n.fraction.isEmpty && n.exponent?.isNone && left.isEmpty
  if plain && !n.negative then some (.integer whole)
  else if plain && 0 < whole && Int64.minValue.toInt ≤ -(whole : Int) then some (.integer (-(whole : Int)))
  else (magnitude? n).map fun x => .decimal (if n.negative then -x else x)

/-! ### Writing -/

/-- The digits of a positive decimal: with a point and at least one digit on each side of it when it is at
least `10 ^ -5` and below `10 ^ 16`, and otherwise with one digit before the point and a signed
exponent. -/
def decimalChars (x : Decimal.Scaled) : List Char :=
  let digits := Nat.toDigits 10 x.digits
  let count : Int := digits.length
  let point := count + x.exponent
  if 0 ≤ x.exponent ∧ point ≤ 16 then
    digits ++ List.replicate x.exponent.toNat '0' ++ ['.', '0']
  else if 0 < point ∧ point ≤ 16 then
    digits.take point.toNat ++ '.' :: digits.drop point.toNat
  else if -5 < point ∧ point ≤ 0 then
    '0' :: '.' :: (List.replicate (-point).toNat '0' ++ digits)
  else
    let mark := if 0 < point then ['e', '+'] else ['e', '-']
    let tail := mark ++ Nat.toDigits 10 (point - 1).natAbs
    match digits with
    | [d] => d :: tail
    | d :: rest => d :: '.' :: (rest ++ tail)
    | [] => tail

/-- The digits of a finite float. -/
def floatChars (x : Float) : List Char :=
  let b := Decimal.Binary.ofFloat x
  let sign := if x.toBits.toNat.testBit 63 then ['-'] else []
  sign ++ if b.mantissa = 0 then ['0', '.', '0'] else decimalChars (Decimal.shortest b)

/-- The text of a number. -/
def display : Number → String
  | .integer n => toString n
  | .decimal x => String.ofList (floatChars x)

end Number

end TripleStore.Json
