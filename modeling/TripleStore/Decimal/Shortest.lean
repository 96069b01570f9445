/-!
# Shortest decimals of binary numbers

A binary floating-point number stands for all reals that round to it. Among the decimals in that interval
this module picks one on the coarsest grid of powers of ten that has a point there, so one with the fewest
digits; of two such neighbours it picks the nearer, and of two equally near the even one. All arithmetic
is on natural numbers.
-/

namespace TripleStore.Decimal

/-- A positive binary number `mantissa · 2 ^ exponent`. -/
structure Binary where
  /-- The mantissa, below `2 ^ 53`. -/
  mantissa : Nat
  /-- The power of two. -/
  exponent : Int
  /-- True when the next smaller binary number is only half as far away as the next larger one. -/
  closeBelow : Bool
  deriving DecidableEq

/-- The binary number of a finite float without its sign. -/
def Binary.ofFloat (x : Float) : Binary :=
  let fraction := (x.toBits &&& 0x000fffffffffffff).toNat
  let field := ((x.toBits >>> 52) &&& 0x7ff).toNat
  if field = 0 then ⟨fraction, -1074, false⟩
  else ⟨(1 <<< 52) + fraction, Int.ofNat field - 1075, fraction = 0 ∧ 1 < field⟩

/-- A positive decimal `digits · 10 ^ exponent`. -/
structure Scaled where
  /-- The digits as one number. -/
  digits : Nat
  /-- The power of ten. -/
  exponent : Int
  deriving DecidableEq, Inhabited

/-- The point of the grid of multiples of `10 ^ exponent` that is nearest to a binary number, if it rounds
to that number. The value and the ends of its interval are taken as multiples of a quarter of the last
mantissa place; the ends belong to the interval when the mantissa is even. -/
def onGrid? (b : Binary) (exponent : Int) : Option Scaled :=
  let place := b.exponent - 2
  let scale := Nat.pow 2 place.toNat * Nat.pow 10 (-exponent).toNat
  let grid := Nat.pow 2 (-place).toNat * Nat.pow 10 exponent.toNat
  let value := 4 * b.mantissa * scale
  let low := (4 * b.mantissa - if b.closeBelow then 1 else 2) * scale
  let high := (4 * b.mantissa + 2) * scale
  let rounds (d : Nat) : Bool :=
    if b.mantissa % 2 = 0 then low ≤ d * grid ∧ d * grid ≤ high
    else low < d * grid ∧ d * grid < high
  let below := value / grid
  let above := below + 1
  let fromBelow := value - below * grid
  let fromAbove := above * grid - value
  let preferBelow : Bool :=
    fromBelow < fromAbove ∨ (fromBelow = fromAbove ∧ below % 2 = 0)
  if rounds below && (preferBelow || !rounds above) then some ⟨below, exponent⟩
  else if rounds above then some ⟨above, exponent⟩
  else none

/-- The decimal with the fewest digits that rounds to a positive binary number. Grids are tried from
coarse to fine; the finest is finer than every binary number of 64 bits. -/
def shortest (b : Binary) : Scaled :=
  ((List.range 660).findSome? fun n => onGrid? b (310 - Int.ofNat n)).getD ⟨0, 0⟩

end TripleStore.Decimal
