import InventoryGauges.Binary64
import InventoryGauges.Decimal.Digits

/-!
# Shortest decimals

The decimal with the fewest digits that reads back as a given binary64 number,
and of those the nearest one.  On each decimal grid only the two neighbours of
the number are tested, in exact arithmetic.
-/

namespace InventoryGauges
namespace Decimal

/-- The decimal `digits * 10 ^ exponent`. -/
structure Scaled where
  /-- Digits as one natural number. -/
  digits : Nat
  /-- Power of ten. -/
  exponent : Int
  deriving DecidableEq, Repr, Inhabited

/-- A ratio of natural numbers times a power of ten. -/
def scaleRatio (ratio : Nat × Nat) (power : Int) : Nat × Nat :=
  if 0 ≤ power then (ratio.1 * Nat.pow 10 power.toNat, ratio.2)
  else (ratio.1, ratio.2 * Nat.pow 10 (-power).toNat)

/-- Greatest power of ten that is not above a positive ratio. -/
def leadingExponent (ratio : Nat × Nat) : Int :=
  let guess : Int := (digitsOf ratio.1).length - (digitsOf ratio.2).length
  let scaled := scaleRatio ratio (-guess)
  if scaled.2 ≤ scaled.1 then guess else guess - 1

/-- The real numbers that round to a binary64 number, as four times the ratio
of the number and of the two ends. -/
structure RoundingInterval where
  /-- Common denominator. -/
  denominator : Nat
  /-- Numerator of the number itself. -/
  centre : Nat
  /-- Numerator of the lower end. -/
  lower : Nat
  /-- Numerator of the upper end. -/
  upper : Nat
  /-- Whether the ends themselves round to the number. -/
  closed : Bool

/-- The rounding interval of a positive finite number. -/
def RoundingInterval.of (number : Binary64) : RoundingInterval :=
  let mantissa := number.mantissa
  let exponent := number.exponent
  let below := if mantissa = Nat.pow 2 52 && 0 < exponent then 1 else 2
  let power := Nat.pow 2 (exponent - 1074)
  { denominator := 4 * Nat.pow 2 (1074 - exponent)
    centre := 4 * mantissa * power
    lower := (4 * mantissa - below) * power
    upper := (4 * mantissa + 2) * power
    closed := mantissa % 2 == 0 }

/-- Whether `count * 10 ^ power` lies in the interval. -/
def RoundingInterval.holds (interval : RoundingInterval) (count : Nat) (power : Int) : Bool :=
  let point := scaleRatio (count, 1) power
  let scaled := point.1 * interval.denominator
  let lower := interval.lower * point.2
  let upper := interval.upper * point.2
  if interval.closed then lower ≤ scaled && scaled ≤ upper
  else lower < scaled && scaled < upper

/-- The neighbour of the number on the grid of `10 ^ power` that lies in the
interval; of two the nearer, and of two equally near the even one. -/
def RoundingInterval.neighbour? (interval : RoundingInterval) (power : Int) : Option Nat :=
  let ratio := scaleRatio (interval.centre, interval.denominator) (-power)
  let floor := ratio.1 / ratio.2
  let twice := 2 * (ratio.1 % ratio.2)
  match interval.holds floor power && floor != 0, interval.holds (floor + 1) power with
  | true, true =>
      if twice < ratio.2 || (twice == ratio.2 && floor % 2 == 0) then some floor
      else some (floor + 1)
  | true, false => some floor
  | false, true => some (floor + 1)
  | false, false => none

/-- Remove the trailing zeros of the digits, at most `fuel` of them. -/
def Scaled.trim : Nat → Scaled → Scaled
  | 0, decimal => decimal
  | fuel + 1, decimal =>
      if decimal.digits % 10 = 0 && decimal.digits != 0 then
        Scaled.trim fuel ⟨decimal.digits / 10, decimal.exponent + 1⟩
      else decimal

/-- The decimal in the interval with so many digits after the leading one. -/
def RoundingInterval.candidate? (interval : RoundingInterval) (leading : Int) (count : Nat) :
    Option Scaled :=
  (interval.neighbour? (leading - count)).map fun digits => ⟨digits, leading - count⟩

/-- The shortest decimal of a positive finite number.  Seventeen digits always
suffice. -/
def shortest (number : Binary64) : Scaled :=
  let interval := RoundingInterval.of number
  let leading := leadingExponent (interval.centre, interval.denominator)
  ((List.range 18).findSome? (interval.candidate? leading)).elim
    ⟨interval.centre / interval.denominator, 0⟩ (Scaled.trim 18)

/-- A decimal without exponent: digits, and a point where it is needed. -/
def Scaled.positional (decimal : Scaled) : List Char :=
  let digits := digitsOf decimal.digits
  if 0 ≤ decimal.exponent then
    digits ++ List.replicate decimal.exponent.toNat '0'
  else
    let places := (-decimal.exponent).toNat
    let padded := List.replicate (places + 1 - digits.length) '0' ++ digits
    let whole := padded.length - places
    padded.take whole ++ '.' :: padded.drop whole

end Decimal
end InventoryGauges
