/-!
# Binary64 numbers

Floating point numbers by their 64 bits, with exact rounding: every operation
computes a ratio of natural numbers and rounds it once, to nearest with ties
to even.  A magnitude is counted in units of `2 ^ -1074`, the least positive
number.
-/

namespace InventoryGauges

/-- A binary64 number, by its bits: sign, eleven exponent bits, fraction. -/
structure Binary64 where
  /-- The 64 bits as a word. -/
  bits : UInt64
  deriving DecidableEq, Repr, Inhabited

namespace Binary64

/-- Weight of the sign bit. -/
def signWeight : Nat := Nat.pow 2 63

/-- Magnitude bits of the infinities; larger ones are not numbers. -/
def infinityMagnitude : Nat := 2047 * Nat.pow 2 52

/-- The bits below the sign. -/
def magnitude (number : Binary64) : Nat :=
  number.bits.toNat % signWeight

/-- Whether the sign bit is set. -/
def isNegative (number : Binary64) : Bool :=
  signWeight ≤ number.bits.toNat

def isNaN (number : Binary64) : Bool :=
  infinityMagnitude < number.magnitude

def isInfinite (number : Binary64) : Bool :=
  number.magnitude == infinityMagnitude

/-- The number with a sign and magnitude bits. -/
def ofMagnitude (negative : Bool) (magnitude : Nat) : Binary64 :=
  ⟨UInt64.ofNat ((if negative then signWeight else 0) + magnitude)⟩

def nan : Binary64 := ofMagnitude false (infinityMagnitude + Nat.pow 2 51)

def infinity (negative : Bool) : Binary64 := ofMagnitude negative infinityMagnitude

def zero : Binary64 := ofMagnitude false 0

/-- Exponent of a finite number: its magnitude is the mantissa times
`2 ^ exponent` units. -/
def exponent (number : Binary64) : Nat :=
  number.magnitude / Nat.pow 2 52 - 1

/-- Mantissa of a finite number, below `2 ^ 53`. -/
def mantissa (number : Binary64) : Nat :=
  number.magnitude - number.exponent * Nat.pow 2 52

/-- Magnitude of a finite number in units of `2 ^ -1074`. -/
def units (number : Binary64) : Nat :=
  number.mantissa * Nat.pow 2 number.exponent

/-- Number of units in one. -/
def unitsPerOne : Nat := Nat.pow 2 1074

/-- Divide and round to nearest, a half to the even neighbour. -/
def roundDivide (numerator denominator : Nat) : Nat :=
  let quotient := numerator / denominator
  let twice := 2 * (numerator % denominator)
  if twice < denominator || (twice == denominator && quotient % 2 == 0) then quotient
  else quotient + 1

/-- The number nearest to a ratio of units; too large a ratio gives infinity. -/
def ofUnits (negative : Bool) (numerator denominator : Nat) : Binary64 :=
  let exponent := Nat.log2 (numerator / denominator) + 1 - 53
  let mantissa := roundDivide numerator (denominator * Nat.pow 2 exponent)
  ofMagnitude negative (min (exponent * Nat.pow 2 52 + mantissa) infinityMagnitude)

/-- The number nearest to a ratio. -/
def ofRatio (negative : Bool) (numerator denominator : Nat) : Binary64 :=
  ofUnits negative (numerator * unitsPerOne) denominator

def ofNat (value : Nat) : Binary64 :=
  ofRatio false value 1

def ofInt (value : Int) : Binary64 :=
  ofRatio (value < 0) value.natAbs 1

def neg (number : Binary64) : Binary64 :=
  ofMagnitude (!number.isNegative) number.magnitude

/-- Product of numbers that are finite. -/
def mulFinite (left right : Binary64) : Binary64 :=
  ofUnits (left.isNegative != right.isNegative) (left.units * right.units) unitsPerOne

/-- Quotient of numbers that are finite, by one that is not zero. -/
def divFinite (left right : Binary64) : Binary64 :=
  ofUnits (left.isNegative != right.isNegative) (left.units * unitsPerOne) right.units

/-- Sum of numbers that are finite and not negative. -/
def addFinite (left right : Binary64) : Binary64 :=
  ofUnits false (left.units + right.units) 1

end Binary64
end InventoryGauges
