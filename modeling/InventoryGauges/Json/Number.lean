import InventoryGauges.Decimal.Digits
import InventoryGauges.Json

/-!
# Numbers in JSON texts

Whole numbers within 64 bits are integers.  Any other number is real: its
digits are kept while they fit 64 bits, and the kept number is rounded and then
multiplied or divided by a rounded power of ten.
-/

namespace InventoryGauges
namespace JsonNumber

open Decimal

/-- Largest number that digits are kept up to. -/
def keptLimit : Nat := Nat.pow 2 64

/-- Take digits onto a number while it stays below the limit.  The result is
the number, how many digits were taken, and what is left. -/
def takeDigits (kept : Nat) : List Char → Nat × Nat × List Char
  | [] => (kept, 0, [])
  | character :: text =>
      if isDigit character && 10 * kept + digitValue character < keptLimit then
        let (result, count, rest) :=
          takeDigits (10 * kept + digitValue character) text
        (result, count + 1, rest)
      else (kept, 0, character :: text)

/-- Largest exponent of a table of rounded powers of ten. -/
def powerLimit : Nat := 308

/-- A rounded power of ten. -/
def roundedPower (exponent : Nat) : Binary64 :=
  Binary64.ofNat (Nat.pow 10 exponent)

/-- Multiply or divide by a power of ten, in steps within the table.  The
result is none if it is too large. -/
def scale? : Nat → Binary64 → Int → Option Binary64
  | 0, number, _ => some number
  | fuel + 1, number, exponent =>
      if exponent.natAbs ≤ powerLimit then
        if 0 ≤ exponent then
          let product := number.mulFinite (roundedPower exponent.natAbs)
          if product.isInfinite then none else some product
        else some (number.divFinite (roundedPower exponent.natAbs))
      else if number.magnitude = 0 then some number
      else if 0 ≤ exponent then none
      else scale? fuel (number.divFinite (roundedPower powerLimit)) (exponent + powerLimit)

/-- The real number with kept digits and an exponent. -/
def real? (negative : Bool) (kept : Nat) (exponent : Int) : Option JsonNumber :=
  (scale? 4 (Binary64.ofNat kept) exponent).map fun number =>
    real (if negative then number.neg else number)

/-- Largest exponent that is read. -/
def exponentLimit : Nat := Nat.pow 2 31

/-- Read the digits of an exponent and finish the number. -/
def readExponent? (negative : Bool) (kept : Nat) (start : Int) (text : List Char) :
    Option (JsonNumber × List Char) :=
  let (falling, text) :=
    match text with
    | '+' :: rest => (false, rest)
    | '-' :: rest => (true, rest)
    | _ => (false, text)
  let (digits, rest) := spanDigits text
  if digits.isEmpty then none
  else
    let exponent := value digits
    let number :=
      if exponent < exponentLimit then
        real? negative kept (if falling then start - exponent else start + exponent)
      else if kept ≠ 0 && !falling then none
      else some (real (Binary64.ofMagnitude negative 0))
    number.map fun number => (number, rest)

/-- Finish a real number after its digits. -/
def readRealEnd? (negative : Bool) (kept : Nat) (exponent : Int) (text : List Char) :
    Option (JsonNumber × List Char) :=
  match text with
  | 'e' :: rest => readExponent? negative kept exponent rest
  | 'E' :: rest => readExponent? negative kept exponent rest
  | _ => (real? negative kept exponent).map fun number => (number, text)

/-- Read the digits after a point; those that do not fit are passed over. -/
def readFraction? (negative : Bool) (kept : Nat) (exponent : Int) (text : List Char) :
    Option (JsonNumber × List Char) :=
  if (spanDigits text).1.isEmpty then none
  else
    let (kept, count, rest) := takeDigits kept text
    readRealEnd? negative kept (exponent - count) (spanDigits rest).2

/-- Finish a number after its whole digits. -/
def readAfterWhole? (negative : Bool) (kept : Nat) (dropped : Nat) (text : List Char) :
    Option (JsonNumber × List Char) :=
  match text with
  | '.' :: rest => readFraction? negative kept dropped rest
  | 'e' :: rest => readExponent? negative kept dropped rest
  | 'E' :: rest => readExponent? negative kept dropped rest
  | _ =>
      if dropped ≠ 0 then
        (real? negative kept dropped).map fun number => (number, text)
      else if !negative then some (integer kept, text)
      else if kept = 0 || Nat.pow 2 63 < kept then
        some (real (Binary64.ofNat kept).neg, text)
      else some (integer (-kept), text)

/-- Read the digits of a number after its sign. -/
def readMagnitude? (negative : Bool) (text : List Char) :
    Option (JsonNumber × List Char) :=
  match text with
  | '0' :: rest =>
      if (spanDigits rest).1.isEmpty then readAfterWhole? negative 0 0 rest else none
  | _ =>
      if (spanDigits text).1.isEmpty then none
      else
        let (kept, _, rest) := takeDigits 0 text
        let (dropped, rest) := spanDigits rest
        readAfterWhole? negative kept dropped.length rest

/-- Read a number from the start of a text. -/
def read? : List Char → Option (JsonNumber × List Char)
  | '-' :: text => readMagnitude? true text
  | text => readMagnitude? false text

end JsonNumber
end InventoryGauges
