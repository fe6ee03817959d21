/-!
# Decimal digits

Reading and writing natural numbers in base ten.
-/

namespace InventoryGauges
namespace Decimal

/-- Whether a character is a decimal digit. -/
def isDigit (character : Char) : Bool :=
  '0' ≤ character && character ≤ '9'

/-- Value of a decimal digit. -/
def digitValue (character : Char) : Nat :=
  character.toNat - '0'.toNat

/-- Value of a run of digits that follows a number. -/
def valueFrom (start : Nat) (digits : List Char) : Nat :=
  digits.foldl (fun value digit => 10 * value + digitValue digit) start

/-- Value of a run of digits. -/
def value (digits : List Char) : Nat :=
  valueFrom 0 digits

/-- Digits of a natural number, without leading zeros. -/
def digitsOf (number : Nat) : List Char :=
  Nat.toDigits 10 number

/-- Split a text after its leading digits. -/
def spanDigits (text : List Char) : List Char × List Char :=
  (text.takeWhile isDigit, text.dropWhile isDigit)

/-- Read a text that consists of digits only, at least one. -/
def natural? (text : List Char) : Option Nat :=
  if text.isEmpty || text.any (!isDigit ·) then none else some (value text)

/-- Read a number without sign and leading zeros. -/
def index? (text : List Char) : Option Nat :=
  if text.head? == some '0' && 1 < text.length then none else natural? text

/-- Read digits after at most one sign. -/
def signed? : List Char → Option Int
  | '-' :: digits => (natural? digits).map fun number => -(number : Int)
  | '+' :: digits => (natural? digits).map fun number => (number : Int)
  | digits => (natural? digits).map fun number => (number : Int)

/-- Text of an integer, with a minus sign if it is negative. -/
def integerText (number : Int) : List Char :=
  if number < 0 then '-' :: digitsOf number.natAbs else digitsOf number.natAbs

/-- Digits of a number, with leading zeros up to a width. -/
def paddedDigits (width number : Nat) : List Char :=
  let digits := digitsOf number
  List.replicate (width - digits.length) '0' ++ digits

end Decimal
end InventoryGauges
