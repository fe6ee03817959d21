import InventoryGauges.Binary64
import InventoryGauges.Decimal.Digits

/-!
# Reading decimals

Texts of real numbers: an optional sign, digits with at most one point and at
least one digit, an optional exponent; or one of the words `inf`, `infinity`
and `nan` in any case.  The result is the nearest binary64 number.
-/

namespace InventoryGauges
namespace Decimal

/-- The binary64 number nearest to `digits * 10 ^ exponent`.  Outside a range
that covers every finite number the result is infinity or zero at once. -/
def nearest (negative : Bool) (digits : Nat) (exponent : Int) : Binary64 :=
  if digits = 0 then Binary64.ofMagnitude negative 0
  else
    let leading := exponent + (digitsOf digits).length
    if 400 < leading then Binary64.infinity negative
    else if leading < -400 then Binary64.ofMagnitude negative 0
    else if 0 ≤ exponent then Binary64.ofRatio negative (digits * Nat.pow 10 exponent.toNat) 1
    else Binary64.ofRatio negative digits (Nat.pow 10 (-exponent).toNat)

/-- Read the exponent part that ends a number. -/
def exponentPart? : List Char → Option Int
  | [] => some 0
  | 'e' :: text => signed? text
  | 'E' :: text => signed? text
  | _ => none

/-- Read an unsigned number. -/
def unsigned? (negative : Bool) (text : List Char) : Option Binary64 :=
  let (whole, rest) := spanDigits text
  let (fraction, rest) :=
    match rest with
    | '.' :: after => spanDigits after
    | _ => ([], rest)
  if whole.isEmpty && fraction.isEmpty then none
  else
    (exponentPart? rest).map fun exponent =>
      nearest negative (value (whole ++ fraction)) (exponent - fraction.length)

/-- Read an unsigned number or one of the words. -/
def magnitude? (negative : Bool) (text : List Char) : Option Binary64 :=
  match String.ofList (text.map Char.toLower) with
  | "inf" | "infinity" => some (Binary64.infinity negative)
  | "nan" => some Binary64.nan
  | _ => unsigned? negative text

/-- Read a real number. -/
def real? : List Char → Option Binary64
  | '-' :: text => magnitude? true text
  | '+' :: text => magnitude? false text
  | text => magnitude? false text

end Decimal
end InventoryGauges
