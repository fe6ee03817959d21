import InventoryGauges.Decimal.Digits

/-!
# Timestamps

Wall clock readings in milliseconds since the Unix epoch, as signed 64-bit
numbers.  Differences saturate at the ends of that range.
-/

namespace InventoryGauges

/-- The signed 64-bit number nearest to an integer. -/
def saturate (value : Int) : Int64 :=
  if value < Int64.minValue.toInt then Int64.minValue
  else if Int64.maxValue.toInt < value then Int64.maxValue
  else Int64.ofInt value

/-- Milliseconds since the Unix epoch. -/
structure Timestamp where
  /-- The number of milliseconds. -/
  millis : Int64
  deriving DecidableEq, Repr, Inhabited

namespace Timestamp

/-- The epoch itself, which stands for "never". -/
def epoch : Timestamp := ⟨0⟩

/-- The timestamp nearest to a number of milliseconds. -/
def ofInt (millis : Int) : Timestamp := ⟨saturate millis⟩

/-- Milliseconds since an earlier timestamp; negative if that one is later. -/
def since (now earlier : Timestamp) : Int64 :=
  saturate (now.millis.toInt - earlier.millis.toInt)

/-- The timestamp some milliseconds before. -/
def back (now : Timestamp) (millis : UInt64) : Timestamp :=
  ⟨saturate (now.millis.toInt - min (millis.toNat : Int) Int64.maxValue.toInt)⟩

/-- Text of the milliseconds. -/
def decimal (time : Timestamp) : String :=
  String.ofList (Decimal.integerText time.millis.toInt)

/-- Read the milliseconds, refusing numbers beyond 64 bits. -/
def ofDecimal? (text : List Char) : Option Timestamp :=
  (Decimal.signed? text).bind fun value =>
    if Int64.minValue.toInt ≤ value && value ≤ Int64.maxValue.toInt then
      some ⟨Int64.ofInt value⟩
    else none

end Timestamp
end InventoryGauges
