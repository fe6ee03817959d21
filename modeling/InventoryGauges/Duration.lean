import InventoryGauges.Binary64

/-!
# Durations

Lengths of time in whole nanoseconds.
-/

namespace InventoryGauges

/-- A length of time. -/
structure Duration where
  /-- Number of nanoseconds. -/
  nanos : Nat
  deriving DecidableEq, Repr, Inhabited

namespace Duration

def nanosPerMilli : Nat := 1000000

def nanosPerSecond : Nat := 1000000000

def ofMillis (millis : Nat) : Duration := ⟨millis * nanosPerMilli⟩

def ofSeconds (seconds : Nat) : Duration := ⟨seconds * nanosPerSecond⟩

/-- Whole milliseconds. -/
def millis (duration : Duration) : Nat :=
  duration.nanos / nanosPerMilli

/-- Seconds as a binary64 number: whole seconds and the rest are rounded
separately and then added. -/
def seconds (duration : Duration) : Binary64 :=
  (Binary64.ofNat (duration.nanos / nanosPerSecond)).addFinite
    ((Binary64.ofNat (duration.nanos % nanosPerSecond)).divFinite
      (Binary64.ofNat nanosPerSecond))

end Duration
end InventoryGauges
