import InventoryGauges.Duration
import InventoryGauges.Metric
import InventoryGauges.Text.Map
import InventoryGauges.Timestamp

/-!
# When metrics are due

A metric is due when it was never processed or its interval has passed since
its marker.  A failed pass leaves a marker in the past, such that the metric is
due again after a backoff, but no later than after its interval.
-/

namespace InventoryGauges

/-- How the poller paces itself. -/
structure Schedule where
  /-- Pause before each cycle. -/
  debounce : Duration
  /-- Pause between attempts to log in. -/
  sessionRetry : Duration
  /-- Longest time a pass may take. -/
  sampleTimeout : Duration
  /-- Pause after a failed pass. -/
  failureBackoff : Duration
  /-- Most gateway calls in flight at once in a pass. -/
  pushConcurrency : Nat
  deriving DecidableEq, Repr

namespace Schedule

/-- The pacing without other settings. -/
def standard : Schedule :=
  { debounce := Duration.ofMillis 500
    sessionRetry := Duration.ofSeconds 1
    sampleTimeout := Duration.ofSeconds 60
    failureBackoff := Duration.ofSeconds 5
    pushConcurrency := 8 }

instance : Inhabited Schedule := ⟨standard⟩

/-- Greatest interval that is told apart from longer ones. -/
def longestInterval : UInt64 := UInt64.ofNat (Nat.pow 2 63 - 1)

/-- Whether an interval has passed since a marker. -/
def isDue (last : Timestamp) (interval : UInt64) (now : Timestamp) : Bool :=
  last == Timestamp.epoch ||
    decide (((if interval ≤ longestInterval then interval else longestInterval).toNat : Int) ≤
      (now.since last).toInt)

/-- The definitions that are due, in their order.  A name without a marker is
due. -/
def dueMetrics (metrics : List Metric) (last : Text.Map Timestamp) (now : Timestamp) :
    List Metric :=
  metrics.filter fun metric =>
    isDue ((last.get? metric.name).getD Timestamp.epoch) metric.interval now

/-- The marker of a pass that failed.  The backoff counts in whole
milliseconds, as an unsigned 64-bit number. -/
def failureMarker (now : Timestamp) (interval : UInt64) (backoff : Duration) : Timestamp :=
  let backoffMillis := UInt64.ofNat backoff.millis
  let pause := if backoffMillis ≤ interval then backoffMillis else interval
  now.back (interval - pause)

end Schedule
end InventoryGauges
