import InventoryGauges.Duration
import InventoryGauges.Exposition

/-!
# Statistics of the poller

Counters about the poller's own work and a histogram of cycle durations, with
their exposition.
-/

namespace InventoryGauges

/-- How a pass ended. -/
inductive Outcome
  | success
  | failure
  | timeout
  | panic
  deriving DecidableEq, Repr

namespace Outcome

/-- The label of an outcome. -/
def label : Outcome → String
  | success => "success"
  | failure => "failure"
  | timeout => "timeout"
  | panic => "panic"

/-- All outcomes in the order of their labels. -/
def all : List Outcome := [failure, panic, success, timeout]

end Outcome

/-- What is counted. -/
inductive Counter
  | gaugesPushed
  | gaugesDeleted
  | pushFailures
  | deleteFailures
  | sessionAttempts
  | metricsReaped
  | samples (outcome : Outcome)
  | cycles
  deriving DecidableEq, Repr

/-- The counts of one run of the poller. -/
structure Statistics where
  /-- Value of a counter; none if it was never raised. -/
  count? : Counter → Option Nat
  /-- Observed durations of cycles. -/
  observed : Nat
  /-- Cycles no longer than each bound, bound by bound. -/
  buckets : List Nat
  /-- Sum of the durations in seconds. -/
  totalSeconds : Binary64

namespace Statistics

/-- Bounds of the histogram in hundredths of a second. -/
def bounds : List Nat := [1, 5, 10, 25, 50, 100, 250, 500, 1000, 3000, 6000]

/-- A bound in seconds. -/
def boundSeconds (bound : Nat) : Binary64 :=
  Binary64.ofRatio false bound 100

/-- Counts before anything happened. -/
def initial : Statistics :=
  { count? := fun _ => none
    observed := 0
    buckets := bounds.map fun _ => 0
    totalSeconds := Binary64.zero }

instance : Inhabited Statistics := ⟨initial⟩

/-- Value of a counter. -/
def count (statistics : Statistics) (counter : Counter) : Nat :=
  (statistics.count? counter).getD 0

/-- Raise a counter. -/
def raise (statistics : Statistics) (counter : Counter) (amount : Nat) : Statistics :=
  { statistics with
    count? := fun other =>
      if other = counter then some (statistics.count counter + amount)
      else statistics.count? other }

/-- Cycles that were counted. -/
def cycles (statistics : Statistics) : Nat :=
  statistics.count .cycles

/-- Count a cycle and its duration. -/
def observeCycle (statistics : Statistics) (duration : Duration) : Statistics :=
  let seconds := duration.seconds
  { statistics.raise .cycles 1 with
    observed := statistics.observed + 1
    buckets := (bounds.zip statistics.buckets).map fun (bound, count) =>
      if seconds.units ≤ (boundSeconds bound).units then count + 1 else count
    totalSeconds := statistics.totalSeconds.addFinite seconds }

@[simp] theorem count_raise (statistics : Statistics) (counter other : Counter)
    (amount : Nat) :
    (statistics.raise counter amount).count other =
      if other = counter then statistics.count counter + amount
      else statistics.count other := by
  unfold count raise
  by_cases same : other = counter <;> simp [same, count]

/-- Start of all names. -/
def nameStart : String := "aci_poller_"

/-- A family with a single sample. -/
def single (name help : String) (value : Nat) : Exposition.Family :=
  { name := nameStart ++ name
    help
    kind := .counter
    lines := [⟨"", [], Binary64.ofNat value⟩] }

/-- The histogram of cycle durations. -/
def durations (statistics : Statistics) : Exposition.Family :=
  let bucket (bound : String) (count : Nat) : Exposition.Line :=
    ⟨"_bucket", [("le", bound)], Binary64.ofNat count⟩
  { name := nameStart ++ "cycle_duration_seconds"
    help := "Duration of a poll cycle"
    kind := .histogram
    lines :=
      ((bounds.zip statistics.buckets).map fun (bound, count) =>
        bucket (String.ofList (Exposition.valueText (boundSeconds bound))) count) ++
      [bucket "+Inf" statistics.observed,
        ⟨"_sum", [], statistics.totalSeconds⟩,
        ⟨"_count", [], Binary64.ofNat statistics.observed⟩] }

/-- Passes by outcome; only outcomes that occurred are shown. -/
def samples (statistics : Statistics) : Exposition.Family :=
  { name := nameStart ++ "samples_total"
    help := "Sampling passes by outcome"
    kind := .counter
    lines := Outcome.all.filterMap fun outcome =>
      (statistics.count? (.samples outcome)).map fun value =>
        ⟨"", [("outcome", outcome.label)], Binary64.ofNat value⟩ }

/-- All families in the order of their names. -/
def families (statistics : Statistics) : List Exposition.Family :=
  [statistics.durations,
    single "cycles_total" "Poll cycles run" statistics.cycles,
    single "delete_failures_total" "Gauge deletions that failed"
      (statistics.count .deleteFailures),
    single "gauges_deleted_total" "Gauges deleted from the gateway"
      (statistics.count .gaugesDeleted),
    single "gauges_pushed_total" "Gauges pushed to the gateway"
      (statistics.count .gaugesPushed),
    single "metrics_reaped_total" "Removed metrics cleaned up"
      (statistics.count .metricsReaped),
    single "push_failures_total" "Gauge pushes that failed"
      (statistics.count .pushFailures),
    statistics.samples,
    single "session_attempts_total" "Inventory login attempts"
      (statistics.count .sessionAttempts)]

/-- The exposition of all counts. -/
def render (statistics : Statistics) : String :=
  Exposition.render statistics.families

end Statistics
end InventoryGauges
