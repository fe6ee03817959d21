import InventoryGauges.Schedule
import InventoryGauges.Store.Bookkeeping
import InventoryGauges.Work

/-!
# Sampling passes

A pass of a metric queries the inventory, publishes a gauge for each sample,
marks the metric as processed and withdraws the gauges of objects that are no
longer there.  If the inventory gives no samples, nothing is published, all
gauges of the metric are withdrawn and the marker lets the metric be due again
after a backoff.
-/

namespace InventoryGauges
namespace Sampling

/-- Why a pass failed. -/
inductive Error
  | inventory (error : Inventory.Error)
  | extraction (error : Inventory.ExtractionError)
  deriving DecidableEq, Repr

namespace Error

/-- The error in words. -/
def message : Error → String
  | inventory error => error.message
  | extraction error => error.message

end Error

/-- What a pass did. -/
structure Report where
  /-- Objects that were sampled. -/
  objects : Nat
  /-- Gauges published. -/
  pushed : Nat
  /-- Gauges that the gateway did not take. -/
  pushFailures : Nat
  /-- Gauges of vanished objects that were withdrawn. -/
  obsoleteDeleted : Nat
  /-- Gauges of vanished objects that are kept for the next pass. -/
  obsoleteFailed : Nat
  /-- Whether the identities of the published gauges were written. -/
  relatedIdsSaved : Bool
  deriving DecidableEq, Repr

/-- Withdraw gauges.  The result holds those that were refused. -/
def withdraw (limit : Nat) (ids : List String) : Work (List String) := do
  let ended ← Work.gateway limit (ids.map .delete)
  let refused := ended.filterMap fun
    | (.delete id, .error _) => some id
    | _ => none
  Work.count .gaugesDeleted (ended.length - refused.length)
  Work.count .deleteFailures refused.length
  return refused

/-- Publish samples.  The result is the number of those that were refused. -/
def publish (limit : Nat) (samples : List Gauge.Sample) : Work Nat := do
  let ended ← Work.gateway limit (samples.map .push)
  let refused := (ended.filter fun call => !call.2.isAccepted).length
  Work.count .gaugesPushed (ended.length - refused)
  Work.count .pushFailures refused
  return refused

/-- Query the inventory and extract the samples. -/
def collect (metric : Metric) : Work (Except Error (List Gauge.Sample)) := do
  match ← Work.query metric.className metric.queryFilter with
  | .error error => return .error (.inventory error)
  | .ok objects => return (Inventory.extract metric objects).mapError .extraction

/-- Withdraw all gauges that are known to be published for a metric, as far as
possible. -/
def withdrawPublished (schedule : Schedule) (metric : Metric) : Work Unit := do
  match ← Work.access (Store.relatedIds metric.name) with
  | .error _ => return ()
  | .ok ids =>
      let _ ← withdraw schedule.pushConcurrency ids.toList

/-- Mark a metric such that it is due again after the backoff. -/
def recordFailure (schedule : Schedule) (metric : Metric) : Work Unit := do
  let now ← Work.clock
  let marker := Schedule.failureMarker now metric.interval schedule.failureBackoff
  let _ ← Work.access (Store.markProcessed metric.name marker)

/-- Clean up after a pass without samples. -/
def giveUp (schedule : Schedule) (metric : Metric) : Work Unit := do
  withdrawPublished schedule metric
  recordFailure schedule metric

/-- What reconciling adds to the report. -/
structure Reconciliation where
  obsoleteDeleted : Nat
  obsoleteFailed : Nat
  relatedIdsSaved : Bool
  deriving DecidableEq, Repr

/-- Withdraw the gauges that are no longer produced and store the identities of
those that are.  Gauges that were not withdrawn stay in the store, so that the
next pass finds them. -/
def reconcile (schedule : Schedule) (metric : Metric) (current : Text.Set) :
    Work Reconciliation := do
  match ← Work.access (Store.relatedIds metric.name) with
  | .error _ => return ⟨0, 0, false⟩
  | .ok previous =>
      let obsolete := (previous.diff current).toList
      let undeleted ← withdraw schedule.pushConcurrency obsolete
      let next := current.insertAll undeleted
      let deleted := obsolete.length - undeleted.length
      if next = previous then
        return ⟨deleted, undeleted.length, false⟩
      else
        let saved ← Work.access (Store.saveRelatedIds metric.name next)
        return ⟨deleted, undeleted.length, saved.isOk⟩

/-- The distinguished names that occur in samples. -/
def names (samples : List Gauge.Sample) : Text.Set :=
  Text.Set.ofList (samples.map Gauge.Sample.dn)

/-- The identities of samples. -/
def ids (samples : List Gauge.Sample) : Text.Set :=
  Text.Set.ofList (samples.map Gauge.Sample.id)

/-- The part of a pass after the samples were extracted. -/
def complete (schedule : Schedule) (metric : Metric) (samples : List Gauge.Sample) :
    Work Report := do
  let refused ← publish schedule.pushConcurrency samples
  let now ← Work.clock
  let _ ← Work.access (Store.markProcessed metric.name now)
  let reconciliation ← reconcile schedule metric (ids samples)
  Work.count (.samples .success) 1
  return {
    objects := (names samples).size
    pushed := samples.length - refused
    pushFailures := refused
    obsoleteDeleted := reconciliation.obsoleteDeleted
    obsoleteFailed := reconciliation.obsoleteFailed
    relatedIdsSaved := reconciliation.relatedIdsSaved }

/-- One pass. -/
def pass (schedule : Schedule) (metric : Metric) : Work (Except Error Report) := do
  match ← collect metric with
  | .error error =>
      giveUp schedule metric
      Work.count (.samples .failure) 1
      return .error error
  | .ok samples =>
      let report ← complete schedule metric samples
      return .ok report

end Sampling
end InventoryGauges
