import InventoryGauges.Sampling

/-!
# Poll cycles

A cycle reads the definitions, runs a pass for each metric that is due, all of
them side by side, and then cleans up after metrics that are no longer defined.
What it cannot read it does not act upon.
-/

namespace InventoryGauges
namespace Cycle

/-- How a pass ended within a cycle. -/
inductive Ending
  /-- The pass came to its end. -/
  | finished (result : Except Sampling.Error Sampling.Report)
  /-- The pass was cut off. -/
  | timedOut
  /-- The pass broke down. -/
  | broken

/-- What a cycle asks. -/
inductive Request
  /-- A single request. -/
  | single (request : Work.Request)
  /-- Passes of some metrics side by side. -/
  | passes (metrics : List Metric)
  /-- The present instant, in milliseconds. -/
  | instant
  /-- Count a cycle that started at an instant and ends now. -/
  | observe (started : Nat)

/-- What each request is answered with; passes with one ending for each. -/
abbrev Request.Answer : Request → Type
  | single request => request.Answer
  | passes _ => List Ending
  | instant => Nat
  | observe _ => Unit

end Cycle

/-- A part of a cycle with a result. -/
abbrev Cycle (Result : Type) : Type :=
  Program Cycle.Request Cycle.Request.Answer Result

namespace Cycle

/-- A piece of work as a part of a cycle. -/
def ofWork {Result : Type} : Work Result → Cycle Result
  | .done result => .done result
  | .ask request next => .ask (.single request) fun answer => ofWork (next answer)

instance : MonadLift (Program Work.Request Work.Request.Answer)
    (Program Cycle.Request Cycle.Request.Answer) where
  monadLift := ofWork

/-- What a cycle did. -/
structure Report where
  /-- Definitions that were read. -/
  metrics : Nat
  /-- Metrics that were due. -/
  due : Nat
  /-- Passes that succeeded. -/
  succeeded : Nat
  /-- Passes that failed. -/
  failed : Nat
  /-- Passes that were cut off or broke down. -/
  aborted : Nat
  /-- Former metrics that were cleaned up. -/
  reaped : Nat
  deriving DecidableEq, Repr, Inhabited

/-- The report of a cycle that did nothing. -/
def Report.empty : Report :=
  { metrics := 0, due := 0, succeeded := 0, failed := 0, aborted := 0, reaped := 0 }

/-- Add the ending of a pass to a report. -/
def Report.add (report : Report) : Ending → Report
  | .finished (.ok _) => { report with succeeded := report.succeeded + 1 }
  | .finished (.error _) => { report with failed := report.failed + 1 }
  | .timedOut | .broken => { report with aborted := report.aborted + 1 }

/-- Count the passes that did not come to their end. -/
def countLost : List Ending → Work Unit
  | [] => return ()
  | ending :: endings => do
      match ending with
      | .finished _ => pure ()
      | .timedOut => Work.count (.samples .timeout) 1
      | .broken => Work.count (.samples .panic) 1
      countLost endings

/-- Run the passes of some metrics. -/
def sampleAll (due : List Metric) : Cycle (List Ending) := do
  let endings ← Program.request (Request.passes due)
  countLost endings
  return endings

/-- Remove everything about a former metric.  The result tells whether nothing
is left; gauges that were not withdrawn are stored for the next attempt. -/
def reapMetric (schedule : Schedule) (name : String) : Work Bool := do
  match ← Work.access (Store.relatedIds name) with
  | .error error =>
      if error.isRecoverable then return false
      else remove []
  | .ok ids => remove ids.toList
where
  /-- Withdraw gauges and then the bookkeeping. -/
  remove (ids : List String) : Work Bool := do
    let undeleted ← Sampling.withdraw schedule.pushConcurrency ids
    if undeleted.isEmpty then
      let removed ← Work.access (Store.deleteBookkeeping name)
      return removed.isOk
    else
      let _ ← Work.access (Store.saveRelatedIds name (Text.Set.ofList undeleted))
      return false

/-- Remove everything about some former metrics, and count those of which
nothing is left. -/
def reapAll (schedule : Schedule) : List String → Work Nat
  | [] => return 0
  | name :: names => do
      let removed ← reapMetric schedule name
      if removed then
        Work.count .metricsReaped 1
        return (← reapAll schedule names) + 1
      else reapAll schedule names

/-- Clean up after all metrics that have a marker and are not active. -/
def reap (schedule : Schedule) (active : Text.Set) : Work Nat := do
  match ← Work.access Store.processedNames with
  | .error _ => return 0
  | .ok processed => reapAll schedule (processed.diff active).toList

/-- What a cycle does, apart from taking its time. -/
def body (schedule : Schedule) : Cycle Report := do
  match ← ofWork (Work.access Store.listMetrics) with
  | .error _ => return Report.empty
  | .ok metrics =>
      let names := metrics.map Metric.name
      let report ← match ← ofWork (Work.access (Store.lastProcessedTimes names)) with
        | .error _ => pure { Report.empty with metrics := metrics.length }
        | .ok times => do
            let now ← ofWork Work.clock
            let due := Schedule.dueMetrics metrics times now
            let endings ← sampleAll due
            pure (endings.foldl Report.add
              { Report.empty with metrics := metrics.length, due := due.length })
      let reaped ← ofWork (reap schedule (Text.Set.ofList names))
      return { report with reaped }

/-- One cycle, which is counted when it ends. -/
def cycle (schedule : Schedule) : Cycle Report := do
  let started ← Program.request Request.instant
  let report ← body schedule
  Program.request (Request.observe started)
  return report

/-- Why a purge stopped. -/
inductive PurgeError
  | gateway (error : Gateway.Error)
  | store (error : Store.Error)
  deriving DecidableEq, Repr

/-- Remove what is kept about some names, up to the first failure. -/
def deleteAllBookkeeping : List String → Store.Access Unit
  | [] => return ()
  | name :: names => do
      Store.deleteBookkeeping name
      deleteAllBookkeeping names

/-- Withdraw everything from the gateway and remove all bookkeeping.  The
result is the number of names of which something was kept. -/
def purge : Work (Except PurgeError Nat) := do
  match ← Work.wipe with
  | .error error => return .error (.gateway error)
  | .ok () =>
      let forget : Store.Access Nat := do
        let names ← Store.processedNames
        deleteAllBookkeeping names.toList
        return names.size
      return (← Work.access forget).mapError .store

end Cycle
end InventoryGauges
