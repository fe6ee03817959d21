import InventoryGauges.Proofs.Execution.Interruption
import InventoryGauges.Proofs.Sampling.Trace

/-!
# What a pass counts

A pass that comes to its end counts its outcome once, at its very end.  So one
that is cut off has not counted it, and neither does what cleans up after it.
-/

namespace InventoryGauges
namespace Sampling

open Work (Answered Interrupted Request)

/-- The outcome of a pass that came to its end. -/
def outcome : Except Error Report → Outcome
  | .ok _ => .success
  | .error _ => .failure

theorem asks_collect_counting (metric : Metric) :
    (collect metric).Asks Request.CountsGauges := by
  refine (Program.asks_request trivial).bind fun answer => ?_
  cases answer <;> trivial

variable {schedule : Schedule} {metric : Metric} {events : List Event} {counter : Counter}
  (other : ¬ counter.IsOfGauges)
include other

theorem totalRaised_of_finishes_giveUp
    (finishes : Program.Finishes Answered (giveUp schedule metric) events ()) :
    Event.totalRaised counter events = 0 :=
  Work.totalRaised_of_finishes other (Work.asks_countsGauges (asks_giveUp schedule metric)) finishes

theorem totalRaised_of_finishes_complete {samples : List Gauge.Sample} {report : Report}
    (finishes : Program.Finishes Answered (complete schedule metric samples) events report) :
    Event.totalRaised counter events = if counter = .samples .success then 1 else 0 := by
  obtain ⟨pushed, now, marked, reconciled, reconciliation, same, reconciles, rfl, -⟩ :=
    finishes_complete_iff.mp finishes
  have published : Program.Finishes Answered (publish schedule.pushConcurrency samples)
      (publication pushed) (refusals pushed) :=
    finishes_publish_iff.mpr ⟨pushed, same, rfl, rfl⟩
  have early := Work.totalRaised_of_finishes other
    (Work.asks_countsGauges (asks_publish _ _)) published
  have late := Work.totalRaised_of_finishes other
    (Work.asks_countsGauges (asks_reconcile schedule metric _)) reconciles
  rw [Event.totalRaised_append, early, Event.totalRaised_cons_of_none rfl,
    Event.totalRaised_cons_of_none rfl, Event.totalRaised_append, late, Nat.zero_add, Nat.zero_add,
    Event.totalRaised_count]

/-- A pass that comes to its end counts its outcome once. -/
theorem totalRaised_of_finishes_pass {result : Except Error Report}
    (finishes : Program.Finishes Answered (pass schedule metric) events result) :
    Event.totalRaised counter events = if counter = .samples (outcome result) then 1 else 0 := by
  obtain ⟨answer, others, rfl, continues⟩ := finishes_pass_iff.mp finishes
  rw [Event.totalRaised_cons_of_none rfl]
  cases extracts : extracted metric answer with
  | error error =>
      rw [extracts] at continues
      obtain ⟨cleaned, cleans, rfl, rfl⟩ := continues
      rw [Event.totalRaised_append, totalRaised_of_finishes_giveUp other cleans, Nat.zero_add,
        Event.totalRaised_count, outcome]
  | ok samples =>
      rw [extracts] at continues
      obtain ⟨report, completes, rfl⟩ := continues
      exact totalRaised_of_finishes_complete other completes

theorem totalRaised_of_interrupted_complete {samples : List Gauge.Sample}
    (interrupted : Interrupted (complete schedule metric samples) events) :
    Event.totalRaised counter events = 0 := by
  refine Work.totalRaised_of_interrupted_bind other
    (Work.asks_countsGauges (asks_publish _ _)) (fun refused events interrupted => ?_) interrupted
  refine Work.totalRaised_of_interrupted_bind other
    (Work.asks_countsGauges Work.asks_clock) (fun now events interrupted => ?_) interrupted
  refine Work.totalRaised_of_interrupted_bind other
    (Work.asks_countsGauges (Work.asks_access _)) (fun marked events interrupted => ?_) interrupted
  refine Work.totalRaised_of_interrupted_bind other
    (Work.asks_countsGauges (asks_reconcile schedule metric _))
    (fun reconciliation events interrupted => ?_) interrupted
  exact absurd interrupted Work.not_interrupted_count

/-- A pass that is cut off has not counted its outcome. -/
theorem totalRaised_of_interrupted_pass (interrupted : Interrupted (pass schedule metric) events) :
    Event.totalRaised counter events = 0 := by
  refine Work.totalRaised_of_interrupted_bind other (asks_collect_counting metric)
    (fun collected events interrupted => ?_) interrupted
  cases collected with
  | error error =>
      refine Work.totalRaised_of_interrupted_bind other
        (Work.asks_countsGauges (asks_giveUp schedule metric))
        (fun done events interrupted => ?_) interrupted
      exact absurd interrupted Work.not_interrupted_count
  | ok samples =>
      rcases Work.interrupted_or_of_bind interrupted with
        early | ⟨_, report, _, -, late, -⟩
      · exact totalRaised_of_interrupted_complete other early
      · exact absurd late Work.not_interrupted_done

end Sampling
end InventoryGauges
