import InventoryGauges.Proofs.Sampling.Footprint

/-!
# What a pass leaves as its marker

A pass that does not break down marks its metric, at the time of the clock that
it read last.
-/

namespace InventoryGauges

/-- The time that is read in an event. -/
def Event.time? : Event → Option Timestamp
  | .clock time => some time
  | _ => none

/-- The times that are read in some events, in their order. -/
def Event.times (events : List Event) : List Timestamp :=
  events.filterMap time?

namespace Event

@[simp] theorem times_append (left right : List Event) :
    times (left ++ right) = times left ++ times right :=
  List.filterMap_append

@[simp] theorem times_clock (time : Timestamp) (events : List Event) :
    times (clock time :: events) = time :: times events := rfl

theorem times_cons_of_none {event : Event} (none : event.time? = none) (events : List Event) :
    times (event :: events) = times events := by
  rw [times, List.filterMap_cons_none none]
  rfl

theorem times_eq_nil {events : List Event} (none : ∀ event ∈ events, event.time? = none) :
    times events = [] :=
  List.filterMap_eq_nil_iff.mpr none

end Event

/-- After these events a metric was marked, at the time that was read last. -/
def Marks (name : String) (marker : Timestamp → Timestamp) (events : List Event) : Prop :=
  ∃ before time answer after,
    events = before ++ .clock time ::
      .store (.set (Store.markerKey name) (marker time).decimal) answer :: after ∧
    ∀ event ∈ after, event.time? = none ∧ event.written? (Store.markerKey name) = none

namespace Marks

variable {name : String} {marker : Timestamp → Timestamp} {events : List Event}

theorem prepend (marks : Marks name marker events) (earlier : List Event) :
    Marks name marker (earlier ++ events) := by
  obtain ⟨before, time, answer, after, rfl, silent⟩ := marks
  exact ⟨earlier ++ before, time, answer, after, (List.append_assoc _ _ _).symm, silent⟩

theorem append_count (marks : Marks name marker events) (counter : Counter) (amount : Nat) :
    Marks name marker (events ++ [.count counter amount]) := by
  obtain ⟨before, time, answer, after, rfl, silent⟩ := marks
  refine ⟨before, time, answer, after ++ [.count counter amount], by simp, ?_⟩
  intro event member
  rcases List.mem_append.mp member with inAfter | last
  · exact silent event inAfter
  · obtain rfl := List.mem_singleton.mp last
    exact ⟨rfl, rfl⟩

theorem getLast?_times {before after : List Event} {time : Timestamp} {call : Store.Call}
    {answer : call.Answer} (silent : ∀ event ∈ after, event.time? = none) :
    (Event.times (before ++ .clock time :: .store call answer :: after)).getLast? =
      some time := by
  rw [Event.times_append, Event.times_clock, Event.times_cons_of_none rfl,
    Event.times_eq_nil silent]
  exact List.getLast?_concat

/-- If marking works, the marker is written with the time that is read last. -/
theorem exists_write (marks : Marks name marker events)
    (works : ∀ event ∈ events, ¬ event.IsFailureAt (Store.markerKey name)) :
    ∃ time, (Event.times events).getLast? = some time ∧
      .store (.set (Store.markerKey name) (marker time).decimal) (.ok ()) ∈ events := by
  obtain ⟨before, time, answer, after, rfl, silent⟩ := marks
  obtain rfl := Event.eq_ok_of_works
    (works (.store (.set (Store.markerKey name) (marker time).decimal) answer) (by simp))
  exact ⟨time, getLast?_times fun event member => (silent event member).1, by simp⟩

/-- If marking works, the marker is there in the end. -/
theorem exists_time (marks : Marks name marker events) (site : Site)
    (works : ∀ event ∈ events, ¬ event.IsFailureAt (Store.markerKey name)) :
    ∃ time, (Event.times events).getLast? = some time ∧
      (site.afterAll events).contents.get? (Store.markerKey name) = some (marker time).decimal := by
  obtain ⟨before, time, answer, after, rfl, silent⟩ := marks
  obtain rfl := Event.eq_ok_of_works
    (works (.store (.set (Store.markerKey name) (marker time).decimal) answer) (by simp))
  refine ⟨time, getLast?_times fun event member => (silent event member).1, ?_⟩
  rw [Site.afterAll_append, Site.afterAll_cons, Site.afterAll_cons,
    Site.get?_contents_afterAll fun event member => (silent event member).2,
    Site.get?_contents_after, Event.written?_set_self]
  rfl

end Marks

namespace Sampling

open Work (Answered)

variable {schedule : Schedule} {metric : Metric} {events : List Event}

theorem marks_of_finishes_giveUp
    (finishes : Program.Finishes Answered (giveUp schedule metric) events ()) :
    Marks metric.name
      (Schedule.failureMarker · metric.interval schedule.failureBackoff) events := by
  obtain ⟨withdrawn, recorded, -, records, rfl⟩ := finishes_giveUp_iff.mp finishes
  obtain ⟨now, answer, rfl⟩ := finishes_recordFailure_iff.mp records
  exact ⟨withdrawn, now, answer, [], rfl, nofun⟩

/-- Reconciling neither reads the clock nor marks. -/
theorem time?_of_finishes_reconcile {current : Text.Set} {reconciliation : Reconciliation}
    (finishes : Program.Finishes Answered (reconcile schedule metric current) events
      reconciliation) :
    ∀ event ∈ events, event.time? = none ∧ event.written? (Store.markerKey metric.name) = none := by
  obtain ⟨answer, others, rfl, continues⟩ := finishes_reconcile_iff.mp finishes
  intro event member
  rcases List.mem_cons.mp member with rfl | later
  · exact ⟨rfl, Event.written?_get _ _ answer⟩
  · generalize Store.reading (Store.relatedKey metric.name) Store.idsIn? answer = outcome
      at continues
    cases outcome with
    | error error => exact absurd (continues.1 ▸ later) List.not_mem_nil
    | ok previous =>
        obtain ⟨ended, same, written, saved, rfl, -, saves⟩ := continues
        rcases List.mem_append.mp later with withdrawn | last
        · rcases cases_of_mem_withdrawal same withdrawn with ⟨_, -, _, rfl⟩ | ⟨_, _, rfl⟩
          · exact ⟨rfl, rfl⟩
          · exact ⟨rfl, rfl⟩
        · rcases saves with ⟨-, rfl, -⟩ | ⟨-, answer, rfl, -⟩
          · exact absurd last List.not_mem_nil
          · obtain rfl := List.mem_singleton.mp last
            exact ⟨rfl, Event.written?_set_of_ne (Store.markerKey_ne_relatedKey _ _) _ _⟩

theorem marks_of_finishes_complete {samples : List Gauge.Sample} {report : Report}
    (finishes : Program.Finishes Answered (complete schedule metric samples) events report) :
    Marks metric.name id events := by
  obtain ⟨pushed, now, marked, reconciled, reconciliation, -, reconciles, rfl, -⟩ :=
    finishes_complete_iff.mp finishes
  have marks : Marks metric.name id (publication pushed ++ .clock now ::
      .store (.set (Store.markerKey metric.name) now.decimal) marked :: reconciled) :=
    ⟨_, now, marked, reconciled, rfl, time?_of_finishes_reconcile reconciles⟩
  simpa using marks.append_count (.samples .success) 1

end Sampling

namespace Cycle

/-- The marker that a pass leaves, by how it ended and the time of the clock
that it read last. -/
def Ending.marker (schedule : Schedule) (metric : Metric) : Ending → Timestamp → Timestamp
  | .finished (.ok _), time => time
  | _, time => Schedule.failureMarker time metric.interval schedule.failureBackoff

variable {schedule : Schedule} {metric : Metric} {events : List Event} {ending : Ending}

/-- A pass that does not break down marks its metric. -/
theorem PassRuns.marks (runs : PassRuns schedule metric events ending)
    (unbroken : ending ≠ .broken) : Marks metric.name (ending.marker schedule metric) events := by
  cases runs with
  | @finished events result finishes =>
      obtain ⟨answer, others, rfl, continues⟩ := Sampling.finishes_pass_iff.mp finishes
      rw [← List.singleton_append]
      apply Marks.prepend
      cases extracts : Sampling.extracted metric answer with
      | error error =>
          rw [extracts] at continues
          obtain ⟨cleaned, cleans, rfl, rfl⟩ := continues
          exact (Sampling.marks_of_finishes_giveUp cleans).append_count _ _
      | ok samples =>
          rw [extracts] at continues
          obtain ⟨report, completes, rfl⟩ := continues
          exact Sampling.marks_of_finishes_complete completes
  | broken stalls => exact absurd rfl unbroken
  | @timedOut begun cleaned begins cleans =>
      have marks := (Sampling.marks_of_finishes_giveUp cleans).prepend (begun ++ [.deadline])
      rwa [List.append_assoc] at marks

end Cycle
end InventoryGauges
