import InventoryGauges.Proofs.Cycle.Pace

/-!
# Markers after a cycle

If the store works, each metric that a cycle samples has a fresh marker when it
ends, unless its pass broke down.  Such a pass leaves the marker as it was, so
that the metric is sampled again in the next cycle.
-/

namespace InventoryGauges
namespace Cycle

variable {schedule : Schedule} {course : Course} {moments : List Moment} {site : Site}
  {index : Nat} {metric : Metric} {ending : Ending}

/-- What a cycle leaves as the marker of a metric that it sampled, by how its pass
ended. -/
structure Leaves (schedule : Schedule) (course : Course) (moments : List Moment) (site : Site)
    (index : Nat) (metric : Metric) (ending : Ending) : Prop where
  /-- The pass broke down if all it did was a query that was not answered. -/
  broken_iff : ending = .broken ↔
    Moment.eventsOf (.pass index) moments = [.unanswered metric.className metric.queryFilter]
  /-- The marker is written, unless the pass broke down. -/
  written_iff : (∃ moment ∈ moments,
    (moment.event.written? (Store.markerKey metric.name)).isSome) ↔ ending ≠ .broken
  /-- It is there in the end then, as the pass wrote it with the time that it read
  last. -/
  marked : ending ≠ .broken → ∃ time,
    (Event.times (Moment.eventsOf (.pass index) moments)).getLast? = some time ∧
      ⟨.pass index, .store (.set (Store.markerKey metric.name)
        (ending.marker schedule metric time).decimal) (.ok ())⟩ ∈ moments ∧
      (site.afterAll (moments.map Moment.event)).contents.get? (Store.markerKey metric.name) =
        some (ending.marker schedule metric time).decimal
  /-- If the pass did not succeed, the metric is due again after the backoff. -/
  heldBack : ending.IsUnsuccessful → ∃ time,
    (Event.times (Moment.eventsOf (.pass index) moments)).getLast? = some time ∧
      ∀ later : Timestamp, time.millis.toInt ≤ later.millis.toInt →
        (metric.interval.toNat : Int) ≤ time.millis.toInt →
        schedule.failureBackoff.millis < UInt64.size →
          (Schedule.isDue (Store.markerTime ((site.afterAll (moments.map Moment.event)).contents.get?
              (Store.markerKey metric.name))) metric.interval later ↔
            (min schedule.failureBackoff.millis metric.interval.toNat : Int) ≤
              later.millis.toInt - time.millis.toInt)
  /-- If the pass broke down, the marker is as it was, and the metric stays due. -/
  unmarked : ending = .broken →
    (site.afterAll (moments.map Moment.event)).contents.get? (Store.markerKey metric.name) =
        site.contents.get? (Store.markerKey metric.name) ∧
      ∀ later : Timestamp, course.now.millis.toInt ≤ later.millis.toInt →
        Schedule.isDue (Store.markerTime ((site.afterAll (moments.map Moment.event)).contents.get?
          (Store.markerKey metric.name))) metric.interval later

/-- A pass that breaks down does not mark its metric, nor does anything else. -/
theorem Course.Goes.written?_marker_of_broken (goes : course.Goes schedule moments)
    (unique : ∀ moment ∈ moments, moment.event.LoadsUnique)
    (found : course.sampled[index]? = some metric) (ended : course.endings[index]? = some .broken)
    {moment : Moment} (member : moment ∈ moments) :
    moment.event.written? (Store.markerKey metric.name) = none := by
  by_cases own : moment.actor = .pass index
  · have inPass : moment.event ∈ Moment.eventsOf (.pass index) moments :=
      Moment.mem_eventsOf.mpr (own ▸ member)
    rw [(goes.passRuns found ended).events_of_broken] at inPass
    rw [List.mem_singleton.mp inPass]
    rfl
  · exact goes.written?_marker_of_foreign unique found member own

/-- A metric that is sampled is marked exactly if its pass does not break down. -/
theorem Course.Goes.leaves (goes : course.Goes schedule moments)
    (lawful : site.Lawful (moments.map Moment.event))
    (reliable : ∀ moment ∈ moments, ¬ moment.event.IsStoreFailure)
    (unique : ∀ moment ∈ moments, moment.event.LoadsUnique)
    (found : course.sampled[index]? = some metric)
    (ended : course.endings[index]? = some ending) :
    Leaves schedule course moments site index metric ending := by
  have marked (unbroken : ending ≠ .broken) : ∃ time,
      (Event.times (Moment.eventsOf (.pass index) moments)).getLast? = some time ∧
        ⟨.pass index, .store (.set (Store.markerKey metric.name)
          (ending.marker schedule metric time).decimal) (.ok ())⟩ ∈ moments ∧
        (site.afterAll (moments.map Moment.event)).contents.get? (Store.markerKey metric.name) =
          some (ending.marker schedule metric time).decimal := by
    obtain ⟨time, last, holds⟩ :=
      goes.exists_time_of_sampled site reliable unique found ended unbroken
    obtain ⟨same, lastToo, written⟩ := ((goes.passRuns found ended).marks unbroken).exists_write
      fun event member fails => reliable _ (Moment.mem_eventsOf.mp member)
        (Event.isStoreFailure_of_isFailureAt fails)
    obtain rfl := Option.some.inj (last.symm.trans lastToo)
    exact ⟨time, last, Moment.mem_eventsOf.mp written, holds⟩
  constructor
  case broken_iff =>
    constructor
    · rintro rfl
      exact (goes.passRuns found ended).events_of_broken
    · refine fun alone => Classical.byContradiction fun unbroken => ?_
      obtain ⟨time, -, member, -⟩ := marked unbroken
      have own := Moment.mem_eventsOf.mpr member
      rw [alone] at own
      cases List.mem_singleton.mp own
  case written_iff =>
    constructor
    · rintro ⟨moment, member, written⟩ rfl
      rw [goes.written?_marker_of_broken unique found ended member] at written
      cases written
    · intro unbroken
      obtain ⟨time, -, member, -⟩ := marked unbroken
      refine ⟨_, member, ?_⟩
      rw [Event.written?_set_self]
      rfl
  case marked => exact marked
  case heldBack =>
    intro unsuccessful
    have unbroken : ending ≠ .broken := by
      rintro rfl
      exact unsuccessful
    obtain ⟨time, last, -, holds⟩ := marked unbroken
    refine ⟨time, last, fun later order short fits => ?_⟩
    have failed : ending.marker schedule metric time =
        Schedule.failureMarker time metric.interval schedule.failureBackoff := by
      cases ending with
      | finished result =>
          cases result with
          | ok report => exact unsuccessful.elim
          | error error => rfl
      | timedOut => rfl
      | broken => exact unsuccessful.elim
    rw [holds, Store.markerTime_decimal, failed]
    exact Schedule.isDue_failureMarker_iff order short fits
  case unmarked =>
    rintro rfl
    have kept : (site.afterAll (moments.map Moment.event)).contents.get?
        (Store.markerKey metric.name) = site.contents.get? (Store.markerKey metric.name) := by
      refine Site.get?_contents_afterAll fun event member => ?_
      obtain ⟨moment, inMoments, rfl⟩ := List.mem_map.mp member
      exact goes.written?_marker_of_broken unique found ended inMoments
    have sampled := List.mem_of_getElem? found
    refine ⟨kept, fun later order => ?_⟩
    rw [kept]
    exact Schedule.isDue_of_le
      ((goes.mem_sampled_iff lawful (goes.sampled_sublist.subset sampled)).mp sampled) order

/-- If no call to the store fails and the names that are loaded are unique, a cycle
samples each metric that is due, and leaves a fresh marker for it exactly if its
pass does not break down.  Only then is the metric held back. -/
theorem marked_unless_broken {metrics : List Metric} (runs : Operation.cycle.Runs schedule moments)
    (lawful : site.Lawful (moments.map Moment.event))
    (reliable : ∀ moment ∈ moments, ¬ moment.event.IsStoreFailure)
    (unique : ∀ moment ∈ moments, moment.event.LoadsUnique)
    (decoded : Store.metricsIn? (site.contents.get? Store.metricsKey) = some metrics) :
    ∃ course : Course, course.Goes schedule moments ∧ course.metrics = metrics ∧
      ∀ metric ∈ metrics,
        Schedule.isDue (Store.markerTime (site.contents.get? (Store.markerKey metric.name)))
          metric.interval course.now →
        ∃ index ending, course.sampled[index]? = some metric ∧
          course.endings[index]? = some ending ∧
          Leaves schedule course moments site index metric ending := by
  obtain ⟨course, goes, rfl⟩ := exists_course_of_decoded runs lawful reliable decoded
  refine ⟨course, goes, rfl, fun metric listed due => ?_⟩
  obtain ⟨index, found⟩ :=
    List.getElem?_of_mem ((goes.mem_sampled_iff lawful listed).mpr due)
  obtain ⟨ending, ended⟩ := goes.exists_ending found
  exact ⟨index, ending, found, ended, goes.leaves lawful reliable unique found ended⟩

end Cycle

namespace Cycle.Example

open Sampling.Example (metric firstPass finishes_firstPass)

/-- A cycle in which the pass of the metric breaks down in its query. -/
def collapsed : List Moment :=
  alone none (Timestamp.ofInt 2000) [.unanswered metric.className metric.queryFilter]
    [.count (.samples .panic) 1] []

theorem goes_collapsed : Course.Goes Schedule.standard
    ⟨[metric], [none], Timestamp.ofInt 2000, [metric], [.broken]⟩ collapsed := by
  obtain ⟨report, finishes⟩ := finishes_firstPass Schedule.standard (.ok ())
  have counts : Program.Finishes Work.Answered (countLost [.broken])
      [.count (.samples .panic) 1] () :=
    Program.finishes_bind_iff.mpr ⟨_, (), [], Program.finishes_request_iff.mpr rfl, .done (), rfl⟩
  exact goes_alone (by decide) (.broken ⟨[], _, _, _, _, _, finishes, rfl⟩) counts (by decide)

end Cycle.Example

open Cycle.Example (alone defined early goes_early steady_late collapsed goes_collapsed)
open Sampling.Example (metric)

/-- A metric whose pass is cut off is marked. -/
theorem Cycle.marked_in_early :
    ∃ course : Cycle.Course, course.Goes Schedule.standard early ∧ course.metrics = [metric] ∧
      ∃ index ending, course.sampled[index]? = some metric ∧
        course.endings[index]? = some ending ∧
        Cycle.Leaves Schedule.standard course early defined index metric ending := by
  have lawful : defined.Lawful (early.map Moment.event) := by
    repeat (first | exact trivial | refine ⟨rfl, ?_⟩ | refine ⟨trivial, ?_⟩)
  have inFirst {moment : Moment} (member : moment ∈ early) : moment ∈ [early].flatten := by
    simpa using member
  obtain ⟨course, goes, same, leaves⟩ :=
    Cycle.marked_unless_broken goes_early.runs lawful
      (fun moment member => steady_late.initial.reliable moment (inFirst member))
      (fun moment member => steady_late.initial.unique moment (inFirst member))
      (Metric.ofListText?_listText [metric])
  have listed : metric ∈ course.metrics := same ▸ List.mem_singleton_self metric
  have sampled : metric ∈ course.sampled :=
    goes_early.sampled_unique goes ▸ List.mem_singleton_self metric
  exact ⟨course, goes, same, leaves metric (List.mem_singleton_self metric)
    ((goes.mem_sampled_iff lawful listed).mp sampled)⟩

/-- A metric whose query breaks down was due, but has no marker after the cycle. -/
theorem Cycle.unmarked_in_collapsed :
    Operation.cycle.Runs Schedule.standard collapsed ∧
      defined.Lawful (collapsed.map Moment.event) ∧
      (∀ moment ∈ collapsed, ¬ moment.event.IsStoreFailure) ∧
      (∀ moment ∈ collapsed, moment.event.LoadsUnique) ∧
      Store.metricsIn? (defined.contents.get? Store.metricsKey) = some [metric] ∧
      Schedule.isDue (Store.markerTime (defined.contents.get? (Store.markerKey metric.name)))
        metric.interval (Timestamp.ofInt 2000) ∧
      (∀ moment ∈ collapsed,
        moment.event.written? (Store.markerKey metric.name) = none) ∧
      (defined.afterAll (collapsed.map Moment.event)).contents.get?
        (Store.markerKey metric.name) = none := by
  refine ⟨goes_collapsed.runs, ?_, ?_, ?_, ?_, ?_, ?_, ?_⟩
  · repeat (first | exact trivial | refine ⟨rfl, ?_⟩ | refine ⟨trivial, ?_⟩)
  · simp [collapsed, alone, Moment.ofMain, Event.IsStoreFailure]
  · simp [collapsed, alone, Moment.ofMain, Event.LoadsUnique]
  · exact Metric.ofListText?_listText [metric]
  · decide
  · simp [collapsed, alone, Moment.ofMain, Event.written?, Store.Call.written?]
  · rfl

end InventoryGauges
