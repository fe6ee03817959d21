import InventoryGauges.Proofs.Cycle.Course
import InventoryGauges.Proofs.Gauges.GivingUp
import InventoryGauges.Proofs.Schedule.Due

/-!
# When metrics are sampled

The marker of a name tells its last pass, as long as no call to the store fails
and no pass breaks down.  So a cycle samples a metric again when the interval
has passed since the last pass succeeded, or the backoff since it did not.
-/

namespace InventoryGauges

/-- In some operations, the last pass of a name was of this metric, ended like
this, and read the clock last at this time. -/
def LastPass (schedule : Schedule) (operations : List (List Moment)) (metric : Metric)
    (ending : Cycle.Ending) (time : Timestamp) : Prop :=
  ∃ past moments future, ∃ course : Cycle.Course, ∃ index : Nat,
    operations = past ++ moments :: future ∧ course.Goes schedule moments ∧
    course.sampled[index]? = some metric ∧ course.endings[index]? = some ending ∧
    (Event.times (Moment.eventsOf (.pass index) moments)).getLast? = some time ∧
    ∀ later ∈ future, ∀ other : Cycle.Course, other.Goes schedule later →
      ¬ metric.name ∈ other.sampled.map Metric.name

namespace LastPass

variable {schedule : Schedule} {operations : List (List Moment)} {moments : List Moment}
  {metric : Metric} {ending : Cycle.Ending} {time : Timestamp}

/-- A pass stays the last one of its name in operations that do not sample it. -/
theorem append (last : LastPass schedule operations metric ending time)
    (absent : ∀ course : Cycle.Course, course.Goes schedule moments →
      ¬ metric.name ∈ course.sampled.map Metric.name) :
    LastPass schedule (operations ++ [moments]) metric ending time := by
  obtain ⟨past, own, future, course, index, rfl, goes, found, ended, read, others⟩ := last
  refine ⟨past, own, future ++ [moments], course, index, by simp, goes, found, ended, read, ?_⟩
  intro later member
  rcases List.mem_append.mp member with inFuture | isLast
  · exact others later inFuture
  · obtain rfl := List.mem_singleton.mp isLast
    exact absent

/-- The last pass was in the last operation, or that one did not sample the
name. -/
theorem cases_append (last : LastPass schedule (operations ++ [moments]) metric ending time) :
    (∃ course : Cycle.Course, ∃ index : Nat, course.Goes schedule moments ∧
      course.sampled[index]? = some metric ∧ course.endings[index]? = some ending ∧
      (Event.times (Moment.eventsOf (.pass index) moments)).getLast? = some time) ∨
    LastPass schedule operations metric ending time ∧
      ∀ course : Cycle.Course, course.Goes schedule moments →
        ¬ metric.name ∈ course.sampled.map Metric.name := by
  obtain ⟨past, own, future, course, index, shape, goes, found, ended, read, others⟩ := last
  rcases List.eq_nil_or_concat future with rfl | ⟨before, final, rfl⟩
  · obtain ⟨-, same⟩ := List.append_inj' shape rfl
    obtain rfl := (List.cons.inj same).1
    exact Or.inl ⟨course, index, goes, found, ended, read⟩
  · rw [List.concat_eq_append] at shape others
    rw [← List.cons_append, ← List.append_assoc] at shape
    obtain ⟨rfl, same⟩ := List.append_inj' shape rfl
    obtain rfl := (List.cons.inj same).1
    refine Or.inr ⟨⟨past, own, before, course, index, rfl, goes, found, ended, read, ?_⟩, ?_⟩
    · exact fun later member => others later (List.mem_append_left _ member)
    · exact others moments (by simp)

/-- The last pass read the clock in the operations. -/
theorem time_mem (last : LastPass schedule operations metric ending time) :
    time ∈ Event.times (operations.flatten.map Moment.event) := by
  obtain ⟨past, own, future, course, index, rfl, -, -, -, read, -⟩ := last
  obtain ⟨event, member, found⟩ := List.mem_filterMap.mp (List.mem_of_getLast? read)
  refine List.mem_filterMap.mpr ⟨event, ?_, found⟩
  have inOwn := Moment.mem_eventsOf.mp member
  exact List.mem_map.mpr ⟨_, List.mem_flatten.mpr ⟨own, by simp, inOwn⟩, rfl⟩

end LastPass

/-- Operations in which nothing happens that would spoil the markers. -/
structure Steady (operations : List (List Moment)) : Prop where
  /-- No call to the store fails. -/
  reliable : ∀ moment ∈ operations.flatten, ¬ moment.event.IsStoreFailure
  /-- The names of definitions that are read are unique. -/
  unique : ∀ moment ∈ operations.flatten, moment.event.LoadsUnique
  /-- Each query is answered, or its pass is cut off. -/
  answered : ∀ moments ∈ operations, ∀ moment ∈ moments, ∀ className filter,
    moment.event = .unanswered className filter → ⟨moment.actor, .deadline⟩ ∈ moments
  /-- The clock shows times after the epoch. -/
  positive : ∀ time ∈ Event.times (operations.flatten.map Moment.event), 0 < time.millis.toInt
  /-- The clock does not go back. -/
  ordered : (Event.times (operations.flatten.map Moment.event)).Pairwise
    fun left right => left.millis.toInt ≤ right.millis.toInt

/-- The markers at a site tell the last passes of some operations that began at
another one. -/
structure Site.Tells (start : Site) (schedule : Schedule) (operations : List (List Moment))
    (site : Site) : Prop where
  /-- Where there is a marker, it is that of the last pass of the name. -/
  marker : ∀ metric ending time, LastPass schedule operations metric ending time →
    site.contents.get? (Store.markerKey metric.name) = none ∨
      site.contents.get? (Store.markerKey metric.name) =
        some (ending.marker schedule metric time).decimal
  /-- Where there is a marker, there was one in the beginning or a pass. -/
  pass : ∀ name, (site.contents.get? (Store.markerKey name)).isSome →
    (start.contents.get? (Store.markerKey name)).isSome ∨
      ∃ metric ending time, LastPass schedule operations metric ending time ∧ metric.name = name

namespace Site.Tells

variable {schedule : Schedule} {operations : List (List Moment)} {moments : List Moment}
  {start site other : Site}

theorem nil (start : Site) : start.Tells schedule [] start where
  marker := by
    rintro metric ending time ⟨past, own, future, -, -, shape, -⟩
    simp at shape
  pass := fun _ marked => Or.inl marked

theorem of_alike (tells : start.Tells schedule operations site) (alike : site.Alike other) :
    start.Tells schedule operations other where
  marker := by
    intro metric ending time last
    rw [← alike.contents _ (Store.markerKey_ne_metricsKey metric.name)]
    exact tells.marker metric ending time last
  pass := by
    intro name marked
    rw [← alike.contents _ (Store.markerKey_ne_metricsKey name)] at marked
    exact tells.pass name marked

/-- Each operation of the poller keeps markers telling the last passes. -/
theorem after_operation {operation : Operation} (tells : start.Tells schedule operations site)
    (runs : operation.Runs schedule moments) (polling : operation.IsPolling)
    (reliable : ∀ moment ∈ moments, ¬ moment.event.IsStoreFailure)
    (unique : ∀ moment ∈ moments, moment.event.LoadsUnique)
    (answered : ∀ moment ∈ moments, ∀ className filter,
      moment.event = .unanswered className filter → ⟨moment.actor, .deadline⟩ ∈ moments) :
    start.Tells schedule (operations ++ [moments])
      (site.afterAll (moments.map Moment.event)) where
  marker := by
    intro metric ending time last
    rcases last.cases_append with ⟨course, index, goes, found, ended, read⟩ | ⟨before, absent⟩
    · have whole : ending ≠ .broken := by
        rintro rfl
        exact goes.not_broken answered (List.mem_of_getElem? ended)
      obtain ⟨last, same, marked⟩ :=
        goes.exists_time_of_sampled site reliable unique found ended whole
      obtain rfl := Option.some.inj (read.symm.trans same)
      exact Or.inr marked
    · rcases Cycle.marker_of_not_sampled runs polling reliable absent with kept | removed
      · rw [kept]
        exact tells.marker metric ending time before
      · exact Or.inl removed
  pass := by
    intro name marked
    by_cases sampled : ∃ course : Cycle.Course, course.Goes schedule moments ∧
        name ∈ course.sampled.map Metric.name
    · obtain ⟨course, goes, member⟩ := sampled
      obtain ⟨metric, inSampled, rfl⟩ := List.mem_map.mp member
      obtain ⟨index, found⟩ := List.getElem?_of_mem inSampled
      obtain ⟨ending, ended⟩ := goes.exists_ending found
      have whole : ending ≠ .broken := by
        rintro rfl
        exact goes.not_broken answered (List.mem_of_getElem? ended)
      obtain ⟨time, read, -⟩ :=
        goes.exists_time_of_sampled site reliable unique found ended whole
      exact Or.inr ⟨metric, ending, time,
        ⟨operations, moments, [], course, index, rfl, goes, found, ended, read, nofun⟩, rfl⟩
    · have absent : ∀ course : Cycle.Course, course.Goes schedule moments →
          ¬ name ∈ course.sampled.map Metric.name :=
        fun course goes member => sampled ⟨course, goes, member⟩
      rcases Cycle.marker_of_not_sampled runs polling reliable absent with kept | removed
      · rw [kept] at marked
        rcases tells.pass name marked with begun | ⟨metric, ending, time, last, rfl⟩
        · exact Or.inl begun
        · exact Or.inr ⟨metric, ending, time, last.append absent, rfl⟩
      · rw [removed] at marked
        cases marked

/-- After a timeline the markers tell the last passes. -/
theorem after_timeline {steps : List Step} (timeline : Timeline schedule start operations steps)
    (steady : Steady operations) :
    start.Tells schedule operations (start.afterSteps steps) := by
  refine timeline.induct (P := start.Tells schedule)
    (fun past left right alike tells => tells.of_alike alike) (.nil start) ?_
  intro past moments future earlier later operation shape split runs polling _ tells
  have own : moments ∈ operations := by simp [shape]
  have inAll {moment : Moment} (member : moment ∈ moments) : moment ∈ operations.flatten :=
    List.mem_flatten.mpr ⟨moments, own, member⟩
  exact tells.after_operation runs polling
    (fun moment member => steady.reliable moment (inAll member))
    (fun moment member => steady.unique moment (inAll member)) (steady.answered moments own)

variable {metric : Metric} {text : String}

/-- A marker that is there is read as that of the last pass. -/
theorem markerTime_eq (tells : start.Tells schedule operations site) {ending : Cycle.Ending}
    {time : Timestamp} (last : LastPass schedule operations metric ending time)
    (marked : site.contents.get? (Store.markerKey metric.name) = some text) :
    Store.markerTime (some text) = ending.marker schedule metric time := by
  rcases tells.marker metric ending time last with none | some
  · exact absurd (marked.symm.trans none) nofun
  · rw [← marked, some, Store.markerTime_decimal]

/-- Where there is a marker, there was a last pass, of the same definition if it
did not change since. -/
theorem exists_lastPass (tells : start.Tells schedule operations site)
    (marked : site.contents.get? (Store.markerKey metric.name) = some text)
    (begun : start.contents.get? (Store.markerKey metric.name) = none ∨
      ∃ ending time, LastPass schedule operations metric ending time)
    (unchanged : ∀ other ending time, LastPass schedule operations other ending time →
      other.name = metric.name → other = metric) :
    ∃ ending time, LastPass schedule operations metric ending time := by
  rcases begun with none | passed
  · rcases tells.pass metric.name (by rw [marked]; rfl) with
      some | ⟨other, ending, time, last, same⟩
    · rw [none] at some
      cases some
    · exact ⟨ending, time, unchanged other ending time last same ▸ last⟩
  · exact passed

end Site.Tells

/-- A cycle samples a definition that it found exactly if it is due by the
marker that is stored. -/
theorem Cycle.Course.Goes.mem_sampled_iff {schedule : Schedule} {course : Cycle.Course}
    {moments : List Moment} {site : Site} {metric : Metric} (goes : course.Goes schedule moments)
    (lawful : site.Lawful (moments.map Moment.event)) (listed : metric ∈ course.metrics) :
    metric ∈ course.sampled ↔
      Schedule.isDue (Store.markerTime (site.contents.get? (Store.markerKey metric.name)))
        metric.interval course.now := by
  obtain ⟨text?, passed, counted, reaped, count, -, due, -, -, -, rfl⟩ := goes
  obtain ⟨-, read, -⟩ := lawful
  have markers : course.markers = (course.metrics.map Metric.name).map
      fun name => site.contents.get? (Store.markerKey name) := by
    exact Eq.trans read List.map_map
  rw [due, Schedule.dueMetrics, List.mem_filter, markers,
    Store.get?_ofList_pairTimes (List.mem_map_of_mem listed)]
  exact and_iff_right listed

namespace Steady

variable {schedule : Schedule} {past future : List (List Moment)} {moments : List Moment}
  {metric : Metric} {ending : Cycle.Ending} {time : Timestamp}

theorem initial (steady : Steady (past ++ future)) : Steady past where
  reliable := fun moment member => steady.reliable moment (by simp [member])
  unique := fun moment member => steady.unique moment (by simp [member])
  answered := fun moments member => steady.answered moments (List.mem_append_left future member)
  positive := by
    intro time member
    apply steady.positive
    rw [List.flatten_append, List.map_append, Event.times_append]
    exact List.mem_append_left _ member
  ordered := by
    have whole := steady.ordered
    rw [List.flatten_append, List.map_append, Event.times_append] at whole
    exact (List.pairwise_append.mp whole).1

/-- A cycle reads the clock after the passes of earlier operations. -/
theorem time_le_now {course : Cycle.Course}
    (steady : Steady (past ++ moments :: future))
    (last : LastPass schedule past metric ending time) (goes : course.Goes schedule moments) :
    time ∈ Event.times ((past ++ moments :: future).flatten.map Moment.event) ∧
      time.millis.toInt ≤ course.now.millis.toInt := by
  have ordered := steady.ordered
  rw [List.flatten_append, List.flatten_cons, List.map_append, Event.times_append] at ordered ⊢
  refine ⟨List.mem_append_left _ last.time_mem, ?_⟩
  refine (List.pairwise_append.mp ordered).2.2 time last.time_mem course.now ?_
  obtain ⟨text?, passed, counted, reaped, count, -, -, -, -, -, rfl⟩ := goes
  rw [List.map_append, List.map_append, Moment.map_event_ofMain, Event.times_append,
    Event.times_append]
  exact List.mem_append_left _ (List.mem_append_left _ (List.mem_singleton_self course.now))

end Steady

theorem LastPass.ne_broken {schedule : Schedule} {operations : List (List Moment)}
    {metric : Metric} {ending : Cycle.Ending} {time : Timestamp}
    (last : LastPass schedule operations metric ending time)
    (steady : Steady operations) : ending ≠ .broken := by
  obtain ⟨past, own, future, course, index, rfl, goes, -, ended, -⟩ := last
  rintro rfl
  exact goes.not_broken (steady.answered own (by simp)) (List.mem_of_getElem? ended)

/-- The pause after a pass is over: the interval after one that succeeded, and the
backoff, but no more than the interval, after one that failed or was cut off. -/
def Cycle.Ending.PauseIsOver (schedule : Schedule) (metric : Metric) (ending : Cycle.Ending)
    (time now : Timestamp) : Prop :=
  (∃ report, ending = .finished (.ok report)) ∧
      (metric.interval.toNat : Int) ≤ now.millis.toInt - time.millis.toInt ∨
    ending.IsUnsuccessful ∧
      (min schedule.failureBackoff.millis metric.interval.toNat : Int) ≤
        now.millis.toInt - time.millis.toInt

/-- A metric is due by the marker of a pass when the pause after it is over. -/
theorem isDue_marker_iff {schedule : Schedule} {metric : Metric} {ending : Cycle.Ending}
    {time now : Timestamp} (unbroken : ending ≠ .broken) (positive : 0 < time.millis.toInt)
    (order : time.millis.toInt ≤ now.millis.toInt)
    (short : (metric.interval.toNat : Int) ≤ time.millis.toInt)
    (fits : schedule.failureBackoff.millis < UInt64.size) :
    Schedule.isDue (ending.marker schedule metric time) metric.interval now ↔
      ending.PauseIsOver schedule metric time now := by
  have failed := Schedule.isDue_failureMarker_iff order short fits
  match ending with
  | .finished (.ok report) =>
      have later : time ≠ Timestamp.epoch := by
        rintro rfl
        exact absurd positive (by decide)
      rw [Cycle.Ending.marker, Schedule.isDue_iff order (by omega)]
      simp [later, Cycle.Ending.PauseIsOver, Cycle.Ending.IsUnsuccessful]
  | .finished (.error error) =>
      refine Iff.trans failed ?_
      simp [Cycle.Ending.PauseIsOver, Cycle.Ending.IsUnsuccessful]
  | .timedOut =>
      refine Iff.trans failed ?_
      simp [Cycle.Ending.PauseIsOver, Cycle.Ending.IsUnsuccessful]
  | .broken => exact absurd rfl unbroken

/-- A cycle samples a definition that is the one of its last pass exactly if
there is no marker of its name or the pause after the last pass is over.  A name
that was never sampled has no marker in the beginning. -/
theorem sampled_iff {schedule : Schedule} {site : Site} {past future : List (List Moment)}
    {moments : List Moment} {earlier later : List Step} {course : Cycle.Course} {metric : Metric}
    (timeline : Timeline schedule site (past ++ moments :: future) (earlier ++ later))
    (steady : Steady (past ++ moments :: future))
    (before : Step.moments earlier = past.flatten)
    (goes : course.Goes schedule moments)
    (listed : metric ∈ course.metrics)
    (begun : site.contents.get? (Store.markerKey metric.name) = none ∨
      ∃ ending time, LastPass schedule past metric ending time)
    (unchanged : ∀ other ending time, LastPass schedule past other ending time →
      other.name = metric.name → other = metric)
    (short : ∀ time ∈ Event.times ((past ++ moments :: future).flatten.map Moment.event),
      (metric.interval.toNat : Int) ≤ time.millis.toInt)
    (fits : schedule.failureBackoff.millis < UInt64.size) :
    metric ∈ course.sampled ↔
      (site.afterSteps earlier).contents.get? (Store.markerKey metric.name) = none ∨
      ∃ ending time, LastPass schedule past metric ending time ∧
        ending.PauseIsOver schedule metric time course.now := by
  have tells : site.Tells schedule past (site.afterSteps earlier) :=
    .after_timeline (timeline.initial before) steady.initial
  obtain ⟨there, alike, lawful⟩ := timeline.exists_alike before
  have law : ∀ ending time, LastPass schedule past metric ending time →
      (Schedule.isDue (ending.marker schedule metric time) metric.interval course.now ↔
        ending.PauseIsOver schedule metric time course.now) := by
    intro ending time last
    obtain ⟨inAll, order⟩ := steady.time_le_now last goes
    exact isDue_marker_iff (last.ne_broken steady.initial) (steady.positive time inAll) order
      (short time inAll) fits
  rw [goes.mem_sampled_iff lawful listed,
    ← alike.contents _ (Store.markerKey_ne_metricsKey metric.name)]
  cases marked : (site.afterSteps earlier).contents.get? (Store.markerKey metric.name) with
  | none =>
      have never : Store.markerTime none = Timestamp.epoch := rfl
      simp [never, Schedule.isDue]
  | some text =>
      constructor
      · intro due
        obtain ⟨ending, time, last⟩ := tells.exists_lastPass marked begun unchanged
        rw [tells.markerTime_eq last marked] at due
        exact Or.inr ⟨ending, time, last, (law ending time last).mp due⟩
      · rintro (none | ⟨ending, time, last, passed⟩)
        · cases none
        · rw [tells.markerTime_eq last marked]
          exact (law ending time last).mpr passed

namespace Cycle.Example

open Sampling.Example (givenUp metric)

/-- A pass that is cut off before it did anything. -/
def cutOff (now : Timestamp) : List Event :=
  .deadline :: givenUp Schedule.standard metric now

theorem runs_cutOff (now : Timestamp) :
    PassRuns Schedule.standard metric (cutOff now) .timedOut := by
  obtain ⟨report, finishes⟩ := Sampling.Example.finishes_firstPass Schedule.standard (.ok ())
  have begins : Work.Begins (Sampling.pass Schedule.standard metric) [] := ⟨_, _, finishes⟩
  exact .timedOut (Or.inl begins) (Sampling.Example.finishes_givenUp _ _ now)

/-- A cycle in which the metric is sampled by the marker that it has, the end of its
pass is counted, and these keys of markers are found. -/
def alone (marker : Option String) (now : Timestamp) (events counted : List Event)
    (keys : List String) : List Moment :=
  Moment.ofMain [.store (.get Store.metricsKey) (.ok (some (Metric.listText [metric]))),
      .store (.getMany [Store.markerKey "m"]) (.ok [marker]), .clock now] ++
    (events.map (Moment.mk (.pass 0)) ++
      Moment.ofMain (counted ++
        ([.store (.scan Store.markerStart) (.ok keys)] ++ [.count .cycles 1])))

theorem goes_alone {marker : Option String} {now : Timestamp} {events counted : List Event}
    {ending : Ending} {keys : List String}
    (due : Schedule.isDue (Store.markerTime marker) 1000 now = true)
    (runs : PassRuns Schedule.standard metric events ending)
    (counts : Program.Finishes Work.Answered (countLost [ending]) counted ())
    (nobody : ((Text.Set.ofList (keys.filterMap Store.markerName?)).diff
      (Text.Set.ofList ([metric].map Metric.name))).toList = []) :
    Course.Goes Schedule.standard ⟨[metric], [marker], now, [metric], [ending]⟩
      (alone marker now events counted keys) := by
  have found := Store.get?_ofList_pairTimes (List.mem_singleton_self "m") fun _ => marker
  have sampled : [metric] = Schedule.dueMetrics [metric]
      (Text.Map.ofList (Store.pairTimes ["m"] [marker])) now := by
    refine (List.filter_eq_self.mpr ?_).symm
    intro other member
    obtain rfl := List.mem_singleton.mp member
    exact (congrArg (fun last => Schedule.isDue (last.getD Timestamp.epoch) 1000 now) found).trans
      due
  have reaps : Program.Finishes Work.Answered (reapAll Schedule.standard
      ((Text.Set.ofList (keys.filterMap Store.markerName?)).diff
        (Text.Set.ofList ([metric].map Metric.name))).toList) [] 0 := by
    rw [nobody]
    exact .done 0
  exact ⟨some (Metric.listText [metric]), _, counted, _, 0,
    Metric.ofListText?_listText [metric], sampled, .single runs, counts,
    finishes_reap_iff.mpr ⟨.ok keys, [], rfl, reaps⟩, rfl⟩

/-- A cycle in which the metric is sampled by the marker that it has, and cut
off. -/
def hurried (marker : Option String) (now : Timestamp) : List Moment :=
  alone marker now (cutOff now) [.count (.samples .timeout) 1] [Store.markerKey "m"]

theorem goes_hurried {marker : Option String} {now : Timestamp}
    (due : Schedule.isDue (Store.markerTime marker) 1000 now = true) :
    Course.Goes Schedule.standard ⟨[metric], [marker], now, [metric], [.timedOut]⟩
      (hurried marker now) := by
  have counts : Program.Finishes Work.Answered (countLost [.timedOut])
      [.count (.samples .timeout) 1] () :=
    Program.finishes_bind_iff.mpr ⟨_, (), [], Program.finishes_request_iff.mpr rfl, .done (), rfl⟩
  exact goes_alone due (runs_cutOff now) counts (by decide)

/-- The site where the metric is defined, and nothing else is there. -/
def defined : Site :=
  ⟨Text.Map.empty.insert Store.metricsKey (Metric.listText [metric]), Text.Map.empty⟩

/-- A cycle at this time, at the site where there is nothing but the definition. -/
def early : List Moment := hurried none (Timestamp.ofInt 2000)

/-- A cycle a second later. -/
def late : List Moment :=
  hurried (some (Schedule.failureMarker (Timestamp.ofInt 2000) 1000
    Schedule.standard.failureBackoff).decimal) (Timestamp.ofInt 3000)

theorem goes_early : Course.Goes Schedule.standard
    ⟨[metric], [none], Timestamp.ofInt 2000, [metric], [.timedOut]⟩ early :=
  goes_hurried (by decide)

theorem goes_late : Course.Goes Schedule.standard
    ⟨[metric], [some (Schedule.failureMarker (Timestamp.ofInt 2000) 1000
      Schedule.standard.failureBackoff).decimal], Timestamp.ofInt 3000, [metric], [.timedOut]⟩
    late := by
  refine goes_hurried ?_
  rw [Store.markerTime_decimal]
  decide

theorem timeline_late : Timeline Schedule.standard defined ([early] ++ late :: [])
    (early.map .poller ++ late.map .poller) where
  moments := rfl
  operations := by
    intro moments member
    simp only [List.cons_append, List.nil_append, List.mem_cons, List.not_mem_nil, or_false]
      at member
    rcases member with rfl | rfl
    · exact ⟨.cycle, trivial, goes_early.runs⟩
    · exact ⟨.cycle, trivial, goes_late.runs⟩
  changes := by
    intro index event member
    simp at member
  lawful := by
    repeat (first | exact trivial | refine ⟨rfl, ?_⟩ | refine ⟨trivial, ?_⟩)

theorem times_late : Event.times (([early] ++ late :: []).flatten.map Moment.event) =
    [Timestamp.ofInt 2000, Timestamp.ofInt 2000, Timestamp.ofInt 3000, Timestamp.ofInt 3000] :=
  rfl

theorem steady_late : Steady ([early] ++ late :: []) where
  reliable := by
    simp [early, late, hurried, alone, cutOff, givenUp, Moment.ofMain, Sampling.withdrawal,
      Sampling.refusedIds, Event.IsStoreFailure]
  unique := by
    simp [early, late, hurried, alone, cutOff, givenUp, Moment.ofMain, Sampling.withdrawal,
      Sampling.refusedIds, Event.LoadsUnique]
  answered := by
    simp [early, late, hurried, alone, cutOff, givenUp, Moment.ofMain, Sampling.withdrawal,
      Sampling.refusedIds]
  positive := by
    rw [times_late]
    decide
  ordered := by
    rw [times_late]
    decide

theorem eq_of_lastPass_early {other : Metric} {ending : Ending} {time : Timestamp}
    (last : LastPass Schedule.standard ([] ++ [early]) other ending time) : other = metric := by
  rcases last.cases_append with
    ⟨course, index, goes, found, -⟩ | ⟨⟨past, own, future, -, -, shape, -⟩, -⟩
  · rw [goes_early.sampled_unique goes] at found
    exact List.mem_singleton.mp (List.mem_of_getElem? found)
  · simp at shape

end Cycle.Example

open Cycle.Example (defined early late goes_late timeline_late steady_late times_late
  eq_of_lastPass_early)
open Sampling.Example (metric)

/-- The metric is sampled again one interval after its pass was cut off. -/
theorem sampled_late :
    metric ∈ [metric] ↔
      (defined.afterSteps (early.map .poller)).contents.get? (Store.markerKey metric.name) = none ∨
      ∃ ending time, LastPass Schedule.standard [early] metric ending time ∧
        ending.PauseIsOver Schedule.standard metric time (Timestamp.ofInt 3000) := by
  refine sampled_iff timeline_late steady_late rfl goes_late (by simp) (Or.inl rfl) ?_ ?_
    (by decide)
  · exact fun other ending time last _ => eq_of_lastPass_early last
  · rw [times_late]
    decide

end InventoryGauges
