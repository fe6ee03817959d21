import InventoryGauges.Proofs.Cycle.Timeline
import InventoryGauges.Proofs.Sampling.Marker

/-!
# Courses of cycles

What a cycle finds, which metrics it samples then, and which markers it leaves:
those of the passes that it runs, while all others stay or are removed.
-/

namespace InventoryGauges

namespace Cycle

/-- What a cycle found, and how the passes ended that it ran then. -/
structure Course where
  /-- The definitions that it loaded. -/
  metrics : List Metric
  /-- The markers of their names. -/
  markers : List (Option String)
  /-- The time of the clock. -/
  now : Timestamp
  /-- The metrics whose passes it ran. -/
  sampled : List Metric
  /-- How these passes ended. -/
  endings : List Ending

/-- A cycle may take this course in these moments, if its calls to the store
work. -/
def Course.Goes (schedule : Schedule) (course : Course) (moments : List Moment) : Prop :=
  ∃ text? passed counted reaped count,
    Store.metricsIn? text? = some course.metrics ∧
    course.sampled = Schedule.dueMetrics course.metrics
      (Text.Map.ofList (Store.pairTimes (course.metrics.map Metric.name) course.markers))
      course.now ∧
    SideBySide schedule course.sampled course.endings passed ∧
    Program.Finishes Work.Answered (countLost course.endings) counted () ∧
    Program.Finishes Work.Answered
      (reap schedule (Text.Set.ofList (course.metrics.map Metric.name))) reaped count ∧
    moments = Moment.ofMain [.store (.get Store.metricsKey) (.ok text?),
        .store (.getMany ((course.metrics.map Metric.name).map Store.markerKey))
          (.ok course.markers), .clock course.now] ++
      (passed ++ Moment.ofMain (counted ++ (reaped ++ [.count .cycles 1])))

variable {schedule : Schedule} {moments : List Moment} {events : List Event} {name : String}

/-- If no call to the store fails, a cycle takes its course, or it finds a list
of definitions that it cannot read. -/
theorem exists_course_of_runs (runs : Operation.cycle.Runs schedule moments)
    (reliable : ∀ moment ∈ moments, ¬ moment.event.IsStoreFailure) :
    (∃ course : Course, course.Goes schedule moments) ∨
      ∃ text?, Store.metricsIn? text? = none ∧
        moments = Moment.ofMain [.store (.get Store.metricsKey) (.ok text?),
          .count .cycles 1] := by
  obtain ⟨report, finishes⟩ := runs
  obtain ⟨done, does, rfl⟩ := finishes_cycle_iff.mp finishes
  obtain ⟨answer, others, rfl, continues⟩ := finishes_body_iff.mp does
  cases read : Store.reading Store.metricsKey Store.metricsIn? answer with
  | error error =>
      rw [read] at continues
      obtain ⟨rfl, -⟩ := continues
      obtain ⟨text?, rfl⟩ := Event.exists_ok_of_works
        (fun fails => reliable _
          (List.mem_append_left _ (List.mem_append_left [] List.mem_cons_self))
          (Event.isStoreFailure_of_isFailureAt fails)) (List.mem_singleton_self Store.metricsKey)
      refine Or.inr ⟨text?, ?_, rfl⟩
      refine Option.eq_none_iff_forall_ne_some.mpr fun metrics decoded => ?_
      rw [Store.reading_eq_ok_iff.mpr ⟨text?, rfl, decoded⟩] at read
      cases read
  | ok metrics =>
      rw [read] at continues
      obtain ⟨sampled, sampling, reaped, count, samples, reaps, rfl, -⟩ := continues
      obtain ⟨given, later, rfl, continues⟩ := samples
      obtain ⟨text?, rfl, decoded⟩ := Store.reading_eq_ok_iff.mp read
      left
      cases given with
      | error error =>
          have member : ⟨.main, .store (.getMany ((metrics.map Metric.name).map Store.markerKey))
              (.error error)⟩ ∈ Moment.ofMain [.store (.get Store.metricsKey) (.ok text?)] ++
                (Moment.ofMain [.store (.getMany ((metrics.map Metric.name).map Store.markerKey))
                  (.error error)] ++ later ++ Moment.ofMain reaped) ++
                    Moment.ofMain [.count .cycles 1] := by
            simp [Moment.ofMain]
          exact absurd trivial (reliable _ member)
      | ok markers =>
          obtain ⟨now, passing, endings, samplesAll, rfl, -⟩ := continues
          obtain ⟨passed, counted, aside, counts, rfl⟩ := finishes_sampleAll_iff.mp samplesAll
          exact ⟨⟨metrics, markers, now, _, endings⟩, text?, passed, counted, reaped, count,
            decoded, rfl, aside, counts, reaps, by simp [Moment.ofMain]⟩

/-- If no call to the store fails and the definitions that are stored can be read, a
cycle takes its course with them. -/
theorem exists_course_of_decoded {site : Site} {metrics : List Metric}
    (runs : Operation.cycle.Runs schedule moments)
    (lawful : site.Lawful (moments.map Moment.event))
    (reliable : ∀ moment ∈ moments, ¬ moment.event.IsStoreFailure)
    (decoded : Store.metricsIn? (site.contents.get? Store.metricsKey) = some metrics) :
    ∃ course : Course, course.Goes schedule moments ∧ course.metrics = metrics := by
  rcases exists_course_of_runs runs reliable with ⟨course, goes⟩ | ⟨text?, unreadable, rfl⟩
  · refine ⟨course, goes, ?_⟩
    obtain ⟨text?, _, _, _, _, loaded, -, -, -, -, rfl⟩ := goes
    obtain rfl : text? = site.contents.get? Store.metricsKey := lawful.1
    exact Option.some.inj (loaded.symm.trans decoded)
  · obtain rfl : text? = site.contents.get? Store.metricsKey := lawful.1
    rw [unreadable] at decoded
    cases decoded

/-- What a cycle samples is told by its moments. -/
theorem Course.Goes.sampled_unique {course other : Course} (goes : course.Goes schedule moments)
    (goesToo : other.Goes schedule moments) : other.sampled = course.sampled := by
  obtain ⟨text?, passed, counted, reaped, count, decoded, due, -, -, -, rfl⟩ := goes
  obtain ⟨found?, _, _, _, _, decodedToo, dueToo, -, -, -, equal⟩ := goesToo
  have opening := (List.append_inj equal rfl).1
  simp only [Moment.ofMain, List.map_cons, List.map_nil, List.cons.injEq, Moment.mk.injEq,
    Event.store.injEq, Event.clock.injEq, true_and, and_true] at opening
  obtain ⟨found, ⟨-, markers⟩, now⟩ := opening
  obtain rfl : text? = found? := Except.ok.inj (eq_of_heq found)
  have markers : course.markers = other.markers := Except.ok.inj (eq_of_heq markers)
  rw [due, dueToo, Option.some.inj (decoded.symm.trans decodedToo), markers, now]

/-- Where names are loaded that are unique, those of the sampled metrics are. -/
theorem Course.Goes.nodup {course : Course} (goes : course.Goes schedule moments)
    (unique : ∀ moment ∈ moments, moment.event.LoadsUnique) :
    (course.metrics.map Metric.name).Nodup := by
  obtain ⟨text?, passed, counted, reaped, count, decoded, due, -, -, -, rfl⟩ := goes
  cases text? with
  | none =>
      rw [← Option.some.inj decoded]
      exact List.nodup_nil
  | some text =>
      exact unique _ (List.mem_append_left _ List.mem_cons_self) rfl _ decoded

theorem eq_none_of_written?_reapMetric {removed : Bool} {value? : Option String}
    (finishes : Program.Finishes Work.Answered (reapMetric schedule name) events removed)
    {event : Event} (member : event ∈ events)
    (writes : event.written? (Store.markerKey name) = some value?) : value? = none := by
  rcases cases_of_finishes_reapMetric finishes with
    ⟨error, -, rfl, -⟩ | ⟨answer, ended, given, -, -, rfl, -⟩
  · obtain rfl := List.mem_singleton.mp member
    cases writes
  · rcases List.mem_append.mp member with opening | last
    · rw [Sampling.written?_of_mem_read_withdrawal _ event opening] at writes
      cases writes
    · obtain rfl := List.mem_singleton.mp last
      rw [removalWrite] at writes
      split at writes
      · cases given with
        | error error => cases writes
        | ok done =>
            rw [Event.written?, Store.Call.written?, if_pos (by simp)] at writes
            exact (Option.some.inj writes).symm
      · rw [Event.written?_set_of_ne (Store.markerKey_ne_relatedKey name name)] at writes
        cases writes

theorem eq_none_of_written?_reapAll {names : List String} {reaped : Nat} {value? : Option String}
    (finishes : Program.Finishes Work.Answered (reapAll schedule names) events reaped)
    {event : Event} (member : event ∈ events)
    (writes : event.written? (Store.markerKey name) = some value?) :
    value? = none ∧ name ∈ names := by
  induction names generalizing events reaped with
  | nil =>
      obtain ⟨rfl, -⟩ := Program.finishes_done_iff.mp finishes
      cases member
  | cons first names hypothesis =>
      obtain ⟨own, removed, last, others, reaps, reapsAll, rfl, -⟩ :=
        finishes_reapAll_cons_iff.mp finishes
      rcases List.mem_append.mp member with early | later
      · rcases List.mem_append.mp early with inOwn | counted
        · by_cases same : name = first
          · subst same
            exact ⟨eq_none_of_written?_reapMetric reaps inOwn writes, List.mem_cons_self⟩
          · have within := within_of_finishes_reapMetric reaps event inOwn
            rw [Event.written?_of_within within
              fun theirs => same (Store.eq_of_isKeyOf (Or.inl rfl) theirs)] at writes
            cases writes
        · cases removed with
          | true =>
              obtain rfl := List.mem_singleton.mp counted
              cases writes
          | false => cases counted
      · obtain ⟨none, listed⟩ := hypothesis reapsAll later
        exact ⟨none, List.mem_cons_of_mem first listed⟩

/-- Reaping writes no marker but removes those of names that are not active. -/
theorem eq_none_of_written?_reap {active : Text.Set} {reaped : Nat} {value? : Option String}
    (finishes : Program.Finishes Work.Answered (reap schedule active) events reaped)
    {event : Event} (member : event ∈ events)
    (writes : event.written? (Store.markerKey name) = some value?) :
    value? = none ∧ ¬ name ∈ active := by
  obtain ⟨answer, others, rfl, continues⟩ := finishes_reap_iff.mp finishes
  rcases List.mem_cons.mp member with rfl | later
  · cases answer <;> cases writes
  · cases answer with
    | error error => exact absurd (continues.1 ▸ later) List.not_mem_nil
    | ok keys =>
        obtain ⟨none, listed⟩ := eq_none_of_written?_reapAll continues later writes
        exact ⟨none, (Text.Set.mem_diff.mp listed).2⟩

/-- A purge writes no marker but removes them. -/
theorem eq_none_of_written?_purge {result : Except PurgeError Nat} {value? : Option String}
    (finishes : Program.Finishes Work.Answered purge events result) {event : Event}
    (member : event ∈ events) (writes : event.written? (Store.markerKey name) = some value?) :
    value? = none := by
  obtain ⟨answer, others, rfl, continues⟩ := finishes_purge_iff.mp finishes
  rcases List.mem_cons.mp member with rfl | later
  · cases writes
  · cases answer with
    | error error => exact absurd (continues.1 ▸ later) List.not_mem_nil
    | ok accepted =>
        obtain ⟨forgotten, forgets, -⟩ := continues
        rcases cases_of_finishes_forget forgets event later with
          ⟨answer, rfl⟩ | ⟨other, answer, rfl⟩
        · cases answer <;> cases writes
        · cases answer with
          | error error => cases writes
          | ok done =>
              rw [Event.written?, Store.Call.written?] at writes
              split at writes
              · exact (Option.some.inj writes).symm
              · cases writes

namespace Course.Goes

variable {course : Course} {site : Site}

/-- What goes like this is a cycle. -/
theorem runs (goes : course.Goes schedule moments) : Operation.cycle.Runs schedule moments := by
  obtain ⟨text?, passed, counted, reaped, count, decoded, due, aside, counts, reaps, rfl⟩ := goes
  have passes := finishes_sampleAll_iff.mpr ⟨passed, counted, aside, counts, rfl⟩
  rw [due] at passes
  have read : Store.reading Store.metricsKey Store.metricsIn? (.ok text?) = .ok course.metrics :=
    Store.reading_eq_ok_iff.mpr ⟨text?, rfl, decoded⟩
  obtain ⟨sampling, samples⟩ : ∃ sampling, Samples schedule course.metrics
      (Moment.ofMain [.store (.getMany ((course.metrics.map Metric.name).map Store.markerKey))
        (.ok course.markers)] ++
          (Moment.ofMain [.clock course.now] ++ (passed ++ Moment.ofMain counted))) sampling :=
    ⟨_, .ok course.markers, _, rfl, course.now, _, course.endings, passes, rfl, rfl⟩
  have shape : Moment.ofMain [.store (.get Store.metricsKey) (.ok text?),
        .store (.getMany ((course.metrics.map Metric.name).map Store.markerKey))
          (.ok course.markers), .clock course.now] ++
        (passed ++ Moment.ofMain (counted ++ (reaped ++ [.count .cycles 1]))) =
      Moment.ofMain [.store (.get Store.metricsKey) (.ok text?)] ++
        (Moment.ofMain [.store (.getMany ((course.metrics.map Metric.name).map Store.markerKey))
          (.ok course.markers)] ++
            (Moment.ofMain [.clock course.now] ++ (passed ++ Moment.ofMain counted)) ++
              Moment.ofMain reaped) ++ Moment.ofMain [.count .cycles 1] := by
    simp [Moment.ofMain]
  refine ⟨{ sampling with reaped := count }, finishes_cycle_iff.mpr
    ⟨_, finishes_body_iff.mpr ⟨.ok text?, _, rfl, ?_⟩, shape⟩⟩
  rw [read]
  exact ⟨_, sampling, reaped, count, samples, reaps, rfl, rfl⟩

theorem sampled_sublist (goes : course.Goes schedule moments) :
    course.sampled.Sublist course.metrics := by
  obtain ⟨_, _, _, _, _, _, due, -⟩ := goes
  rw [due]
  exact List.filter_sublist

theorem exists_ending (goes : course.Goes schedule moments) {index : Nat} {metric : Metric}
    (found : course.sampled[index]? = some metric) :
    ∃ ending, course.endings[index]? = some ending := by
  obtain ⟨_, passed, _, _, _, _, _, aside, -⟩ := goes
  exact ⟨_, List.getElem?_eq_getElem (aside.lengths ▸ (List.getElem?_eq_some_iff.mp found).1)⟩

/-- If each query is answered or cut off, no pass breaks down. -/
theorem not_broken (goes : course.Goes schedule moments)
    (answered : ∀ moment ∈ moments, ∀ className filter,
      moment.event = .unanswered className filter → ⟨moment.actor, .deadline⟩ ∈ moments) :
    ¬ .broken ∈ course.endings := by
  intro member
  obtain ⟨index, ended⟩ := List.getElem?_of_mem member
  obtain ⟨text?, passed, counted, reaped, count, -, -, aside, -, -, rfl⟩ := goes
  have found : course.sampled[index]? = some _ :=
    List.getElem?_eq_getElem (aside.lengths ▸ (List.getElem?_eq_some_iff.mp ended).1)
  have events := (aside.passes index _ _ found ended).events_of_broken
  have asked := Moment.mem_eventsOf.mp (events ▸ List.mem_singleton_self _)
  have cut := Moment.mem_eventsOf.mpr
    (answered _ (List.mem_append_right _ (List.mem_append_left _ asked)) _ _ rfl)
  rw [Moment.eventsOf_append, Moment.eventsOf_append, Moment.eventsOf_pass_ofMain,
    Moment.eventsOf_pass_ofMain, List.nil_append, List.append_nil, events] at cut
  cases List.mem_singleton.mp cut

/-- Each metric that is sampled has a pass. -/
theorem passRuns (goes : course.Goes schedule moments) {index : Nat} {metric : Metric}
    {ending : Ending} (found : course.sampled[index]? = some metric)
    (ended : course.endings[index]? = some ending) :
    PassRuns schedule metric (Moment.eventsOf (.pass index) moments) ending := by
  obtain ⟨text?, passed, counted, reaped, count, -, -, aside, -, -, rfl⟩ := goes
  rw [Moment.eventsOf_append, Moment.eventsOf_append, Moment.eventsOf_pass_ofMain,
    Moment.eventsOf_pass_ofMain, List.nil_append, List.append_nil]
  exact aside.passes index metric ending found ended

/-- Where names are unique, nothing but its pass writes the marker of a metric that
is sampled. -/
theorem written?_marker_of_foreign (goes : course.Goes schedule moments)
    (unique : ∀ moment ∈ moments, moment.event.LoadsUnique) {index : Nat} {metric : Metric}
    (found : course.sampled[index]? = some metric) {moment : Moment} (member : moment ∈ moments)
    (foreign : moment.actor ≠ .pass index) :
    moment.event.written? (Store.markerKey metric.name) = none := by
  have sublist := goes.sampled_sublist
  have distinct := goes.nodup unique
  obtain ⟨text?, passed, counted, reaped, count, -, -, aside, counts, reaps, rfl⟩ := goes
  rcases List.mem_append.mp member with opening | later
  · simp only [Moment.ofMain, List.map_cons, List.map_nil, List.mem_cons, List.not_mem_nil,
      or_false] at opening
    rcases opening with rfl | rfl | rfl <;> rfl
  · rcases List.mem_append.mp later with passing | closing
    · exact aside.untouched (distinct.sublist (sublist.map Metric.name)) found passing foreign
        (Or.inl rfl)
    · obtain ⟨event, inClosing, rfl⟩ := List.mem_map.mp closing
      rcases List.mem_append.mp inClosing with counting | ending
      · obtain ⟨counter, amount, rfl⟩ := exists_count_of_finishes_countLost counts event counting
        rfl
      · rcases List.mem_append.mp ending with reaping | observed
        · refine Option.eq_none_iff_forall_ne_some.mpr fun value? writes => ?_
          exact (eq_none_of_written?_reap reaps reaping writes).2 (Text.Set.mem_ofList.mpr
            (List.mem_map_of_mem (sublist.subset (List.mem_of_getElem? found))))
        · obtain rfl := List.mem_singleton.mp observed
          rfl

/-- A cycle marks the metrics that it samples, each at the time that its pass
read last. -/
theorem exists_time_of_sampled (goes : course.Goes schedule moments) (site : Site)
    (reliable : ∀ moment ∈ moments, ¬ moment.event.IsStoreFailure)
    (unique : ∀ moment ∈ moments, moment.event.LoadsUnique) {index : Nat} {metric : Metric}
    {ending : Ending} (found : course.sampled[index]? = some metric)
    (ended : course.endings[index]? = some ending) (unbroken : ending ≠ .broken) :
    ∃ time, (Event.times (Moment.eventsOf (.pass index) moments)).getLast? = some time ∧
      (site.afterAll (moments.map Moment.event)).contents.get? (Store.markerKey metric.name) =
        some (ending.marker schedule metric time).decimal := by
  have agree : site.contents.get? (Store.markerKey metric.name) =
      site.contents.get? (Store.markerKey metric.name) := rfl
  rw [← Site.get?_contents_eventsOf (fun moment => goes.written?_marker_of_foreign unique found)
    agree]
  refine ((goes.passRuns found ended).marks unbroken).exists_time site ?_
  intro event member fails
  exact reliable _ (Moment.mem_eventsOf.mp member) (Event.isStoreFailure_of_isFailureAt fails)

end Course.Goes

/-- An operation of the poller that does not sample a name leaves its marker, or
removes it. -/
theorem marker_of_not_sampled {operation : Operation} {site : Site}
    (runs : operation.Runs schedule moments) (polling : operation.IsPolling)
    (reliable : ∀ moment ∈ moments, ¬ moment.event.IsStoreFailure)
    (absent : ∀ course : Course, course.Goes schedule moments →
      ¬ name ∈ course.sampled.map Metric.name) :
    (site.afterAll (moments.map Moment.event)).contents.get? (Store.markerKey name) =
        site.contents.get? (Store.markerKey name) ∨
      (site.afterAll (moments.map Moment.event)).contents.get? (Store.markerKey name) = none := by
  suffices removes : ∀ moment ∈ moments, ∀ value?,
      moment.event.written? (Store.markerKey name) = some value? → value? = none by
    refine Site.get?_contents_afterAll_induct (P := fun value? =>
      value? = site.contents.get? (Store.markerKey name) ∨ value? = none) (Or.inl rfl) ?_
    intro event member value? writes
    obtain ⟨moment, inMoments, rfl⟩ := List.mem_map.mp member
    exact Or.inr (removes moment inMoments value? writes)
  intro moment member value? writes
  cases operation with
  | cycle =>
      rcases exists_course_of_runs runs reliable with ⟨course, goes⟩ | ⟨text?, -, rfl⟩
      · have others := absent course goes
        obtain ⟨text?, passed, counted, reaped, count, -, -, aside, counts, reaps, rfl⟩ := goes
        rcases List.mem_append.mp member with opening | later
        · simp only [Moment.ofMain, List.map_cons, List.map_nil, List.mem_cons, List.not_mem_nil,
            or_false] at opening
          rcases opening with rfl | rfl | rfl <;> cases writes
        · rcases List.mem_append.mp later with passing | closing
          · obtain ⟨index, metric, -, found, does⟩ := aside.does passing
            rw [Event.written?_of_within does.within] at writes
            · cases writes
            · intro own
              obtain rfl := Store.eq_of_isKeyOf own (Or.inl rfl)
              exact others (List.mem_map_of_mem (List.mem_of_getElem? found))
          · obtain ⟨event, found, rfl⟩ := List.mem_map.mp closing
            rcases List.mem_append.mp found with counting | ending
            · obtain ⟨counter, amount, rfl⟩ :=
                exists_count_of_finishes_countLost counts event counting
              cases writes
            · rcases List.mem_append.mp ending with reaping | observed
              · exact (eq_none_of_written?_reap reaps reaping writes).1
              · obtain rfl := List.mem_singleton.mp observed
                cases writes
      · simp only [Moment.ofMain, List.map_cons, List.map_nil, List.mem_cons, List.not_mem_nil,
          or_false] at member
        rcases member with rfl | rfl <;> cases writes
  | purge =>
      obtain ⟨events, result, finishes, rfl⟩ := runs
      obtain ⟨event, found, rfl⟩ := List.mem_map.mp member
      exact eq_none_of_written?_purge finishes found writes
  | add metric => exact polling.elim
  | delete name => exact polling.elim

end Cycle
end InventoryGauges
