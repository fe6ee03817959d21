import InventoryGauges.Proofs.Sampling.Counted
import InventoryGauges.Proofs.Sampling.Outcome

/-!
# Passes without samples

Whatever fails while a pass gives up, the error that it returns is the one of
its query, and all that it leaves behind in the store is a marker.
-/

namespace InventoryGauges

/-- Events that need no answer of the store may always happen. -/
theorem Site.lawful_of_admits {events : List Event}
    (admits : ∀ event ∈ events, ∀ site : Site, site.Admits event) (site : Site) :
    site.Lawful events := by
  induction events generalizing site with
  | nil => trivial
  | cons event events hypothesis =>
      exact ⟨admits event List.mem_cons_self site,
        hypothesis (fun other member => admits other (List.mem_cons_of_mem event member)) _⟩

namespace Sampling

open Work (Answered)

theorem lawful_withdrawal (ended : List Gateway.Ended) (site : Site) :
    site.Lawful (withdrawal ended) := by
  refine Site.lawful_of_admits (fun event member site => ?_) site
  rcases called_or_counted member with ⟨_, _, rfl⟩ | ⟨_, _, rfl⟩ <;> trivial

theorem not_isFailureAt_of_mem_withdrawal {ended : List Gateway.Ended} {event : Event}
    (key : String) (member : event ∈ withdrawal ended) : ¬ event.IsFailureAt key := by
  rcases called_or_counted member with ⟨_, _, rfl⟩ | ⟨_, _, rfl⟩ <;> exact id

theorem times_withdrawal (ended : List Gateway.Ended) : Event.times (withdrawal ended) = [] := by
  refine Event.times_eq_nil fun event member => ?_
  rcases called_or_counted member with ⟨_, _, rfl⟩ | ⟨_, _, rfl⟩ <;> rfl

variable {schedule : Schedule} {metric : Metric} {events : List Event} {site : Site}

/-- What a pass gives up withdraws: nothing if the identities cannot be read, and
else each gauge that is recorded. -/
theorem asked_of_finishes_withdrawPublished
    (finishes : Program.Finishes Answered (withdrawPublished schedule metric) events ())
    (lawful : site.Lawful events) :
    ((∃ event ∈ events, event.IsFailureAt (Store.relatedKey metric.name)) →
      Event.asked events = []) ∧
    ((∀ event ∈ events, ¬ event.IsFailureAt (Store.relatedKey metric.name)) →
      (Event.asked events).Perm
        (((site.recorded? metric.name).getD Text.Set.empty).toList.map .delete)) := by
  obtain ⟨answer, others, rfl, continues⟩ := finishes_withdrawPublished_iff.mp finishes
  rw [Event.asked_cons_of_none rfl]
  cases answer with
  | error error =>
      obtain rfl := continues
      exact ⟨fun _ => rfl, fun works => absurd List.mem_cons_self (works _ List.mem_cons_self)⟩
  | ok text? =>
      have stored : site.recorded? metric.name = Store.idsIn? text? :=
        congrArg Store.idsIn? lawful.1.symm
      rw [stored]
      rw [Store.reading] at continues
      cases decoded : Store.idsIn? text? with
      | none =>
          rw [decoded] at continues
          obtain rfl := continues
          exact ⟨fun _ => rfl, fun _ => .nil⟩
      | some ids =>
          rw [decoded] at continues
          obtain ⟨ended, same, rfl⟩ := continues
          constructor
          · rintro ⟨event, member, fails⟩
            rcases List.mem_cons.mp member with rfl | withdrawn
            · exact fails.elim
            · exact absurd fails (not_isFailureAt_of_mem_withdrawal _ withdrawn)
          · intro _
            rw [asked_withdrawal]
            exact same

/-- What a pass comes to that gets no samples, from the site where it begins. -/
structure GivesUp (schedule : Schedule) (metric : Metric) (site : Site) (events : List Event) :
    Prop where
  /-- If the identities cannot be read, then it makes no call to the gateway. -/
  asked_of_failure : (∃ event ∈ events, event.IsFailureAt (Store.relatedKey metric.name)) →
    Event.asked events = []
  /-- Else its calls are to withdraw each recorded gauge once. -/
  asked_of_works : (∀ event ∈ events, ¬ event.IsFailureAt (Store.relatedKey metric.name)) →
    (Event.asked events).Perm
      (((site.recorded? metric.name).getD Text.Set.empty).toList.map .delete)
  /-- It leaves all other keys alone. -/
  keeps : ∀ key, key ≠ Store.markerKey metric.name →
    (site.afterAll events).contents.get? key = site.contents.get? key
  /-- It reads the clock once, and marks the metric by that if marking works. -/
  marks : ∃ now, Event.times events = [now] ∧
    ((∀ event ∈ events, ¬ event.IsFailureAt (Store.markerKey metric.name)) →
      (site.afterAll events).contents.get? (Store.markerKey metric.name) =
        some (Schedule.failureMarker now metric.interval schedule.failureBackoff).decimal)
  /-- It counts one failure, and no other outcome. -/
  counts : ∀ outcome, Event.totalRaised (.samples outcome) events =
    if outcome = .failure then 1 else 0

theorem times_of_finishes_giveUp
    (finishes : Program.Finishes Answered (giveUp schedule metric) events ()) :
    ∃ now, Event.times events = [now] := by
  obtain ⟨_, _, withdraws, records, rfl⟩ := finishes_giveUp_iff.mp finishes
  obtain ⟨now, marked, rfl⟩ := finishes_recordFailure_iff.mp records
  obtain ⟨answer, others, rfl, continues⟩ := finishes_withdrawPublished_iff.mp withdraws
  have quiet : Event.times others = [] := by
    generalize Store.reading (Store.relatedKey metric.name) Store.idsIn? answer = outcome
      at continues
    cases outcome with
    | error error =>
        obtain rfl := continues
        rfl
    | ok ids =>
        obtain ⟨ended, -, rfl⟩ := continues
        exact times_withdrawal ended
  refine ⟨now, ?_⟩
  rw [List.cons_append, Event.times_cons_of_none rfl, Event.times_append, quiet]
  rfl

/-- A failure to mark is none to read the identities. -/
theorem not_isFailureAt_relatedKey_of_recorded {now : Timestamp} {text : String}
    {marked : Except Store.Error Unit} {event : Event}
    (member : event ∈ [.clock now, .store (.set (Store.markerKey metric.name) text) marked]) :
    ¬ event.IsFailureAt (Store.relatedKey metric.name) := by
  intro fails
  simp only [List.mem_cons, List.not_mem_nil, or_false] at member
  rcases member with rfl | rfl
  · exact fails
  · cases marked with
    | error error =>
        have same : Store.relatedKey metric.name = Store.markerKey metric.name :=
          List.mem_singleton.mp fails
        exact Store.markerKey_ne_relatedKey _ _ same.symm
    | ok done => exact fails

theorem asked_of_finishes_giveUp
    (finishes : Program.Finishes Answered (giveUp schedule metric) events ())
    (lawful : site.Lawful events) :
    ((∃ event ∈ events, event.IsFailureAt (Store.relatedKey metric.name)) →
      Event.asked events = []) ∧
    ((∀ event ∈ events, ¬ event.IsFailureAt (Store.relatedKey metric.name)) →
      (Event.asked events).Perm
        (((site.recorded? metric.name).getD Text.Set.empty).toList.map .delete)) := by
  obtain ⟨withdrawn, _, withdraws, records, rfl⟩ := finishes_giveUp_iff.mp finishes
  obtain ⟨now, marked, rfl⟩ := finishes_recordFailure_iff.mp records
  obtain ⟨asksNone, asksAll⟩ :=
    asked_of_finishes_withdrawPublished withdraws (Site.lawful_append.mp lawful).1
  have silent : Event.asked [.clock now, .store (.set (Store.markerKey metric.name)
      (Schedule.failureMarker now metric.interval schedule.failureBackoff).decimal) marked] = [] :=
    rfl
  rw [Event.asked_append, silent, List.append_nil]
  constructor
  · rintro ⟨event, member, fails⟩
    rcases List.mem_append.mp member with early | late
    · exact asksNone ⟨event, early, fails⟩
    · exact absurd fails (not_isFailureAt_relatedKey_of_recorded late)
  · exact fun works => asksAll fun event member => works event (List.mem_append_left _ member)

/-- Gauges may be withdrawn with any refusals. -/
def withdrawn (refuse : String → Gateway.Answer) (ids : List String) : List Gateway.Ended :=
  ids.map fun id => (.delete id, refuse id)

theorem perm_withdrawn (refuse : String → Gateway.Answer) (ids : List String) :
    ((withdrawn refuse ids).map Prod.fst).Perm (ids.map .delete) := by
  rw [withdrawn, List.map_map]
  exact .refl _

theorem eq_refuse_of_mem_withdrawn {refuse : String → Gateway.Answer} {ids : List String}
    {id : String} {given : Gateway.Answer}
    (member : .gateway (.delete id) given ∈ withdrawal (withdrawn refuse ids)) :
    given = refuse id := by
  obtain ⟨other, -, equal⟩ := List.mem_map.mp (delete_mem_withdrawal_iff.mp member)
  cases equal
  rfl

/-- Whatever is read and refused, what is recorded is withdrawn. -/
theorem exists_finishes_withdrawPublished (schedule : Schedule) (metric : Metric)
    (answer : Except Store.Error (Option String)) (refuse : String → Gateway.Answer) :
    ∃ rest, Program.Finishes Answered (withdrawPublished schedule metric)
        (.store (.get (Store.relatedKey metric.name)) answer :: rest) () ∧
      (∀ site : Site, site.Lawful rest) ∧
      ∀ id given, .gateway (.delete id) given ∈ rest → given = refuse id := by
  cases outcome : Store.reading (Store.relatedKey metric.name) Store.idsIn? answer with
  | error error =>
      refine ⟨[], finishes_withdrawPublished_iff.mpr ⟨answer, [], rfl, ?_⟩, fun _ => trivial, nofun⟩
      rw [outcome]
  | ok ids =>
      refine ⟨withdrawal (withdrawn refuse ids.toList),
        finishes_withdrawPublished_iff.mpr ⟨answer, _, rfl, ?_⟩, lawful_withdrawal _,
        fun id given => eq_refuse_of_mem_withdrawn⟩
      rw [outcome]
      exact ⟨_, perm_withdrawn refuse ids.toList, rfl⟩

theorem exists_finishes_giveUp (schedule : Schedule) (metric : Metric) (site : Site)
    (readable : Except Store.Error Unit) (refuse : String → Gateway.Answer) (now : Timestamp)
    (marked : Except Store.Error Unit) :
    ∃ cleaned, Program.Finishes Answered (giveUp schedule metric) cleaned () ∧
      site.Lawful cleaned ∧
      .store (.get (Store.relatedKey metric.name))
        (readable.map fun () => site.contents.get? (Store.relatedKey metric.name)) ∈ cleaned ∧
      (∀ id given, .gateway (.delete id) given ∈ cleaned → given = refuse id) ∧
      .clock now ∈ cleaned ∧
      .store (.set (Store.markerKey metric.name)
        (Schedule.failureMarker now metric.interval schedule.failureBackoff).decimal) marked ∈
          cleaned := by
  obtain ⟨rest, withdraws, lawful, refused⟩ := exists_finishes_withdrawPublished schedule metric
    (readable.map fun () => site.contents.get? (Store.relatedKey metric.name)) refuse
  refine ⟨_, finishes_giveUp_iff.mpr ⟨_, _, withdraws,
    finishes_recordFailure_iff.mpr ⟨now, marked, rfl⟩, rfl⟩, ?_, ?_, ?_, ?_, ?_⟩
  · refine Site.lawful_append.mpr ⟨⟨?_, lawful _⟩, trivial, ?_, trivial⟩
    · cases readable with
      | error error => trivial
      | ok done => rfl
    · cases marked with
      | error error => trivial
      | ok done => rfl
  · simp
  · intro id given member
    simp only [List.mem_append, List.mem_cons, List.not_mem_nil, or_false, reduceCtorEq,
      false_or] at member
    exact refused id given member
  · simp
  · simp

section Failed

variable {answer : Except Inventory.Error (List Inventory.Object)} {error : Error}
  (fails : extracted metric answer = .error error)
include fails

/-- A pass whose query gives no samples returns why, whatever else fails. -/
theorem givesUp_of_finishes {others : List Event} {result : Except Error Report}
    (finishes : Program.Finishes Answered (pass schedule metric)
      (.query metric.className metric.queryFilter answer :: others) result)
    (lawful : site.Lawful (.query metric.className metric.queryFilter answer :: others)) :
    result = .error error ∧ GivesUp schedule metric site
      (.query metric.className metric.queryFilter answer :: others) := by
  have apart (outcome : Outcome) : ¬ (Counter.samples outcome).IsOfGauges := id
  have counted (outcome : Outcome) := totalRaised_of_finishes_pass (apart outcome) finishes
  obtain ⟨given, rest, equal, continues⟩ := finishes_pass_iff.mp finishes
  cases equal
  rw [fails] at continues
  obtain ⟨cleaned, cleans, rfl, rfl⟩ := continues
  obtain ⟨asksNone, asksAll⟩ :=
    asked_of_finishes_giveUp cleans (Site.lawful_append.mp lawful.2).1
  have asked : Event.asked (.query metric.className metric.queryFilter answer ::
      (cleaned ++ [.count (.samples .failure) 1])) = Event.asked cleaned := by
    rw [Event.asked_cons_of_none rfl, Event.asked_append]
    exact List.append_nil _
  refine ⟨rfl, ?_⟩
  exact {
    asked_of_failure := by
      rintro ⟨event, member, failsAt⟩
      rw [asked]
      simp only [List.mem_cons, List.mem_append, List.not_mem_nil, or_false] at member
      rcases member with rfl | cleaning | rfl
      · exact failsAt.elim
      · exact asksNone ⟨event, cleaning, failsAt⟩
      · exact failsAt.elim
    asked_of_works := by
      intro works
      rw [asked]
      exact asksAll fun event member =>
        works event (List.mem_cons_of_mem _ (List.mem_append_left _ member))
    keeps := by
      intro key different
      refine Site.get?_contents_afterAll fun event member => ?_
      simp only [List.mem_cons, List.mem_append, List.not_mem_nil, or_false] at member
      rcases member with rfl | cleaning | rfl
      · rfl
      · exact written?_of_giveUp different cleans event cleaning
      · rfl
    marks := by
      have marks := ((marks_of_finishes_giveUp cleans).append_count (.samples .failure) 1).prepend
        [.query metric.className metric.queryFilter answer]
      obtain ⟨now, once⟩ := times_of_finishes_giveUp cleans
      have times : Event.times (.query metric.className metric.queryFilter answer ::
          (cleaned ++ [.count (.samples .failure) 1])) = [now] := by
        rw [Event.times_cons_of_none rfl, Event.times_append, once]
        rfl
      refine ⟨now, times, fun works => ?_⟩
      obtain ⟨time, last, marked⟩ := marks.exists_time site works
      rw [List.singleton_append, times] at last
      obtain rfl := Option.some.inj last
      exact marked
    counts := by
      intro outcome
      rw [counted outcome]
      cases outcome <;> rfl }

/-- Whatever the store and the gateway answer, such a pass comes to its end. -/
theorem exists_finishes_of_failed (schedule : Schedule) (site : Site)
    (readable : Except Store.Error Unit) (refuse : String → Gateway.Answer) (now : Timestamp)
    (marked : Except Store.Error Unit) :
    ∃ others, Program.Finishes Answered (pass schedule metric)
        (.query metric.className metric.queryFilter answer :: others) (.error error) ∧
      site.Lawful (.query metric.className metric.queryFilter answer :: others) ∧
      .store (.get (Store.relatedKey metric.name))
        (readable.map fun () => site.contents.get? (Store.relatedKey metric.name)) ∈ others ∧
      (∀ id given, .gateway (.delete id) given ∈ others → given = refuse id) ∧
      .clock now ∈ others ∧
      .store (.set (Store.markerKey metric.name)
        (Schedule.failureMarker now metric.interval schedule.failureBackoff).decimal) marked ∈
          others := by
  obtain ⟨cleaned, cleans, lawful, reads, refuses, tells, marks⟩ :=
    exists_finishes_giveUp schedule metric site readable refuse now marked
  have counted : site.Lawful (cleaned ++ [.count (.samples .failure) 1]) :=
    Site.lawful_append.mpr ⟨lawful, trivial, trivial⟩
  refine ⟨cleaned ++ [.count (.samples .failure) 1], finishes_pass_iff.mpr ⟨answer, _, rfl, ?_⟩,
    ?_, List.mem_append_left _ reads, fun id given member => ?_, List.mem_append_left _ tells,
    List.mem_append_left _ marks⟩
  · rw [fails]
    exact ⟨cleaned, cleans, rfl, rfl⟩
  · exact ⟨trivial, counted⟩
  · rcases List.mem_append.mp member with cleaning | last
    · exact refuses id given cleaning
    · cases List.mem_singleton.mp last

end Failed

/-- A pass whose query gives no samples comes to its end whatever the store and
the gateway answer, returns why there are no samples, and changes no more than
giving up may. -/
theorem gives_up_of_failed (schedule : Schedule) (metric : Metric) (site : Site)
    {answer : Except Inventory.Error (List Inventory.Object)} {error : Error}
    (fails : extracted metric answer = .error error) :
    (∀ (readable : Except Store.Error Unit) (refuse : String → Gateway.Answer) (now : Timestamp)
      (marked : Except Store.Error Unit),
      ∃ others, Program.Finishes Answered (pass schedule metric)
          (.query metric.className metric.queryFilter answer :: others) (.error error) ∧
        site.Lawful (.query metric.className metric.queryFilter answer :: others) ∧
        .store (.get (Store.relatedKey metric.name))
          (readable.map fun () => site.contents.get? (Store.relatedKey metric.name)) ∈ others ∧
        (∀ id given, .gateway (.delete id) given ∈ others → given = refuse id) ∧
        .clock now ∈ others ∧
        .store (.set (Store.markerKey metric.name)
          (Schedule.failureMarker now metric.interval schedule.failureBackoff).decimal) marked ∈
            others) ∧
      ∀ (others : List Event) (result : Except Error Report),
        Program.Finishes Answered (pass schedule metric)
            (.query metric.className metric.queryFilter answer :: others) result →
          site.Lawful (.query metric.className metric.queryFilter answer :: others) →
            result = .error error ∧ GivesUp schedule metric site
              (.query metric.className metric.queryFilter answer :: others) :=
  ⟨exists_finishes_of_failed fails schedule site,
    fun _ _ finishes lawful => givesUp_of_finishes fails finishes lawful⟩

/-- A site where two gauges are recorded. -/
def Example.twoRecorded : Site :=
  ⟨Text.Map.ofList [(Store.relatedKey "m", Store.idsText (Text.Set.ofList ["x", "y"]))],
    Text.Map.empty⟩

/-- A query fails, and one of two gauges is not withdrawn. -/
theorem gives_up_of_failed_query :
    ∃ others, Program.Finishes Answered (pass Schedule.standard Example.metric)
        (.query "c" "" (.error (.transport "")) :: others)
        (.error (.inventory (.transport ""))) ∧
      GivesUp Schedule.standard Example.metric Example.twoRecorded
        (.query "c" "" (.error (.transport "")) :: others) := by
  have fails : extracted Example.metric (.error (.transport "")) =
      .error (.inventory (.transport "")) := rfl
  obtain ⟨finish, givesUp⟩ :=
    gives_up_of_failed Schedule.standard Example.metric Example.twoRecorded fails
  obtain ⟨others, finishes, lawful, -⟩ := finish (.ok ())
    (fun id => if id = "x" then .error (.transport "") else .ok ()) Timestamp.epoch (.ok ())
  exact ⟨others, finishes, (givesUp others _ finishes lawful).2⟩

end Sampling
end InventoryGauges
