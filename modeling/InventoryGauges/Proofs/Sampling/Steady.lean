import InventoryGauges.Proofs.Sampling.Succeeded

/-!
# Passes on the same answer

As long as the inventory answers the same and no gauge is refused to be withdrawn,
only the first of some passes has anything to withdraw or to record.  The later ones
publish, and leave nothing behind but their marker.
-/

namespace InventoryGauges

@[simp] theorem Text.Set.toList_diff_self (set : Text.Set) : (set.diff set).toList = [] := by
  refine List.eq_nil_iff_forall_not_mem.mpr fun member found => ?_
  obtain ⟨inside, outside⟩ := Text.Set.mem_diff.mp found
  exact outside inside

/-- The call to the gateway that an event tells of, and how it ended. -/
def Event.ended? : Event → Option Gateway.Ended
  | .gateway call answer => some (call, answer)
  | _ => none

/-- If calls that ended are all that some events ask of the gateway, then the events
tell of no others. -/
theorem Event.ended_of_mem {events : List Event} {ended : List Gateway.Ended}
    {call : Gateway.Call} {answer : Gateway.Answer}
    (asks : (Event.asked events).Perm (ended.map Prod.fst))
    (tells : (ended.map Event.ofEnded).Sublist events)
    (member : .gateway call answer ∈ events) : (call, answer) ∈ ended := by
  have told : ((ended.map Event.ofEnded).filterMap Event.ended?) = ended := by
    rw [List.filterMap_map]
    exact List.filterMap_some
  have asked : (events.filterMap Event.ended?).map Prod.fst = Event.asked events := by
    rw [List.map_filterMap]
    refine List.filterMap_congr fun event _ => ?_
    cases event <;> rfl
  have all : ended = events.filterMap Event.ended? := by
    refine List.Sublist.eq_of_length (told ▸ tells.filterMap Event.ended?) ?_
    simpa [← asked] using asks.length_eq.symm
  rw [all]
  exact List.mem_filterMap.mpr ⟨_, member, rfl⟩

namespace Sampling

open Work (Answered)

/-- A pass: what it did and what it came to. -/
structure Passed where
  events : List Event
  result : Except Error Report

/-- A pass that gets some objects, while the store works and the gateway withdraws
what it is asked to. -/
structure Accepted (schedule : Schedule) (metric : Metric) (objects : List Inventory.Object)
    (site : Site) (passed : Passed) : Prop where
  /-- It is a pass. -/
  finishes : Program.Finishes Answered (pass schedule metric) passed.events passed.result
  /-- Its query is answered with the objects. -/
  queried : ∃ others, passed.events =
    .query metric.className metric.queryFilter (.ok objects) :: others
  /-- The store works. -/
  serves : site.Serves passed.events
  /-- No gauge is refused to be withdrawn. -/
  withdraws : ∀ id error, .gateway (.delete id) (.error error) ∉ passed.events

/-- Passes one after another, each of which gets the same objects. -/
def Repeats (schedule : Schedule) (metric : Metric) (objects : List Inventory.Object) :
    Site → List Passed → Prop
  | _, [] => True
  | site, passed :: later =>
      Accepted schedule metric objects site passed ∧
        Repeats schedule metric objects (site.afterAll passed.events) later

/-- A pass that publishes some samples, and withdraws and records nothing. -/
structure Silent (metric : Metric) (samples : List Gauge.Sample) (site : Site)
    (passed : Passed) : Prop where
  /-- It publishes each sample once, and asks nothing else of the gateway. -/
  asked : (Event.asked passed.events).Perm (samples.map .push)
  /-- It withdraws nothing. -/
  kept : ∀ id given, .gateway (.delete id) given ∉ passed.events
  /-- No call to the store is one to write the identities. -/
  unwritten : ∀ call answer, .store call answer ∈ passed.events →
    call.written? (Store.relatedKey metric.name) = none
  /-- It reports so. -/
  reports : ∃ report, passed.result = .ok report ∧ report.obsoleteDeleted = 0 ∧
    report.obsoleteFailed = 0 ∧ report.relatedIdsSaved = false
  /-- All that it changes in the store is the marker. -/
  keeps : ∀ key, key ≠ Store.markerKey metric.name →
    (site.afterAll passed.events).contents.get? key = site.contents.get? key

variable {schedule : Schedule} {metric : Metric} {objects : List Inventory.Object}
  {samples : List Gauge.Sample} {previous : Text.Set} {site : Site} {passed : Passed}

section Step

variable (extracts : Inventory.extract metric objects = .ok samples)
include extracts

theorem Accepted.exists_succeeds (accepted : Accepted schedule metric objects site passed)
    (stored : site.recorded? metric.name = some previous) :
    ∃ report, passed.result = .ok report ∧
      Succeeds metric objects samples previous site passed.events report := by
  obtain ⟨others, shape⟩ := accepted.queried
  have finishes := accepted.finishes
  have serves := accepted.serves
  rw [shape] at finishes serves ⊢
  exact succeeds_of_finishes extracts stored finishes serves

/-- After a pass whose gauges are all withdrawn, the current ones are recorded. -/
theorem Accepted.recorded (accepted : Accepted schedule metric objects site passed)
    (stored : site.recorded? metric.name = some previous) :
    (site.afterAll passed.events).recorded? metric.name = some (ids samples) := by
  obtain ⟨report, -, succeeds⟩ := accepted.exists_succeeds extracts stored
  obtain ⟨next, settles⟩ := succeeds.settles
  rw [settles.recorded]
  refine congrArg some (Text.Set.ext fun id => ?_)
  rw [settles.mem_iff id]
  exact or_iff_left fun ⟨error, refused⟩ => accepted.withdraws id error refused

/-- A pass that finds the current gauges recorded is silent. -/
theorem Accepted.silent (accepted : Accepted schedule metric objects site passed)
    (stored : site.recorded? metric.name = some (ids samples)) :
    Silent metric samples site passed := by
  obtain ⟨report, result, succeeds⟩ := accepted.exists_succeeds extracts stored
  obtain ⟨next, settles⟩ := succeeds.settles
  have asked := succeeds.asked
  rw [Text.Set.toList_diff_self, List.map_nil, List.append_nil] at asked
  have kept (id : String) (given : Gateway.Answer) :
      .gateway (.delete id) given ∉ passed.events := by
    intro member
    have called := asked.mem_iff.mp (Event.mem_asked.mpr ⟨given, member⟩)
    obtain ⟨sample, -, equal⟩ := List.mem_map.mp called
    cases equal
  have same : next = ids samples := by
    refine Text.Set.ext fun id => ?_
    rw [settles.mem_iff id]
    exact or_iff_left fun ⟨error, refused⟩ => kept id _ refused
  have unwritten (event : Event) (member : event ∈ passed.events) :
      event.written? (Store.relatedKey metric.name) = none := by
    refine Option.not_isSome_iff_eq_none.mp fun writes => ?_
    exact settles.written_iff.mp ⟨event, member, writes⟩ same
  have none := succeeds.obsolete
  rw [Text.Set.size, Text.Set.toList_diff_self] at none
  exact {
    asked
    kept
    unwritten := by
      intro call answer member
      cases answer with
      | error error => exact absurd trivial (accepted.serves.2 _ member)
      | ok value => exact unwritten _ member
    reports := ⟨report, result, Nat.eq_zero_of_add_eq_zero_right none,
      Nat.eq_zero_of_add_eq_zero_left none,
      Bool.eq_false_iff.mpr fun saved => settles.saved_iff.mp saved same⟩
    keeps := by
      intro key different
      by_cases related : key = Store.relatedKey metric.name
      · rw [related]
        exact Site.get?_contents_afterAll unwritten
      · exact succeeds.keeps key fun own => own.elim different related }

/-- Whatever the gateway answers to what is published, and in whatever order, a pass
of which each gauge is withdrawn comes to its end. -/
theorem exists_accepted {pushed : List Gateway.Ended}
    (stored : site.recorded? metric.name = some previous)
    (pushes : (pushed.map Prod.fst).Perm (samples.map .push)) (schedule : Schedule)
    (now : Timestamp) :
    ∃ passed, Accepted schedule metric objects site passed ∧
      (pushed.map Event.ofEnded).Sublist passed.events ∧ .clock now ∈ passed.events := by
  have deletes := perm_withdrawn (fun _ => .ok ()) (previous.diff (ids samples)).toList
  obtain ⟨others, report, finishes, serves, tells, reads⟩ :=
    exists_finishes_of_extracts extracts stored pushes deletes schedule now
  obtain ⟨_, -, succeeds⟩ := succeeds_of_finishes extracts stored finishes serves
  have asks := succeeds.asked.trans (pushes.append deletes).symm
  rw [← List.map_append] at asks
  refine ⟨⟨_, .ok report⟩, ⟨finishes, ⟨others, rfl⟩, serves, ?_⟩, ?_,
    List.mem_cons_of_mem _ reads⟩
  · intro id error refused
    rcases List.mem_append.mp (Event.ended_of_mem asks (tells.cons _) refused) with early | late
    · have called := pushes.mem_iff.mp (List.mem_map_of_mem (f := Prod.fst) early)
      obtain ⟨sample, -, equal⟩ := List.mem_map.mp called
      cases equal
    · obtain ⟨other, -, equal⟩ := List.mem_map.mp late
      cases equal
  · rw [List.map_append] at tells
    exact ((List.sublist_append_left _ _).trans tells).cons _

/-- Once the current gauges are recorded, each pass is silent. -/
theorem Repeats.silent {earlier later : List Passed}
    (repeats : Repeats schedule metric objects site (earlier ++ passed :: later))
    (stored : site.recorded? metric.name = some (ids samples)) :
    Silent metric samples (site.afterAll (earlier.flatMap Passed.events)) passed := by
  induction earlier generalizing site with
  | nil => exact repeats.1.silent extracts stored
  | cons first earlier hypothesis =>
      rw [List.flatMap_cons, Site.afterAll_append]
      exact hypothesis repeats.2 (repeats.1.recorded extracts stored)

/-- Passes come to their end, however often the inventory answers the same. -/
theorem exists_repeats {rounds : List (List Gateway.Ended × Timestamp)}
    (stored : site.recorded? metric.name = some previous)
    (pushes : ∀ round ∈ rounds, (round.1.map Prod.fst).Perm (samples.map .push))
    (schedule : Schedule) :
    ∃ passes, Repeats schedule metric objects site passes ∧
      List.Forall₂ (fun round passed => (round.1.map Event.ofEnded).Sublist passed.events ∧
        .clock round.2 ∈ passed.events) rounds passes := by
  induction rounds generalizing site previous with
  | nil => exact ⟨[], trivial, .nil⟩
  | cons round rounds hypothesis =>
      obtain ⟨passed, accepted, tells, reads⟩ := exists_accepted extracts stored
        (pushes round List.mem_cons_self) schedule round.2
      obtain ⟨passes, repeats, others⟩ := hypothesis (accepted.recorded extracts stored)
        fun other member => pushes other (List.mem_cons_of_mem round member)
      exact ⟨passed :: passes, ⟨accepted, repeats⟩, .cons ⟨tells, reads⟩ others⟩

end Step

/-- Passes on the same answer come to their end, whatever becomes of what they
publish, and each of them but the first withdraws and records nothing, whatever was
recorded before. -/
theorem silent_after_first (schedule : Schedule)
    (extracts : Inventory.extract metric objects = .ok samples)
    (stored : site.recorded? metric.name = some previous) :
    (∀ rounds : List (List Gateway.Ended × Timestamp),
      (∀ round ∈ rounds, (round.1.map Prod.fst).Perm (samples.map .push)) →
        ∃ passes, Repeats schedule metric objects site passes ∧
          List.Forall₂ (fun round passed => (round.1.map Event.ofEnded).Sublist passed.events ∧
            .clock round.2 ∈ passed.events) rounds passes) ∧
    ∀ (earlier : List Passed) (passed : Passed) (later : List Passed),
      Repeats schedule metric objects site (earlier ++ passed :: later) → earlier ≠ [] →
        Silent metric samples (site.afterAll (earlier.flatMap Passed.events)) passed := by
  refine ⟨fun rounds pushes => exists_repeats extracts stored pushes schedule, ?_⟩
  rintro (_ | ⟨first, earlier⟩) passed later repeats more
  · exact absurd rfl more
  · rw [List.flatMap_cons, Site.afterAll_append]
    exact repeats.2.silent extracts (repeats.1.recorded extracts stored)

/-- Two gauges are recorded that are not current, and the current one is refused and
then published: the first pass withdraws both, and the second one is silent. -/
theorem silent_after_twoRecorded :
    ∃ first second, Repeats Schedule.standard Example.metric [Example.object "o"]
        Example.twoRecorded [first, second] ∧
      .gateway (.push (Example.sample "o")) (.error (.transport "")) ∈ first.events ∧
      .gateway (.push (Example.sample "o")) (.ok ()) ∈ second.events ∧
      Silent Example.metric [Example.sample "o"]
        (Example.twoRecorded.afterAll first.events) second := by
  have extracts : Inventory.extract Example.metric [Example.object "o"] =
      .ok [Example.sample "o"] := rfl
  have stored : Example.twoRecorded.recorded? "m" = some (Text.Set.ofList ["x", "y"]) :=
    Store.ofIdsText?_idsText _
  obtain ⟨finish, silent⟩ := silent_after_first Schedule.standard extracts stored
  obtain ⟨passes, repeats, same⟩ := finish
    [([(.push (Example.sample "o"), .error (.transport ""))], Timestamp.epoch),
      ([(.push (Example.sample "o"), .ok ())], Timestamp.epoch)]
    (by simp)
  cases same with
  | cons refused others =>
      cases others with
      | cons taken others =>
          cases others
          have quiet := silent [_] _ [] repeats (List.cons_ne_nil _ _)
          rw [List.flatMap_singleton] at quiet
          exact ⟨_, _, repeats, refused.1.subset List.mem_cons_self,
            taken.1.subset List.mem_cons_self, quiet⟩

end Sampling
end InventoryGauges
