import InventoryGauges.Proofs.Sampling.Extracted
import InventoryGauges.Proofs.Sampling.Failed

/-!
# Passes with samples

If the store works, a pass publishes each of its samples once and withdraws each
gauge once that is recorded and not among them.  Recorded is then what it sampled
and what it could not withdraw.
-/

namespace InventoryGauges
namespace Site

/-- These events may happen at a site, and the store works all the time. -/
def Serves (site : Site) (events : List Event) : Prop :=
  site.Lawful events ∧ ∀ event ∈ events, ¬ event.IsStoreFailure

theorem serves_nil (site : Site) : site.Serves [] :=
  ⟨trivial, nofun⟩

theorem serves_cons {site : Site} {event : Event} {events : List Event} :
    site.Serves (event :: events) ↔
      (site.Admits event ∧ ¬ event.IsStoreFailure) ∧ (site.after event).Serves events := by
  rw [Serves, lawful_cons, List.forall_mem_cons, Serves, and_and_and_comm]

theorem serves_append {site : Site} {left right : List Event} :
    site.Serves (left ++ right) ↔ site.Serves left ∧ (site.afterAll left).Serves right := by
  rw [Serves, lawful_append, List.forall_mem_append, Serves, Serves, and_and_and_comm]

/-- The store has no part in calls to the gateway and in counts. -/
theorem serves_of_called_or_counted {events : List Event}
    (outside : ∀ event ∈ events, (∃ call answer, event = .gateway call answer) ∨
      ∃ counter amount, event = .count counter amount) (site : Site) : site.Serves events := by
  refine ⟨lawful_of_admits (fun event member site => ?_) site, fun event member => ?_⟩
  · rcases outside event member with ⟨_, _, rfl⟩ | ⟨_, _, rfl⟩ <;> trivial
  · rcases outside event member with ⟨_, _, rfl⟩ | ⟨_, _, rfl⟩ <;> exact id

end Site

namespace Sampling

open Work (Answered)

variable {schedule : Schedule} {metric : Metric} {events : List Event} {site : Site}

/-- What is recorded of a metric after some events: current identities, and those
that were not withdrawn.  It is written if it differs from what was recorded before. -/
structure Settles (metric : Metric) (current previous : Text.Set) (site : Site)
    (events : List Event) (saved : Bool) (next : Text.Set) : Prop where
  /-- It is recorded in the end. -/
  recorded : (site.afterAll events).recorded? metric.name = some next
  /-- It has the current identities and the refused ones. -/
  mem_iff : ∀ id, id ∈ next ↔
    id ∈ current ∨ ∃ error, .gateway (.delete id) (.error error) ∈ events
  /-- It is written if it is new. -/
  written_iff : (∃ event ∈ events, (event.written? (Store.relatedKey metric.name)).isSome) ↔
    next ≠ previous
  /-- It is told whether it was written. -/
  saved_iff : saved = true ↔ next ≠ previous

theorem length_refusedIds_le (ended : List Gateway.Ended) :
    (refusedIds ended).length ≤ ended.length :=
  List.length_filterMap_le _ _

section Settles

variable {current previous : Text.Set} {ended : List Gateway.Ended} {text? : Option String}
  {written : List Event} {saved : Bool}

/-- What reconciling does after it read what is recorded settles what is recorded then. -/
theorem settles_of_saves (stored : site.recorded? metric.name = some previous)
    (works : ∀ event ∈ written, ¬ event.IsStoreFailure)
    (saves : Saves metric.name previous (current.insertAll (refusedIds ended)) written saved) :
    Settles metric current previous site
      (.store (.get (Store.relatedKey metric.name)) (.ok text?) :: (withdrawal ended ++ written))
      saved (current.insertAll (refusedIds ended)) := by
  have quiet : ∀ event ∈ .store (.get (Store.relatedKey metric.name)) (.ok text?) ::
      withdrawal ended, event.written? (Store.relatedKey metric.name) = none :=
    written?_of_mem_read_withdrawal _
  have refused (id : String) : id ∈ current.insertAll (refusedIds ended) ↔
      id ∈ current ∨ ∃ error, .gateway (.delete id) (.error error) ∈ withdrawal ended := by
    rw [Text.Set.mem_insertAll, mem_refusedIds, or_comm]
    simp only [delete_mem_withdrawal_iff]
  rw [← List.cons_append]
  rcases saves with ⟨equal, rfl, rfl⟩ | ⟨different, answer, rfl, rfl⟩
  · rw [List.append_nil]
    exact {
      recorded := (Site.recorded?_afterAll quiet).trans (stored.trans (congrArg some equal.symm))
      mem_iff := fun id => by simpa using refused id
      written_iff := by
        refine iff_of_false ?_ (not_not_intro equal)
        rintro ⟨event, member, writes⟩
        rw [quiet event member] at writes
        cases writes
      saved_iff := iff_of_false nofun (not_not_intro equal) }
  · cases answer with
    | error error => exact absurd trivial (works _ List.mem_cons_self)
    | ok done =>
        exact {
          recorded := by
            rw [Site.afterAll_append, Site.afterAll_cons, Site.afterAll_nil, Site.recorded?_after,
              Event.written?_set_self]
            exact Store.ofIdsText?_idsText _
          mem_iff := fun id => by simpa using refused id
          written_iff := by
            refine iff_of_true ⟨_, List.mem_append_right _ List.mem_cons_self, ?_⟩ different
            rw [Event.written?_set_self]
            rfl
          saved_iff := iff_of_true rfl different }

end Settles

/-- If the store works, reconciling withdraws each gauge once that is recorded
and not current, and settles what is recorded. -/
theorem settles_of_finishes_reconcile {current previous : Text.Set}
    {reconciliation : Reconciliation}
    (finishes : Program.Finishes Answered (reconcile schedule metric current) events
      reconciliation)
    (serves : site.Serves events) (stored : site.recorded? metric.name = some previous) :
    (Event.asked events).Perm ((previous.diff current).toList.map .delete) ∧
      (∃ next, Settles metric current previous site events reconciliation.relatedIdsSaved next) ∧
      reconciliation.obsoleteDeleted + reconciliation.obsoleteFailed =
        (previous.diff current).size := by
  obtain ⟨answer, others, rfl, continues⟩ := finishes_reconcile_iff.mp finishes
  obtain ⟨⟨admitted, works⟩, later⟩ := Site.serves_cons.mp serves
  obtain ⟨text?, rfl, read⟩ := Site.exists_reading_of_recorded? admitted
    (fun fails => works (Event.isStoreFailure_of_isFailureAt fails)) stored
  rw [read] at continues
  obtain ⟨ended, same, written, saved, rfl, rfl, saves⟩ := continues
  refine ⟨?_, ⟨_, settles_of_saves stored (Site.serves_append.mp later).2.2 saves⟩, ?_⟩
  · have silent : Event.asked written = [] := by
      rcases saves with ⟨-, rfl, -⟩ | ⟨-, answer, rfl, -⟩ <;> rfl
    rw [Event.asked_cons_of_none rfl, Event.asked_append, asked_withdrawal, silent,
      List.append_nil]
    exact same
  · have refused := length_refusedIds_le ended
    have count : ended.length = (previous.diff current).toList.length := by
      simpa using same.length_eq
    rw [count] at refused
    exact Nat.sub_add_cancel refused

/-- What is to be written can be written. -/
theorem exists_saves (name : String) (previous next : Text.Set) (site : Site) :
    ∃ written saved, Saves name previous next written saved ∧ site.Serves written := by
  by_cases equal : next = previous
  · exact ⟨[], false, Or.inl ⟨equal, rfl, rfl⟩, trivial, nofun⟩
  · exact ⟨_, true, Or.inr ⟨equal, .ok (), rfl, rfl⟩,
      Site.serves_cons.mpr ⟨⟨rfl, id⟩, Site.serves_nil _⟩⟩

/-- Whatever the gateway answers, reconciling comes to its end. -/
theorem exists_finishes_reconcile {current previous : Text.Set} {deleted : List Gateway.Ended}
    (stored : site.recorded? metric.name = some previous)
    (deletes : (deleted.map Prod.fst).Perm ((previous.diff current).toList.map .delete))
    (schedule : Schedule) :
    ∃ events reconciliation,
      Program.Finishes Answered (reconcile schedule metric current) events reconciliation ∧
        site.Serves events ∧ (deleted.map Event.ofEnded).Sublist events := by
  obtain ⟨written, saved, saves, serves⟩ := exists_saves metric.name previous
    (current.insertAll (refusedIds deleted)) (site.afterAll (withdrawal deleted))
  have read : Store.reading (Store.relatedKey metric.name) Store.idsIn?
      (.ok (site.contents.get? (Store.relatedKey metric.name))) = .ok previous :=
    Store.reading_eq_ok_iff.mpr ⟨_, rfl, stored⟩
  have reconciles : Program.Finishes Answered (reconcile schedule metric current)
      (.store (.get (Store.relatedKey metric.name))
        (.ok (site.contents.get? (Store.relatedKey metric.name))) ::
          (withdrawal deleted ++ written))
      ⟨(previous.diff current).toList.length - (refusedIds deleted).length,
        (refusedIds deleted).length, saved⟩ := by
    refine finishes_reconcile_iff.mpr ⟨_, _, rfl, ?_⟩
    rw [read]
    exact ⟨deleted, deletes, written, saved, rfl, rfl, saves⟩
  refine ⟨_, _, reconciles, ?_, ?_⟩
  · exact Site.serves_cons.mpr ⟨⟨rfl, id⟩, Site.serves_append.mpr
      ⟨Site.serves_of_called_or_counted (fun event => called_or_counted) _, serves⟩⟩
  · exact ((List.sublist_append_left _ _).trans (List.sublist_append_left _ _)).cons _

/-- What happens before and after does not matter, as long as it withdraws and
writes nothing. -/
theorem Settles.between {current previous next : Text.Set} {before after : List Event}
    {saved : Bool}
    (settles : Settles metric current previous (site.afterAll before) events saved next)
    (unwritten : ∀ event ∈ before ++ after,
      event.written? (Store.relatedKey metric.name) = none)
    (kept : ∀ id given, .gateway (.delete id) given ∉ before ++ after) :
    Settles metric current previous site (before ++ (events ++ after)) saved next where
  recorded := by
    rw [Site.afterAll_append, Site.afterAll_append, Site.recorded?_afterAll fun event member =>
      unwritten event (List.mem_append_right _ member)]
    exact settles.recorded
  mem_iff := by
    intro id
    have same (given : Gateway.Answer) :
        .gateway (.delete id) given ∈ before ++ (events ++ after) ↔
          .gateway (.delete id) given ∈ events := by
      have absent := kept id given
      simp only [List.mem_append] at absent ⊢
      tauto
    simp only [settles.mem_iff id, same]
  written_iff := by
    rw [← settles.written_iff]
    constructor
    · rintro ⟨event, member, writes⟩
      have outside (own : event ∈ before ++ after) : False := by
        rw [unwritten event own] at writes
        cases writes
      simp only [List.mem_append] at member outside
      exact ⟨event, by tauto, writes⟩
    · rintro ⟨event, member, writes⟩
      exact ⟨event, List.mem_append_right _ (List.mem_append_left _ member), writes⟩
  saved_iff := settles.saved_iff

section Opening

variable {objects : List Inventory.Object} {samples : List Gauge.Sample}
  {pushed : List Gateway.Ended} {now : Timestamp} {marked : Except Store.Error Unit}

/-- What a pass does before it reconciles. -/
def opening (metric : Metric) (objects : List Inventory.Object) (pushed : List Gateway.Ended)
    (now : Timestamp) (marked : Except Store.Error Unit) : List Event :=
  .query metric.className metric.queryFilter (.ok objects) :: (publication pushed ++
    [.clock now, .store (.set (Store.markerKey metric.name) now.decimal) marked])

theorem asked_opening :
    Event.asked (opening metric objects pushed now marked) = pushed.map Prod.fst := by
  rw [opening, Event.asked_cons_of_none rfl, Event.asked_append, asked_publication]
  exact List.append_nil _

theorem written?_of_mem_opening :
    ∀ event ∈ opening metric objects pushed now marked,
      event.written? (Store.relatedKey metric.name) = none := by
  intro event member
  rcases List.mem_cons.mp member with rfl | later
  · rfl
  · exact written?_relatedKey_of_opening _ event later

theorem delete_not_mem_opening (same : (pushed.map Prod.fst).Perm (samples.map .push))
    (id : String) (given : Gateway.Answer) :
    .gateway (.delete id) given ∉ opening metric objects pushed now marked := by
  intro member
  simp only [opening, List.mem_cons, List.mem_append, List.not_mem_nil, or_false, reduceCtorEq,
    false_or] at member
  rcases cases_of_mem_publication same member with ⟨_, -, _, equal⟩ | ⟨_, _, equal⟩ <;>
    cases equal

theorem serves_opening (site : Site) :
    site.Serves (opening metric objects pushed now (.ok ())) := by
  refine Site.serves_cons.mpr ⟨⟨trivial, id⟩, Site.serves_append.mpr
    ⟨Site.serves_of_called_or_counted (fun event => called_or_counted) _, ?_⟩⟩
  exact Site.serves_cons.mpr
    ⟨⟨trivial, id⟩, Site.serves_cons.mpr ⟨⟨rfl, id⟩, Site.serves_nil _⟩⟩

/-- A pass that gets samples publishes them, marks the metric and reconciles. -/
theorem finishes_pass_of_extracts_iff {others : List Event} {result : Except Error Report}
    (extracts : Inventory.extract metric objects = .ok samples) :
    Program.Finishes Answered (pass schedule metric)
        (.query metric.className metric.queryFilter (.ok objects) :: others) result ↔
      ∃ pushed now marked reconciled reconciliation,
        (pushed.map Prod.fst).Perm (samples.map .push) ∧
          Program.Finishes Answered (reconcile schedule metric (ids samples)) reconciled
            reconciliation ∧
          .query metric.className metric.queryFilter (.ok objects) :: others =
            opening metric objects pushed now marked ++
              (reconciled ++ [.count (.samples .success) 1]) ∧
          result = .ok {
            objects := (names samples).size
            pushed := samples.length - refusals pushed
            pushFailures := refusals pushed
            obsoleteDeleted := reconciliation.obsoleteDeleted
            obsoleteFailed := reconciliation.obsoleteFailed
            relatedIdsSaved := reconciliation.relatedIdsSaved } := by
  have gives : extracted metric (.ok objects) = .ok samples := by
    rw [extracted, extracts]
    rfl
  rw [finishes_pass_iff]
  constructor
  · rintro ⟨given, rest, equal, continues⟩
    cases equal
    rw [gives] at continues
    obtain ⟨report, completes, rfl⟩ := continues
    obtain ⟨pushed, now, marked, reconciled, reconciliation, same, reconciles, rfl, rfl⟩ :=
      finishes_complete_iff.mp completes
    exact ⟨pushed, now, marked, reconciled, reconciliation, same, reconciles, by simp [opening],
      rfl⟩
  · rintro ⟨pushed, now, marked, reconciled, reconciliation, same, reconciles, equal, rfl⟩
    obtain rfl := (List.cons.inj equal).2
    refine ⟨_, _, rfl, ?_⟩
    rw [gives]
    exact ⟨_, finishes_complete_iff.mpr ⟨pushed, now, marked, reconciled, reconciliation, same,
      reconciles, by simp, rfl⟩, rfl⟩

end Opening

/-- What a pass comes to that gets samples of some objects. -/
structure Succeeds (metric : Metric) (objects : List Inventory.Object)
    (samples : List Gauge.Sample) (previous : Text.Set) (site : Site) (events : List Event)
    (report : Report) : Prop where
  /-- There is a sample for each attribute of each object. -/
  sources : ∃ dns, objects.mapM (fun object => object.identifier metric.className) = .ok dns ∧
    samples.map Gauge.Sample.source = dns.flatMap fun dn => metric.attributes.map (Prod.mk dn)
  /-- What identifies a sample is the metric, the object and the attribute. -/
  identified : ∀ sample ∈ samples,
    sample.id = Gauge.identity metric.name sample.dn sample.attributeName
  /-- Each sample is published once, and each gauge withdrawn once that is recorded
  and not among them. -/
  asked : (Event.asked events).Perm
    (samples.map .push ++ (previous.diff (ids samples)).toList.map .delete)
  /-- Recorded are the samples and the gauges that were not withdrawn. -/
  settles : ∃ next, Settles metric (ids samples) previous site events report.relatedIdsSaved next
  /-- Each sample was taken or refused. -/
  pushed : report.pushed + report.pushFailures = objects.length * metric.attributes.length
  /-- Objects that occur twice are reported once. -/
  objects : report.objects = (samples.map Gauge.Sample.dn).toFinset.card
  /-- Each other gauge was withdrawn or kept. -/
  obsolete : report.obsoleteDeleted + report.obsoleteFailed = (previous.diff (ids samples)).size
  /-- No other keys are written. -/
  keeps : ∀ key, ¬ Store.IsKeyOf metric.name key →
    (site.afterAll events).contents.get? key = site.contents.get? key

theorem length_refusals_le (ended : List Gateway.Ended) : refusals ended ≤ ended.length :=
  List.length_filter_le _ _

section Extracted

variable {objects : List Inventory.Object} {samples : List Gauge.Sample} {previous : Text.Set}
  (extracts : Inventory.extract metric objects = .ok samples)
  (stored : site.recorded? metric.name = some previous)
include extracts stored

/-- If the store works, a pass that gets samples succeeds. -/
theorem succeeds_of_finishes {others : List Event} {result : Except Error Report}
    (finishes : Program.Finishes Answered (pass schedule metric)
      (.query metric.className metric.queryFilter (.ok objects) :: others) result)
    (serves : site.Serves (.query metric.className metric.queryFilter (.ok objects) :: others)) :
    ∃ report, result = .ok report ∧ Succeeds metric objects samples previous site
      (.query metric.className metric.queryFilter (.ok objects) :: others) report := by
  have does : ∀ event ∈ .query metric.className metric.queryFilter (.ok objects) :: others,
      Does metric event := fun event => does_of_finishes_pass finishes
  obtain ⟨pushed, now, marked, reconciled, reconciliation, same, reconciles, shape, rfl⟩ :=
    (finishes_pass_of_extracts_iff extracts).mp finishes
  rw [shape] at serves does ⊢
  obtain ⟨asks, ⟨next, settles⟩, counts⟩ := settles_of_finishes_reconcile reconciles
    (Site.serves_append.mp (Site.serves_append.mp serves).2).1
    ((Site.recorded?_afterAll written?_of_mem_opening).trans stored)
  refine ⟨_, rfl, ?_⟩
  exact {
    sources := Inventory.exists_of_extract extracts
    identified := by
      intro sample member
      obtain ⟨dn, attributeName, value, rfl⟩ := Inventory.exists_of_mem_extract extracts member
      rfl
    asked := by
      rw [Event.asked_append, Event.asked_append, asked_opening]
      exact same.append ((List.append_nil _).symm ▸ asks)
    settles := by
      refine ⟨next, settles.between (fun event member => ?_) fun id given member => ?_⟩
      · rcases List.mem_append.mp member with early | late
        · exact written?_of_mem_opening event early
        · obtain rfl := List.mem_singleton.mp late
          rfl
      · rcases List.mem_append.mp member with early | late
        · exact delete_not_mem_opening same id given early
        · cases List.mem_singleton.mp late
    pushed := by
      have refused := length_refusals_le pushed
      have all : pushed.length = samples.length := by simpa using same.length_eq
      rw [all] at refused
      rw [← Inventory.length_of_extract extracts]
      exact Nat.sub_add_cancel refused
    objects := Text.Set.size_ofList _
    obsolete := counts
    keeps := fun key outside => Site.get?_contents_afterAll fun event member =>
      Event.written?_of_within (does event member).within outside }

/-- Whatever the gateway answers, and in whatever order, such a pass comes to its
end. -/
theorem exists_finishes_of_extracts {pushed deleted : List Gateway.Ended}
    (pushes : (pushed.map Prod.fst).Perm (samples.map .push))
    (deletes : (deleted.map Prod.fst).Perm ((previous.diff (ids samples)).toList.map .delete))
    (schedule : Schedule) (now : Timestamp) :
    ∃ others report, Program.Finishes Answered (pass schedule metric)
        (.query metric.className metric.queryFilter (.ok objects) :: others) (.ok report) ∧
      site.Serves (.query metric.className metric.queryFilter (.ok objects) :: others) ∧
      ((pushed ++ deleted).map Event.ofEnded).Sublist others ∧ .clock now ∈ others := by
  obtain ⟨reconciled, reconciliation, reconciles, serves, deleting⟩ :=
    exists_finishes_reconcile ((Site.recorded?_afterAll written?_of_mem_opening).trans stored)
      deletes schedule
  have counted (site : Site) : site.Serves [.count (.samples .success) 1] :=
    Site.serves_cons.mpr ⟨⟨trivial, id⟩, Site.serves_nil _⟩
  refine ⟨_, _, (finishes_pass_of_extracts_iff extracts).mpr
    ⟨pushed, now, .ok (), reconciled, reconciliation, pushes, reconciles, rfl, rfl⟩, ?_, ?_, ?_⟩
  · exact Site.serves_append.mpr
      ⟨serves_opening site, Site.serves_append.mpr ⟨serves, counted _⟩⟩
  · rw [List.map_append]
    refine List.Sublist.append ?_ (deleting.trans (List.sublist_append_left _ _))
    exact (List.sublist_append_left _ _).trans (List.sublist_append_left _ _)
  · simp

end Extracted

/-- If the store works, a pass that gets samples comes to its end whatever the
gateway answers, and then its gauges are published and recorded, and the other
recorded gauges are withdrawn. -/
theorem reconciles_of_extracted (schedule : Schedule) {metric : Metric} {site : Site}
    {objects : List Inventory.Object} {samples : List Gauge.Sample} {previous : Text.Set}
    (extracts : Inventory.extract metric objects = .ok samples)
    (stored : site.recorded? metric.name = some previous) :
    (∀ (pushed deleted : List Gateway.Ended) (now : Timestamp),
      (pushed.map Prod.fst).Perm (samples.map .push) →
        (deleted.map Prod.fst).Perm ((previous.diff (ids samples)).toList.map .delete) →
          ∃ others report, Program.Finishes Answered (pass schedule metric)
              (.query metric.className metric.queryFilter (.ok objects) :: others) (.ok report) ∧
            site.Serves (.query metric.className metric.queryFilter (.ok objects) :: others) ∧
            ((pushed ++ deleted).map Event.ofEnded).Sublist others ∧ .clock now ∈ others) ∧
      ∀ (others : List Event) (result : Except Error Report),
        Program.Finishes Answered (pass schedule metric)
            (.query metric.className metric.queryFilter (.ok objects) :: others) result →
          site.Serves (.query metric.className metric.queryFilter (.ok objects) :: others) →
            ∃ report, result = .ok report ∧ Succeeds metric objects samples previous site
              (.query metric.className metric.queryFilter (.ok objects) :: others) report :=
  ⟨fun _ _ now pushes deletes =>
      exists_finishes_of_extracts extracts stored pushes deletes schedule now,
    fun _ _ finishes serves => succeeds_of_finishes extracts stored finishes serves⟩

/-- The only gauge is not published, and one of two others is not withdrawn. -/
theorem reconciles_of_extracted_object :
    ∃ others report, Program.Finishes Answered (pass Schedule.standard Example.metric)
        (.query "c" "" (.ok [Example.object "o"]) :: others) (.ok report) ∧
      Succeeds Example.metric [Example.object "o"] [Example.sample "o"]
        (Text.Set.ofList ["x", "y"]) Example.twoRecorded
        (.query "c" "" (.ok [Example.object "o"]) :: others) report := by
  have extracts : Inventory.extract Example.metric [Example.object "o"] =
      .ok [Example.sample "o"] := rfl
  have stored : Example.twoRecorded.recorded? "m" = some (Text.Set.ofList ["x", "y"]) :=
    Store.ofIdsText?_idsText _
  obtain ⟨finish, succeeds⟩ := reconciles_of_extracted Schedule.standard extracts stored
  obtain ⟨others, report, finishes, serves, -⟩ :=
    finish [(.push (Example.sample "o"), .error (.transport ""))] _ Timestamp.epoch (.refl _)
      (perm_withdrawn (fun id => if id = "x" then .error (.transport "") else .ok ()) _)
  obtain ⟨_, equal, reconciles⟩ := succeeds others _ finishes serves
  obtain rfl := Except.ok.inj equal
  exact ⟨others, report, finishes, reconciles⟩

end Sampling
end InventoryGauges
