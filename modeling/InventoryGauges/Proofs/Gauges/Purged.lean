import InventoryGauges.Proofs.Cycle.Pace
import InventoryGauges.Proofs.Gauges.Removed
import InventoryGauges.Proofs.Gauges.Retention

/-!
# Purges

A purge wipes the gateway and removes all that is kept for names that have a
marker.  Identities that are stored for a name without a marker are left, so a
purge removes all bookkeeping exactly if there are none.  They come about only
where a pass fails to write its marker.
-/

namespace InventoryGauges
namespace Cycle

variable {site : Site} {events : List Event} {result : Except PurgeError Nat}

/-- What a purge comes to, from the site where it begins. -/
structure Purges (site : Site) (events : List Event) (result : Except PurgeError Nat) : Prop where
  /-- If the gateway refuses to be wiped, that is the result, and nothing changes. -/
  refused : ∀ error, .wipe (.error error) ∈ events →
    result = .error (.gateway error) ∧ site.afterAll events = site
  /-- If the purge succeeds, no gauge is left. -/
  gauges : ∀ count, result = .ok count → ∀ id, (site.afterAll events).published.get? id = none
  /-- Nor is a marker. -/
  markers : ∀ count, result = .ok count →
    ∀ name, (site.afterAll events).contents.get? (Store.markerKey name) = none
  /-- Identities are left where there was no marker. -/
  identities : ∀ count, result = .ok count →
    ∀ name, (site.afterAll events).contents.get? (Store.relatedKey name) =
      if (site.contents.get? (Store.markerKey name)).isSome then none
      else site.contents.get? (Store.relatedKey name)
  /-- So no identities are left exactly if none were stored for a name without a
  marker. -/
  cleared_iff : ∀ count, result = .ok count →
    ((∀ name, (site.afterAll events).contents.get? (Store.relatedKey name) = none) ↔ site.Paired)
  /-- The definitions stay as they are. -/
  definitions : (site.afterAll events).contents.get? Store.metricsKey =
    site.contents.get? Store.metricsKey

/-- To remove bookkeeping is done when it is removed for each name. -/
theorem eq_map_of_finishes_deleteAllBookkeeping {names : List String}
    (finishes : Program.Finishes Work.Answered (Work.access (deleteAllBookkeeping names)) events
      (.ok ())) :
    events = names.map fun name =>
      .store (.delete [Store.markerKey name, Store.relatedKey name]) (.ok ()) := by
  induction names generalizing events with
  | nil => exact (Program.finishes_done_iff.mp finishes).1
  | cons name names hypothesis =>
      rcases finishes_deleteAllBookkeeping_cons_iff.mp finishes with
        ⟨error, -, failed⟩ | ⟨others, continues, rfl⟩
      · cases failed
      · rw [hypothesis continues, List.map_cons]

/-- A purge that succeeds wipes the gateway, and then removes what is kept for each
name that has a marker. -/
theorem exists_names_of_finishes_purge {count : Nat}
    (finishes : Program.Finishes Work.Answered purge events (.ok count))
    (lawful : site.Lawful events) :
    ∃ keys, ∃ names : List String, events = .wipe (.ok ()) :: .store (.scan Store.markerStart) (.ok keys) ::
        names.map (fun name =>
          .store (.delete [Store.markerKey name, Store.relatedKey name]) (.ok ())) ∧
      ∀ name, name ∈ names ↔ (site.contents.get? (Store.markerKey name)).isSome := by
  obtain ⟨answer, others, rfl, continues⟩ := finishes_purge_iff.mp finishes
  cases answer with
  | error error => cases continues.2
  | ok accepted =>
      obtain ⟨forgotten, forgets, same⟩ := continues
      obtain ⟨given, rest, rfl, continues⟩ := finishes_forget_iff.mp forgets
      cases given with
      | error error =>
          obtain ⟨-, rfl⟩ := continues
          cases same
      | ok keys =>
          obtain ⟨removed, removes, rfl⟩ := continues
          cases removed with
          | error error => cases same
          | ok done =>
              obtain rfl : keys = (Store.perform (.scan Store.markerStart) site.contents).1 :=
                lawful.2.1
              refine ⟨_, _, by rw [eq_map_of_finishes_deleteAllBookkeeping removes], fun name => ?_⟩
              exact Text.Set.mem_ofList.trans (Store.mem_names_of_scan site.contents)

/-- After a purge that succeeds, a key of a name is gone if the name had a marker,
and as it was if it had none. -/
theorem get?_contents_after_purge {count : Nat} {name key : String}
    (finishes : Program.Finishes Work.Answered purge events (.ok count))
    (lawful : site.Lawful events) (own : Store.IsKeyOf name key) :
    (site.afterAll events).contents.get? key =
      if (site.contents.get? (Store.markerKey name)).isSome then none
      else site.contents.get? key := by
  obtain ⟨keys, names, rfl, marked⟩ := exists_names_of_finishes_purge finishes lawful
  rw [Site.afterAll_cons, Site.afterAll_cons, Event.isQuiet_scan]
  have removed (other : String) := Event.written?_removal_of_isKeyOf own other
  split
  case isTrue some =>
    refine Site.get?_contents_afterAll_of_written (P := fun value? => value? = none)
      ⟨_, List.mem_map_of_mem ((marked name).mpr some), ?_⟩ ?_
    · rw [removed, if_pos rfl]
      exact nofun
    · intro event member value? writes
      obtain ⟨other, -, rfl⟩ := List.mem_map.mp member
      rw [removed] at writes
      split at writes
      · exact (Option.some.inj writes).symm
      · cases writes
  case isFalse none =>
    rw [Site.get?_contents_afterAll]
    · rfl
    · intro event member
      obtain ⟨other, inNames, rfl⟩ := List.mem_map.mp member
      rw [removed, if_neg]
      rintro rfl
      exact none ((marked name).mp inNames)

/-- Whatever fails, a purge either is refused or wipes the gateway, and it leaves the
definitions. -/
theorem purges_of_finishes (finishes : Program.Finishes Work.Answered purge events result)
    (lawful : site.Lawful events) : Purges site events result where
  refused := by
    intro error member
    obtain ⟨answer, others, rfl, continues⟩ := finishes_purge_iff.mp finishes
    cases answer with
    | error given =>
        obtain ⟨rfl, rfl⟩ := continues
        cases List.mem_singleton.mp member
        exact ⟨rfl, rfl⟩
    | ok accepted =>
        obtain ⟨forgotten, forgets, -⟩ := continues
        rcases List.mem_cons.mp member with equal | later
        · cases equal
        · rcases cases_of_finishes_forget forgets _ later with ⟨_, equal⟩ | ⟨_, _, equal⟩ <;>
            cases equal
  gauges := by
    rintro count rfl id
    obtain ⟨keys, names, rfl, -⟩ := exists_names_of_finishes_purge finishes lawful
    refine Option.eq_none_iff_forall_ne_some.mpr fun sample live => ?_
    rcases Site.published_of_afterAll live with ⟨pushed, -⟩ | ⟨-, kept⟩
    · simp at pushed
    · exact kept _ List.mem_cons_self trivial
  markers := by
    rintro count rfl name
    rw [get?_contents_after_purge finishes lawful (Or.inl rfl)]
    split
    · rfl
    · next none => exact Option.not_isSome_iff_eq_none.mp none
  identities := by
    rintro count rfl name
    exact get?_contents_after_purge finishes lawful (Or.inr rfl)
  cleared_iff := by
    rintro count rfl
    refine forall_congr' fun name => ?_
    rw [get?_contents_after_purge finishes lawful (Or.inr rfl)]
    split
    case isTrue marked => exact iff_of_true rfl fun _ => marked
    case isFalse unmarked =>
      rw [← Option.not_isSome_iff_eq_none]
      exact ⟨fun none stored => absurd stored none,
        fun paired stored => unmarked (paired stored)⟩
  definitions := by
    refine Site.get?_contents_afterAll fun event member => ?_
    exact Event.written?_metricsKey_of_isBookkeeping
      (isBookkeeping_of_finishes_purge finishes event member)

end Cycle

/-- What changes a site: an operation, or a pass by itself. -/
inductive Activity (schedule : Schedule) : List Moment → Prop
  | operation {operation : Operation} {moments : List Moment}
      (runs : operation.Runs schedule moments) : Activity schedule moments
  | pass {metric : Metric} {events : List Event} {ending : Cycle.Ending}
      (runs : Cycle.PassRuns schedule metric events ending) :
      Activity schedule (events.map (Moment.mk (.pass 0)))

/-- Activities may go like this one after another, from a site on. -/
structure Chronicle (schedule : Schedule) (site : Site) (parts : List (List Moment)) : Prop where
  /-- Each part is an activity. -/
  activities : ∀ moments ∈ parts, Activity schedule moments
  /-- What the store says is what it holds. -/
  lawful : site.Lawful (parts.flatten.map Moment.event)

theorem Site.Paired.after_activity {schedule : Schedule} {site : Site} {moments : List Moment}
    (paired : site.Paired) (activity : Activity schedule moments)
    (lawful : site.Lawful (moments.map Moment.event))
    (marks : ∀ name, ∀ moment ∈ moments, ¬ moment.event.FailsToMark name) :
    (site.afterAll (moments.map Moment.event)).Paired := by
  cases activity with
  | operation runs => exact paired.after_operation runs lawful marks
  | pass runs =>
      intro name
      have here : site.PairedAt name := paired name
      exact here.after_passes (.single runs) (marks name)

/-- As long as no marker fails to be written, identities are stored for names only
that have one. -/
theorem Chronicle.paired {schedule : Schedule} {site : Site} {parts : List (List Moment)}
    (chronicle : Chronicle schedule site parts) (paired : site.Paired)
    (marks : ∀ name, ∀ moment ∈ parts.flatten, ¬ moment.event.FailsToMark name) :
    (site.afterAll (parts.flatten.map Moment.event)).Paired := by
  refine chronicle.lawful.preserves_flatten paired fun site moments member lawful paired => ?_
  exact paired.after_activity (chronicle.activities moments member) lawful
    fun name moment own => marks name moment (List.mem_flatten.mpr ⟨moments, member, own⟩)

/-- From the empty site on, a purge that succeeds leaves no gauge and no marker, and
the definitions as they are.  If no write of a marker failed before, whatever else
did, it leaves no stored identities either. -/
theorem cleared_by_purge {schedule : Schedule} {past : List (List Moment)} {events : List Event}
    {result : Except Cycle.PurgeError Nat} (chronicle : Chronicle schedule Site.empty past)
    (finishes : Program.Finishes Work.Answered Cycle.purge events result)
    (lawful : (Site.empty.afterAll (past.flatten.map Moment.event)).Lawful events) :
    Cycle.Purges (Site.empty.afterAll (past.flatten.map Moment.event)) events result ∧
      ((∀ name, ∀ moment ∈ past.flatten, ¬ moment.event.FailsToMark name) →
        ∀ count, result = .ok count → ∀ name,
          ((Site.empty.afterAll (past.flatten.map Moment.event)).afterAll events).contents.get?
            (Store.relatedKey name) = none) := by
  have purges := Cycle.purges_of_finishes finishes lawful
  exact ⟨purges, fun marks count done =>
    (purges.cleared_iff count done).mpr (chronicle.paired Site.paired_empty marks)⟩

namespace Cycle.Example

open Sampling.Example (markingPass finishes_markingPass)

/-- The first cycle, in which the marker fails to be written. -/
def unmarkedCycle : List Moment :=
  alone none (Timestamp.ofInt 2000) (markingPass (.error (.timeout "set" 2000)) (.ok ())) [] []

theorem runs_unmarkedCycle : Operation.cycle.Runs Schedule.standard unmarkedCycle := by
  obtain ⟨report, finishes⟩ :=
    finishes_markingPass Schedule.standard (.error (.timeout "set" 2000)) (.ok ())
  exact (goes_alone (by decide) (.finished finishes) (.done ()) (by decide)).runs

/-- A purge that finds no marker. -/
def purgedBlind : List Event :=
  [.wipe (.ok ()), .store (.scan Store.markerStart) (.ok [])]

theorem finishes_purgedBlind : Program.Finishes Work.Answered purge purgedBlind (.ok 0) :=
  finishes_purge_iff.mpr ⟨.ok (), _, rfl, .ok 0,
    finishes_forget_iff.mpr ⟨.ok [], _, rfl, .ok (), .done _, rfl⟩, rfl⟩

end Cycle.Example

open Cycle.Example (added firstCycle history_firstCycle purged finishes_purged unmarkedCycle
  runs_added runs_unmarkedCycle purgedBlind finishes_purgedBlind)

/-- A purge after the first cycle leaves no identities. -/
theorem cleared_after_firstCycle :
    Cycle.Purges (Site.empty.afterAll ([added, firstCycle].flatten.map Moment.event)) purged
        (.ok 1) ∧
      ∀ name, ((Site.empty.afterAll ([added, firstCycle].flatten.map Moment.event)).afterAll
        purged).contents.get? (Store.relatedKey name) = none := by
  have chronicle : Chronicle Schedule.standard Site.empty [added, firstCycle] := by
    refine ⟨fun moments member => ?_, history_firstCycle.lawful⟩
    obtain ⟨operation, runs⟩ := history_firstCycle.operations moments member
    exact .operation runs
  have scanned : [Store.markerKey "m"] = (Store.perform (.scan Store.markerStart)
    (Site.empty.afterAll ([added, firstCycle].flatten.map Moment.event)).contents).1 := by decide
  obtain ⟨purges, clears⟩ :=
    cleared_by_purge chronicle finishes_purged ⟨trivial, scanned, rfl, trivial⟩
  refine ⟨purges, clears (fun name => ?_) 1 rfl⟩
  simp [added, firstCycle, Cycle.Example.sampled, Sampling.Example.firstPass, Moment.ofMain,
    Sampling.publication, Sampling.withdrawal, Event.ofEnded, Event.FailsToMark]

/-- Where the marker of the first cycle fails to be written, a purge succeeds and
leaves the identities of its gauge. -/
theorem uncleared_after_unmarkedCycle :
    Chronicle Schedule.standard Site.empty [added, unmarkedCycle] ∧
      (Site.empty.afterAll ([added, unmarkedCycle].flatten.map Moment.event)).Lawful purgedBlind ∧
      Program.Finishes Work.Answered Cycle.purge purgedBlind (.ok 0) ∧
      ((Site.empty.afterAll ([added, unmarkedCycle].flatten.map Moment.event)).afterAll
          purgedBlind).contents.get? (Store.relatedKey "m") =
        some (Store.idsText (Sampling.ids [Sampling.Example.sample "o"])) := by
  refine ⟨⟨?_, ?_⟩, ⟨trivial, ?_, trivial⟩, finishes_purgedBlind, ?_⟩
  · intro moments member
    simp only [List.mem_cons, List.not_mem_nil, or_false] at member
    rcases member with rfl | rfl
    · exact .operation runs_added
    · exact .operation runs_unmarkedCycle
  · repeat (first | exact trivial | refine ⟨rfl, ?_⟩ | refine ⟨trivial, ?_⟩)
  · rfl
  · rfl

end InventoryGauges
