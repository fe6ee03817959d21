import InventoryGauges.Proofs.Cycle.Stage
import InventoryGauges.Proofs.Gauges.Record

/-!
# Recorded gauges are not forgotten

Whatever fails in a run, a recorded gauge is only given up by an operation that
withdrew it before, or that wiped everything.
-/

namespace InventoryGauges
namespace Cycle

/-- An operation on what is kept about a name. -/
inductive Attends (schedule : Schedule) (name : String) : List Event → Prop
  | pass {metric : Metric} {events : List Event} {ending : Ending} (named : metric.name = name)
      (runs : PassRuns schedule metric events ending) : Attends schedule name events
  | reap {events : List Event} {removed : Bool}
      (finishes : Program.Finishes Work.Answered (reapMetric schedule name) events removed) :
      Attends schedule name events
  | purge {events : List Event} {result : Except PurgeError Nat}
      (finishes : Program.Finishes Work.Answered purge events result) :
      Attends schedule name events

end Cycle

open InventoryGauges.Cycle (Attends)

/-- In these moments, a gauge recorded for a name is only given up by an
operation on the name in which it was withdrawn before. -/
def Guarded (schedule : Schedule) (name : String) (site : Site) (moments : List Moment) : Prop :=
  ∀ earlier moment later id, moments = earlier ++ moment :: later →
    (site.afterAll (earlier.map Moment.event)).Records name id →
    ¬ ((site.afterAll (earlier.map Moment.event)).after moment.event).Records name id →
      ∃ first last before behind, Attends schedule name (first ++ moment.event :: last) ∧
        Moment.eventsOf moment.actor earlier = before ++ first ∧
        Moment.eventsOf moment.actor later = last ++ behind ∧
        ∃ event ∈ first, event.Withdraws id

namespace Site

/-- A record is only lost by a write. -/
theorem exists_written_of_lost {site : Site} {event : Event} {name id : String}
    (recorded : site.Records name id) (lost : ¬ (site.after event).Records name id) :
    ∃ value?, event.written? (Store.relatedKey name) = some value? := by
  cases written : event.written? (Store.relatedKey name) with
  | some value? => exact ⟨value?, rfl⟩
  | none =>
      obtain ⟨ids, stored, member⟩ := recorded
      refine absurd ⟨ids, ?_, member⟩ lost
      rw [recorded?_after, written]
      exact stored

end Site

namespace Guarded

variable {schedule : Schedule} {name : String} {site : Site} {left right moments : List Moment}

theorem of_untouched
    (untouched : ∀ moment ∈ moments, moment.event.written? (Store.relatedKey name) = none) :
    Guarded schedule name site moments := by
  rintro earlier moment later id rfl recorded lost
  obtain ⟨value?, writes⟩ := Site.exists_written_of_lost recorded lost
  rw [untouched moment (by simp)] at writes
  cases writes

theorem append (first : Guarded schedule name site left)
    (last : Guarded schedule name (site.afterAll (left.map Moment.event)) right) :
    Guarded schedule name site (left ++ right) := by
  intro earlier moment later id split recorded lost
  rcases List.append_eq_append_iff.mp split with ⟨middle, rfl, rest⟩ | ⟨middle, rfl, rest⟩
  · rw [List.map_append, Site.afterAll_append] at recorded lost
    obtain ⟨opening, ending, before, behind, attends, pre, post, withdrawn⟩ :=
      last middle moment later id rest recorded lost
    refine ⟨opening, ending, Moment.eventsOf moment.actor left ++ before, behind, attends, ?_,
      post, withdrawn⟩
    rw [Moment.eventsOf_append, pre, List.append_assoc]
  · cases middle with
    | nil =>
        obtain rfl : moment :: later = right := rest
        rw [List.append_nil] at last
        obtain ⟨opening, ending, before, behind, attends, pre, post, withdrawn⟩ :=
          last [] moment later id rfl recorded lost
        refine ⟨opening, ending, Moment.eventsOf moment.actor earlier ++ before, behind, attends,
          ?_, post, withdrawn⟩
        rw [List.append_assoc, ← pre]
        simp
    | cons head middle =>
        obtain ⟨rfl, -⟩ := List.cons.inj rest
        obtain rfl : later = middle ++ right := (List.cons.inj rest).2
        obtain ⟨opening, ending, before, behind, attends, pre, post, withdrawn⟩ :=
          first earlier moment middle id rfl recorded lost
        refine ⟨opening, ending, before, behind ++ Moment.eventsOf moment.actor right, attends, pre,
          ?_, withdrawn⟩
        rw [Moment.eventsOf_append, post, List.append_assoc]

theorem of_attends {events : List Event} (attends : Attends schedule name events)
    (careful : Careful name events) (lawful : site.Lawful events) :
    Guarded schedule name site (Moment.ofMain events) := by
  intro earlier moment later id split recorded lost
  obtain ⟨first, rest, rfl, rfl, tail⟩ := List.map_eq_append_iff.mp split
  obtain ⟨event, last, rfl, rfl, rfl⟩ := List.map_eq_cons_iff.mp tail
  have own : (first.map (Moment.mk .main)).map Moment.event = first := Moment.map_event_ofMain first
  rw [own] at recorded lost
  obtain ⟨value?, writes⟩ := Site.exists_written_of_lost recorded lost
  refine ⟨first, last, [], [], attends, Moment.eventsOf_ofMain first, ?_, ?_⟩
  · rw [List.append_nil]
    exact Moment.eventsOf_ofMain last
  · exact (careful first event last value? rfl writes).withdrawn writes
      (Site.lawful_append.mp lawful).1 recorded lost

/-- Passes side by side do not make each other forget. -/
theorem of_sideBySide {metrics : List Metric} {endings : List Cycle.Ending}
    (aside : Cycle.SideBySide schedule metrics endings moments)
    (unique : (metrics.map Metric.name).Nodup)
    (lawful : site.Lawful (moments.map Moment.event)) : Guarded schedule name site moments := by
  rintro earlier moment later id rfl recorded lost
  obtain ⟨value?, writes⟩ := Site.exists_written_of_lost recorded lost
  obtain ⟨index, metric, ending, actor, found, runs, own⟩ :=
    aside.exists_pass (List.mem_append_right earlier List.mem_cons_self)
  by_cases named : metric.name = name
  · subst named
    have shape : Moment.eventsOf (.pass index) (earlier ++ moment :: later) =
        Moment.eventsOf (.pass index) earlier ++ moment.event ::
          Moment.eventsOf (.pass index) later := by
      rw [Moment.eventsOf_append, Moment.eventsOf_cons, if_pos actor]
    rw [shape] at runs
    -- What the pass read is what is stored now, as nobody else writes its keys.
    obtain ⟨alone, agree⟩ := aside.alone unique found rfl lawful
    have same := agree (Store.relatedKey metric.name) (Or.inr rfl)
    have recordedAlone : (site.afterAll (Moment.eventsOf (.pass index) earlier)).Records
        metric.name id := by
      rw [Site.Records, Site.recorded?, same]
      exact recorded
    have lostAlone : ¬ ((site.afterAll (Moment.eventsOf (.pass index) earlier)).after
        moment.event).Records metric.name id := by
      rw [Site.Records, Site.recorded?_after, same, ← Site.recorded?_after]
      exact lost
    have accounts := runs.careful _ moment.event _ value? rfl writes
    rw [actor]
    exact ⟨_, _, [], [], .pass rfl runs, rfl, (List.append_nil _).symm,
      accounts.withdrawn writes alone recordedAlone lostAlone⟩
  · have within := (runs.does _ own).within
    rw [Event.written?_of_within within] at writes
    · cases writes
    · rintro (equal | equal)
      · exact Store.markerKey_ne_relatedKey metric.name name equal.symm
      · exact named (Store.relatedKey_injective equal).symm

theorem of_quiet {events : List Event} (quiet : ∀ event ∈ events, event.IsQuiet) :
    Guarded schedule name site (Moment.ofMain events) := by
  rintro earlier moment later id split recorded lost
  have member : moment ∈ Moment.ofMain events := split ▸ by simp
  obtain ⟨event, found, rfl⟩ := List.mem_map.mp member
  rw [quiet event found] at lost
  exact absurd recorded lost

theorem of_reap {other : String} {events : List Event} {removed : Bool}
    (finishes : Program.Finishes Work.Answered (Cycle.reapMetric schedule other) events removed)
    (lawful : site.Lawful events) (intact : ∀ event ∈ events, ¬ event.IsCorruption) :
    Guarded schedule name site (Moment.ofMain events) := by
  by_cases same : name = other
  · subst same
    exact of_attends (.reap finishes) (Cycle.careful_of_finishes_reapMetric finishes intact) lawful
  · apply of_untouched
    intro moment member
    obtain ⟨event, found, rfl⟩ := List.mem_map.mp member
    apply Event.written?_of_within (Cycle.within_of_finishes_reapMetric finishes event found)
    intro own
    exact same (Store.eq_of_isKeyOf (Or.inr rfl) own)

theorem of_purge {events : List Event} {result : Except Cycle.PurgeError Nat}
    (finishes : Program.Finishes Work.Answered Cycle.purge events result)
    (lawful : site.Lawful events) : Guarded schedule name site (Moment.ofMain events) :=
  of_attends (.purge finishes) (Cycle.careful_of_finishes_purge finishes) lawful

theorem of_changes {events : List Event} (changes : Catalog.Changes events) :
    Guarded schedule name site (Moment.ofMain events) := by
  apply of_untouched
  intro moment member
  obtain ⟨event, found, rfl⟩ := List.mem_map.mp member
  obtain ⟨call, answer, rfl, within⟩ := changes.exists_call event found
  have own : (Event.store call answer).Within (· = Store.metricsKey) := within
  exact Event.written?_of_within own (Store.relatedKey_ne_metricsKey name)

theorem of_stage (stage : Stage schedule moments) (lawful : site.Lawful (moments.map Moment.event))
    (intact : ∀ moment ∈ moments, ¬ moment.event.IsCorruption) :
    Guarded schedule name site moments := by
  cases stage with
  | quiet quiet => exact of_quiet quiet
  | passes unique aside => exact of_sideBySide aside unique lawful
  | reap finishes =>
      rw [Moment.map_event_ofMain] at lawful
      exact of_reap finishes lawful fun event member => intact _ (List.mem_map_of_mem member)
  | purge finishes =>
      rw [Moment.map_event_ofMain] at lawful
      exact of_purge finishes lawful
  | add finishes => exact of_changes (Catalog.changes_of_finishes_add finishes)
  | delete finishes => exact of_changes (Catalog.changes_of_finishes_delete finishes)

theorem of_staged (staged : Staged schedule moments)
    (lawful : site.Lawful (moments.map Moment.event))
    (intact : ∀ moment ∈ moments, ¬ moment.event.IsCorruption) :
    Guarded schedule name site moments := by
  refine staged.induct
    (P := fun site moments => (∀ moment ∈ moments, ¬ moment.event.IsCorruption) →
      Guarded schedule name site moments) lawful ?_ ?_ ?_ intact
  · intro site _
    exact of_untouched nofun
  · intro site left right first last intact
    exact (first fun moment member => intact moment (List.mem_append_left right member)).append
      (last fun moment member => intact moment (List.mem_append_right left member))
  · intro site moments stage lawful intact
    exact of_stage stage lawful intact

/-- What is not withdrawn stays recorded. -/
theorem records {id : String} {earlier later : List Moment}
    (guarded : Guarded schedule name site moments) (split : moments = earlier ++ later)
    (recorded : site.Records name id)
    (kept : ∀ event ∈ earlier.map Moment.event, ¬ event.Withdraws id) :
    (site.afterAll (earlier.map Moment.event)).Records name id := by
  have onward (rest : List Moment) : ∀ first, earlier = first ++ rest →
      (site.afterAll (first.map Moment.event)).Records name id →
        (site.afterAll (earlier.map Moment.event)).Records name id := by
    induction rest with
    | nil =>
        rintro first rfl before
        rwa [List.append_nil]
    | cons moment rest hypothesis =>
        intro first shape before
        apply hypothesis (first ++ [moment]) (by simp [shape])
        rw [List.map_append, Site.afterAll_append]
        refine Classical.byContradiction fun lost => ?_
        obtain ⟨opening, ending, pre, post, attends, own, -, event, inOpening, withdraws⟩ :=
          guarded first moment (rest ++ later) id (by simp [split, shape]) before lost
        refine kept event ?_ withdraws
        have inFirst : event ∈ Moment.eventsOf moment.actor first :=
          own ▸ List.mem_append_right pre inOpening
        rw [shape, List.map_append]
        exact List.mem_append_left _ (List.mem_map_of_mem (Moment.mem_eventsOf.mp inFirst))
  exact onward earlier [] rfl recorded

end Guarded

/-- Whatever fails in a history, a gauge recorded for a name is only given up
in an operation on the name, after the gateway accepted in it to withdraw the
gauge or everything. -/
theorem withdrawn_before_given_up {schedule : Schedule} {site : Site}
    {history done rest : List (List Moment)} {moments earlier later : List Moment}
    {moment : Moment} {name id : String} (runs : History schedule site history)
    (unique : ∀ moment ∈ history.flatten, moment.event.LoadsUnique)
    (intact : ∀ moment ∈ history.flatten, ¬ moment.event.IsCorruption)
    (operation : history = done ++ moments :: rest)
    (split : moments = earlier ++ moment :: later)
    (recorded : (site.afterAll ((done.flatten ++ earlier).map Moment.event)).Records name id)
    (lost : ¬ (site.afterAll ((done.flatten ++ earlier ++ [moment]).map Moment.event)).Records
      name id) :
    ∃ first last before behind, Attends schedule name (first ++ moment.event :: last) ∧
      Moment.eventsOf moment.actor earlier = before ++ first ∧
      Moment.eventsOf moment.actor later = last ++ behind ∧
      ∃ event ∈ first, event.Withdraws id := by
  have inHistory {other : Moment} (member : other ∈ moments) : other ∈ history.flatten := by
    rw [operation]
    exact List.mem_flatten.mpr ⟨moments, by simp, member⟩
  obtain ⟨kind, goes⟩ := runs.operations moments (by simp [operation])
  have staged := goes.staged fun other member => unique other (inHistory member)
  have lawful := runs.lawful
  rw [operation, List.flatten_append, List.flatten_cons, List.map_append, List.map_append,
    Site.lawful_append, Site.lawful_append] at lawful
  rw [List.map_append, Site.afterAll_append] at recorded
  rw [List.map_append, List.map_append, Site.afterAll_append, Site.afterAll_append] at lost
  have guarded : Guarded schedule name (site.afterAll (done.flatten.map Moment.event)) moments :=
    .of_staged staged lawful.2.1 fun other member => intact other (inHistory member)
  exact guarded earlier moment later id split recorded lost

namespace Cycle.Example

/-- A purge of what is kept about one name. -/
def purged : List Event :=
  [.wipe (.ok ()), .store (.scan Store.markerStart) (.ok [Store.markerKey "m"]),
    .store (.delete [Store.markerKey "m", Store.relatedKey "m"]) (.ok ())]

theorem finishes_purged : Program.Finishes Work.Answered purge purged (.ok 1) := by
  have names : (Text.Set.ofList ([Store.markerKey "m"].filterMap Store.markerName?)).toList =
      ["m"] := by decide
  refine finishes_purge_iff.mpr ⟨.ok (), _, rfl, .ok 1, finishes_forget_iff.mpr
    ⟨.ok [Store.markerKey "m"], _, rfl, .ok (), ?_, rfl⟩, rfl⟩
  rw [names]
  exact finishes_deleteAllBookkeeping_cons_iff.mpr (Or.inr ⟨[], .done _, rfl⟩)

/-- A site at which one gauge is recorded. -/
def recording : Site :=
  ⟨(Text.Map.empty.insert (Store.markerKey "m") "0").insert (Store.relatedKey "m")
    (Store.idsText (Text.Set.ofList ["g"])), Text.Map.empty⟩

end Cycle.Example

open Cycle.Example (purged finishes_purged recording)

/-- A purge gives up a record after the wipe. -/
theorem withdrawn_before_purged :
    ∃ first last before behind, Attends Schedule.standard "m" (first ++
        .store (.delete [Store.markerKey "m", Store.relatedKey "m"]) (.ok ()) :: last) ∧
      Moment.eventsOf .main (Moment.ofMain (purged.take 2)) = before ++ first ∧
      Moment.eventsOf .main [] = last ++ behind ∧ ∃ event ∈ first, event.Withdraws "g" := by
  have runs : History Schedule.standard recording [Moment.ofMain purged] := by
    constructor
    · intro moments member
      obtain rfl := List.mem_singleton.mp member
      exact ⟨.purge, purged, _, finishes_purged, rfl⟩
    · have scanned : [Store.markerKey "m"] =
          (Store.perform (.scan Store.markerStart) recording.contents).1 := by decide
      rw [List.flatten_singleton, Moment.map_event_ofMain]
      exact ⟨trivial, scanned, rfl, trivial⟩
  let done : List (List Moment) := []
  have recorded : (recording.afterAll ((done.flatten ++ Moment.ofMain (purged.take 2)).map
      Moment.event)).Records "m" "g" := by
    refine ⟨Text.Set.ofList ["g"], ?_, by decide⟩
    simp [done, purged, Moment.ofMain, recording, Site.recorded?, Site.get?_contents_after,
      Event.written?, Store.Call.written?, Text.Map.get?_insert, Store.idsIn?]
  have lost : ¬ (recording.afterAll ((done.flatten ++ Moment.ofMain (purged.take 2) ++
      [Moment.mk .main (.store (.delete [Store.markerKey "m", Store.relatedKey "m"])
        (.ok ()))]).map Moment.event)).Records "m" "g" := by
    rintro ⟨ids, stored, member⟩
    obtain rfl : Text.Set.empty = ids := by
      simpa [done, purged, Moment.ofMain, Site.recorded?, Site.get?_contents_after, Event.written?,
        Store.Call.written?, Store.idsIn?] using stored
    exact Text.Set.not_mem_empty _ member
  exact withdrawn_before_given_up runs (by simp [purged, Moment.ofMain, Event.LoadsUnique])
    (by simp [purged, Moment.ofMain, Event.IsCorruption]) rfl rfl recorded lost

end InventoryGauges
