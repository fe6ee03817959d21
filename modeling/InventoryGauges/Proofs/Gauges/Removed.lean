import InventoryGauges.Proofs.Catalog.Listed
import InventoryGauges.Proofs.Gauges.Orphans
import InventoryGauges.Proofs.Sampling.Marker

/-!
# Removed metrics

Reaping finds the names of former metrics by their markers.  As long as the
store works, no identities are stored for a name without a marker, so that a
cycle in which nothing is refused leaves nothing of a metric that it did not
find among the definitions.
-/

namespace InventoryGauges

/-- No identities are stored for a name that has no marker. -/
def Site.Paired (site : Site) : Prop :=
  ∀ name, (site.contents.get? (Store.relatedKey name)).isSome →
    (site.contents.get? (Store.markerKey name)).isSome

theorem Site.paired_empty : Site.empty.Paired :=
  fun _ stored => absurd stored (by simp [Site.empty])

/-- If identities are stored for a name, it has a marker. -/
def Site.PairedAt (site : Site) (name : String) : Prop :=
  (site.contents.get? (Store.relatedKey name)).isSome →
    (site.contents.get? (Store.markerKey name)).isSome

/-- To remove what is kept about a name removes its keys, and none of other names. -/
theorem Event.written?_removal_of_isKeyOf {name key : String} (own : Store.IsKeyOf name key)
    (other : String) :
    (Event.store (.delete [Store.markerKey other, Store.relatedKey other]) (.ok ())).written? key =
      if name = other then some none else none := by
  split
  case isTrue same =>
    subst same
    exact if_pos (by simpa [Store.IsKeyOf] using own)
  case isFalse foreign =>
    apply Event.written?_delete_of_not_mem
    intro member
    exact foreign (Store.eq_of_isKeyOf own (by simpa [Store.IsKeyOf] using member))

namespace Site.PairedAt

variable {schedule : Schedule} {site other : Site} {name : String} {events : List Event}
  {moments : List Moment}

theorem of_contents_eq (paired : site.PairedAt name)
    (same : ∀ key, Store.IsKeyOf name key → other.contents.get? key = site.contents.get? key) :
    other.PairedAt name := by
  intro stored
  rw [same _ (Or.inr rfl)] at stored
  rw [same _ (Or.inl rfl)]
  exact paired stored

theorem of_untouched (paired : site.PairedAt name)
    (untouched : ∀ event ∈ events, ∀ key, Store.IsKeyOf name key → event.written? key = none) :
    (site.afterAll events).PairedAt name :=
  paired.of_contents_eq fun key own =>
    Site.get?_contents_afterAll fun event member => untouched event member key own

/-- Passes that store identities for a name mark it too, unless that fails. -/
theorem after_passes {due : List Metric} {endings : List Cycle.Ending} (paired : site.PairedAt name)
    (aside : Cycle.SideBySide schedule due endings moments)
    (marks : ∀ moment ∈ moments, ¬ moment.event.FailsToMark name) :
    (site.afterAll (moments.map Moment.event)).PairedAt name := by
  have stays : ∀ event ∈ moments.map Moment.event, ∀ value?,
      event.written? (Store.markerKey name) = some value? → value?.isSome := by
    intro event member value? writes
    obtain ⟨moment, inMoments, rfl⟩ := List.mem_map.mp member
    obtain ⟨index, metric, -, -, does⟩ := aside.does inMoments
    exact does.marker_isSome writes
  intro stored
  by_cases saves : ∃ moment ∈ moments, moment.event.written? (Store.relatedKey name) ≠ none
  · obtain ⟨moment, member, some⟩ := saves
    obtain ⟨value?, writes⟩ := Option.ne_none_iff_exists'.mp some
    obtain ⟨index, metric, ending, -, -, runs, own⟩ := aside.exists_pass member
    obtain rfl : metric.name = name := by
      rcases (runs.does _ own).cases_of_written writes with ⟨-, equal, -⟩ | ⟨-, equal, -⟩
      · exact absurd equal.symm (Store.markerKey_ne_relatedKey metric.name name)
      · exact (Store.relatedKey_injective equal).symm
    have unbroken : ending ≠ .broken := by
      rintro rfl
      rw [runs.events_of_broken] at own
      rw [List.mem_singleton.mp own] at writes
      cases writes
    obtain ⟨before, time, answer, after, shape, -⟩ := runs.marks unbroken
    have marked : ⟨.pass index, .store (.set (Store.markerKey metric.name)
        (ending.marker schedule metric time).decimal) answer⟩ ∈ moments :=
      Moment.mem_eventsOf.mp (by simp [shape])
    cases answer with
    | error error => exact absurd rfl (marks _ marked)
    | ok done =>
        refine Site.get?_contents_afterAll_of_written
          ⟨_, List.mem_map_of_mem marked, ?_⟩ stays
        rw [Event.written?_set_self]
        exact nofun
  · have untouched : ∀ event ∈ moments.map Moment.event,
        event.written? (Store.relatedKey name) = none := by
      intro event member
      obtain ⟨moment, inMoments, rfl⟩ := List.mem_map.mp member
      exact Classical.byContradiction fun some => saves ⟨moment, inMoments, some⟩
    rw [Site.get?_contents_afterAll untouched] at stored
    exact Site.get?_contents_afterAll_induct (paired stored) stays

/-- To store what is left of a name that is reaped, identities were read. -/
theorem after_reap {other : String} {removed : Bool} (paired : site.PairedAt name)
    (finishes : Program.Finishes Work.Answered (Cycle.reapMetric schedule other) events removed)
    (lawful : site.Lawful events) : (site.afterAll events).PairedAt name := by
  by_cases foreign : name = other
  · subst foreign
    rcases Cycle.cases_of_finishes_reapMetric finishes with
      ⟨error, -, rfl, -⟩ | ⟨answer, ended, given, -, same, rfl, -⟩
    · exact paired
    · rw [Site.afterAll_append]
      have reading : (site.afterAll (.store (.get (Store.relatedKey name)) answer ::
          Sampling.withdrawal ended)).PairedAt name :=
        paired.of_untouched fun event member key _ =>
          Sampling.written?_of_mem_read_withdrawal key event member
      cases given with
      | error error =>
          refine reading.of_untouched fun event member key _ => ?_
          obtain rfl := List.mem_singleton.mp member
          rw [Cycle.removalWrite]
          split <;> rfl
      | ok done =>
          intro stored
          rw [Site.afterAll_cons, Site.afterAll_nil, Site.get?_contents_after] at stored ⊢
          by_cases none : Sampling.refusedIds ended = []
          · rw [Cycle.written?_removalWrite_relatedKey, if_pos none] at stored
            cases stored
          · rw [Cycle.written?_removalWrite_markerKey none]
            refine reading ?_
            rw [Site.get?_contents_afterAll (Sampling.written?_of_mem_read_withdrawal _)]
            -- What was refused was recorded.
            obtain ⟨id, refused⟩ := List.exists_mem_of_ne_nil _ none
            have recorded := Sampling.mem_of_mem_refusedIds same refused
            cases answer with
            | error error => exact absurd recorded List.not_mem_nil
            | ok text? =>
                obtain rfl : text? = site.contents.get? (Store.relatedKey name) := lawful.1
                cases before : site.contents.get? (Store.relatedKey name) with
                | some text => rfl
                | none =>
                    rw [before] at recorded
                    exact absurd recorded List.not_mem_nil
  · refine paired.of_untouched fun event member key own => ?_
    apply Event.written?_of_within (Cycle.within_of_finishes_reapMetric finishes event member)
    exact fun theirs => foreign (Store.eq_of_isKeyOf own theirs)

theorem after_delete (paired : site.PairedAt name) (other : String)
    (answer : Except Store.Error Unit) :
    (site.after
      (.store (.delete [Store.markerKey other, Store.relatedKey other]) answer)).PairedAt name := by
  cases answer with
  | error error => exact paired
  | ok done =>
      by_cases foreign : name = other
      · subst foreign
        intro stored
        rw [Site.get?_contents_after, Event.written?_removal_of_isKeyOf (Or.inr rfl),
          if_pos rfl] at stored
        cases stored
      · refine paired.of_contents_eq fun key own => ?_
        rw [Site.get?_contents_after, Event.written?_removal_of_isKeyOf own, if_neg foreign]
        rfl

theorem after_purge {result : Except Cycle.PurgeError Nat} (paired : site.PairedAt name)
    (finishes : Program.Finishes Work.Answered Cycle.purge events result) :
    (site.afterAll events).PairedAt name := by
  have deleting {events : List Event} {site : Site} (paired : site.PairedAt name)
      (each : ∀ event ∈ events, (∃ answer, event = .store (.scan Store.markerStart) answer) ∨
        ∃ name answer,
          event = .store (.delete [Store.markerKey name, Store.relatedKey name]) answer) :
      (site.afterAll events).PairedAt name := by
    induction events generalizing site with
    | nil => exact paired
    | cons event events hypothesis =>
        refine hypothesis ?_ fun other member => each other (List.mem_cons_of_mem event member)
        rcases each event List.mem_cons_self with ⟨answer, rfl⟩ | ⟨name, answer, rfl⟩
        · rw [Event.isQuiet_scan]
          exact paired
        · exact paired.after_delete name answer
  obtain ⟨answer, others, rfl, continues⟩ := Cycle.finishes_purge_iff.mp finishes
  cases answer with
  | error error =>
      obtain ⟨rfl, -⟩ := continues
      exact paired
  | ok accepted =>
      obtain ⟨forgotten, forgets, -⟩ := continues
      have wiped : (site.after (.wipe (.ok accepted))).PairedAt name :=
        paired.of_contents_eq fun _ _ => rfl
      rw [Site.afterAll_cons]
      exact deleting wiped (Cycle.cases_of_finishes_forget forgets)

/-- A change of the catalog changes nothing but the definitions. -/
theorem after_change (paired : site.PairedAt name) (changes : Catalog.Changes events) :
    (site.afterAll events).PairedAt name := by
  refine paired.of_untouched fun event member key own => ?_
  apply Event.written?_of_isDefining (changes.exists_call event member)
  rintro rfl
  exact Store.not_isKeyOf_metricsKey name own

/-- Each operation keeps a name marked for which identities are stored, unless it
samples the name and fails to mark it. -/
theorem after_operation {operation : Operation} (paired : site.PairedAt name)
    (runs : operation.Runs schedule moments) (lawful : site.Lawful (moments.map Moment.event))
    (apart : (∀ moment ∈ moments, ¬ moment.event.FailsToMark name) ∨
      ∀ moment ∈ moments, ¬ moment.event.Lists name) :
    (site.afterAll (moments.map Moment.event)).PairedAt name := by
  refine runs.induct (P := fun site part => site.PairedAt name →
    (site.afterAll (part.map Moment.event)).PairedAt name) lawful ?_ ?_ ?_ ?_ ?_ ?_ paired
  · intro site left right first last paired
    rw [List.map_append, Site.afterAll_append]
    exact last (first paired)
  · intro site events quiet paired
    rw [Moment.map_event_ofMain, Site.afterAll_of_isQuiet quiet]
    exact paired
  · intro site due endings passed listed aside inAll paired
    rcases apart with marks | unlisted
    · exact paired.after_passes aside fun moment member => marks moment (inAll member)
    · refine paired.of_untouched fun event member key own => ?_
      obtain ⟨moment, inPassed, rfl⟩ := List.mem_map.mp member
      exact aside.written?_of_unlisted listed unlisted inPassed own
  · intro site other events removed finishes _ lawful paired
    rw [Moment.map_event_ofMain]
    exact paired.after_reap finishes lawful
  · intro site events result finishes _ paired
    rw [Moment.map_event_ofMain]
    exact paired.after_purge finishes
  · intro site events changes paired
    rw [Moment.map_event_ofMain]
    exact paired.after_change changes

end Site.PairedAt

theorem Site.Paired.after_operation {schedule : Schedule} {site : Site} {operation : Operation}
    {moments : List Moment} (paired : site.Paired) (runs : operation.Runs schedule moments)
    (lawful : site.Lawful (moments.map Moment.event))
    (marks : ∀ name, ∀ moment ∈ moments, ¬ moment.event.FailsToMark name) :
    (site.afterAll (moments.map Moment.event)).Paired := by
  intro name
  have here : site.PairedAt name := paired name
  exact here.after_operation runs lawful (Or.inl (marks name))

namespace Cycle

variable {schedule : Schedule} {name : String} {events : List Event} {site : Site}

section Removal

variable {text? : Option String} {ended : List Gateway.Ended}

/-- If nothing is refused, reaping a name leaves no marker of it, and those of
others as they are. -/
theorem get?_marker_after_removal (accepted : Sampling.refusedIds ended = []) (other : String) :
    (site.afterAll (removal name text? ended)).contents.get? (Store.markerKey other) =
      if other = name then none else site.contents.get? (Store.markerKey other) := by
  have deletes : removalWrite name [] (.ok ()) =
      .store (.delete [Store.markerKey name, Store.relatedKey name]) (.ok ()) := if_pos rfl
  rw [get?_contents_after_removal, accepted, deletes,
    Event.written?_removal_of_isKeyOf (Or.inl rfl)]
  split <;> rfl

end Removal

/-- If nothing is refused, reaping some names leaves no marker of theirs, and
those of others as they are. -/
theorem get?_marker_after_reapAll {names : List String} {reaped : Nat}
    (finishes : Program.Finishes Work.Answered (reapAll schedule names) events reaped)
    (lawful : site.Lawful events) (reliable : ∀ event ∈ events, ¬ event.IsStoreFailure)
    (accepting : ∀ id error, ¬ .gateway (.delete id) (.error error) ∈ events) :
    (site.afterAll events).contents.get? (Store.markerKey name) =
      if name ∈ names then none else site.contents.get? (Store.markerKey name) := by
  induction names generalizing site events reaped with
  | nil =>
      obtain ⟨rfl, -⟩ := Program.finishes_done_iff.mp finishes
      rfl
  | cons first names hypothesis =>
      obtain ⟨own, removed, last, others, reaps, reapsAll, rfl, -⟩ :=
        finishes_reapAll_cons_iff.mp finishes
      have counted (site : Site) :
          site.afterAll (if removed then [.count .metricsReaped 1] else []) = site := by
        cases removed <;> rfl
      rw [Site.lawful_append, Site.lawful_append, Site.afterAll_append, counted] at lawful
      obtain ⟨text?, ended, same, rfl, -⟩ := exists_of_finishes_reapMetric reaps lawful.1.1
        fun event member => reliable event (by simp [member])
      have accepted : Sampling.refusedIds ended = [] := by
        apply List.eq_nil_iff_forall_not_mem.mpr
        intro id refused
        obtain ⟨error, found⟩ := Sampling.mem_refusedIds.mp refused
        have called : .gateway (.delete id) (.error error) ∈ Sampling.withdrawal ended :=
          List.mem_append_left _ (List.mem_map_of_mem (f := Event.ofEnded) found)
        exact accepting id error (by simp [removal, called])
      rw [Site.afterAll_append, Site.afterAll_append, counted,
        hypothesis reapsAll lawful.2 (fun event member => reliable event (by simp [member]))
          (fun id error member => accepting id error (by simp [member])),
        get?_marker_after_removal accepted]
      by_cases listed : name ∈ names
      · simp [listed]
      · simp [listed, List.mem_cons]

/-- If nothing is refused, reaping leaves the markers of active names only. -/
theorem mem_of_marker_after_reap {active : Text.Set} {reaped : Nat}
    (finishes : Program.Finishes Work.Answered (reap schedule active) events reaped)
    (lawful : site.Lawful events) (reliable : ∀ event ∈ events, ¬ event.IsStoreFailure)
    (accepting : ∀ id error, ¬ .gateway (.delete id) (.error error) ∈ events)
    (marked : ((site.afterAll events).contents.get? (Store.markerKey name)).isSome) :
    name ∈ active := by
  obtain ⟨answer, others, rfl, continues⟩ := finishes_reap_iff.mp finishes
  cases answer with
  | error error => exact absurd trivial (reliable _ List.mem_cons_self)
  | ok keys =>
      obtain ⟨found, later⟩ := lawful
      rw [Event.isQuiet_scan] at later
      rw [Site.afterAll_cons, Event.isQuiet_scan, get?_marker_after_reapAll continues later
        (fun event member => reliable event (List.mem_cons_of_mem _ member))
        fun id error member => accepting id error (List.mem_cons_of_mem _ member)] at marked
      split at marked
      · cases marked
      · rename_i absent
        refine Classical.byContradiction fun inactive => absent ?_
        have scanned : name ∈ keys.filterMap Store.markerName? := by
          rw [show keys = _ from found]
          exact (Store.mem_names_of_scan site.contents).mpr marked
        exact Text.Set.mem_diff.mpr ⟨Text.Set.mem_ofList.mpr scanned, inactive⟩

end Cycle

namespace Cycle

/-- The markers that are left after a cycle are of names that it found among
the definitions. -/
def MarksListed (moments : List Moment) (site : Site) : Prop :=
  ∃ text? metrics others,
    moments = Moment.ofMain [.store (.get Store.metricsKey) (.ok text?)] ++ others ∧
    Store.metricsIn? text? = some metrics ∧
    ∀ name, (site.contents.get? (Store.markerKey name)).isSome → name ∈ metrics.map Metric.name

theorem MarksListed.of_alike {moments : List Moment} {site other : Site}
    (listed : MarksListed moments site) (alike : site.Alike other) : MarksListed moments other := by
  obtain ⟨text?, metrics, others, opening, decoded, listed⟩ := listed
  refine ⟨text?, metrics, others, opening, decoded, fun name marked => listed name ?_⟩
  rw [alike.contents _ (Store.markerKey_ne_metricsKey name)]
  exact marked

/-- If no call to the store fails and no withdrawal is refused, a cycle leaves
markers of names only that it found. -/
theorem marksListed_after_cycle {schedule : Schedule} {site : Site} {moments : List Moment}
    (runs : Operation.cycle.Runs schedule moments)
    (lawful : site.Lawful (moments.map Moment.event))
    (decodes : ∃ metrics, Store.metricsIn? (site.contents.get? Store.metricsKey) = some metrics)
    (reliable : ∀ moment ∈ moments, ¬ moment.event.IsStoreFailure)
    (accepting : ∀ moment ∈ moments, ∀ id error,
      moment.event ≠ .gateway (.delete id) (.error error)) :
    MarksListed moments (site.afterAll (moments.map Moment.event)) := by
  obtain ⟨report, finishes⟩ := runs
  obtain ⟨done, does, rfl⟩ := finishes_cycle_iff.mp finishes
  obtain ⟨answer, others, rfl, continues⟩ := finishes_body_iff.mp does
  rw [List.append_assoc, List.map_append, Moment.map_event_ofMain, List.singleton_append,
    Site.lawful_cons, Event.isQuiet_get] at lawful
  rw [List.append_assoc, List.map_append, Moment.map_event_ofMain, List.singleton_append,
    Site.afterAll_cons, Event.isQuiet_get]
  obtain ⟨admitted, lawful⟩ := lawful
  obtain ⟨text?, rfl⟩ := Event.exists_ok_of_works
    (fun fails => reliable _
      (List.mem_append_left _ (List.mem_append_left others List.mem_cons_self))
      (Event.isStoreFailure_of_isFailureAt fails)) (List.mem_singleton_self Store.metricsKey)
  obtain rfl : text? = site.contents.get? Store.metricsKey := admitted
  obtain ⟨metrics, decoded⟩ := decodes
  rw [Store.reading_eq_ok_iff.mpr ⟨_, rfl, decoded⟩] at continues
  obtain ⟨sampled, sampling, reaped, count, samples, reaps, rfl, -⟩ := continues
  refine ⟨_, metrics, _, rfl, decoded, fun name marked => ?_⟩
  rw [List.append_assoc, List.map_append, List.map_append, Moment.map_event_ofMain,
    Moment.map_event_ofMain, Site.lawful_append, Site.lawful_append] at lawful
  rw [List.append_assoc, List.map_append, List.map_append, Moment.map_event_ofMain,
    Moment.map_event_ofMain, Site.afterAll_append, Site.afterAll_append] at marked
  have inReaped {event : Event} (member : event ∈ reaped) (first last : List Moment) :
      ⟨.main, event⟩ ∈ first ++ (sampled ++ Moment.ofMain reaped) ++ last := by
    simp [Moment.ofMain, member]
  exact Text.Set.mem_ofList.mp (mem_of_marker_after_reap reaps lawful.2.1
    (fun event member => reliable _ (inReaped member _ _))
    (fun id error member => accepting _ (inReaped member _ _) id error rfl) marked)

end Cycle

/-- What is kept about live gauges, apart from the definitions. -/
structure Site.Orderly (site : Site) : Prop where
  /-- All stored identities can be read. -/
  readable : ∀ name, (site.recorded? name).isSome
  /-- Each live gauge is recorded for a name that has a marker. -/
  known : ∀ id, (site.published.get? id).isSome →
    ∃ name, site.Records name id ∧ (site.contents.get? (Store.markerKey name)).isSome
  /-- No identities are stored for a name that has no marker. -/
  paired : site.Paired

namespace Site.Orderly

variable {site other : Site}

theorem sound (orderly : site.Orderly)
    (unique : Catalog.UniqueIn (site.contents.get? Store.metricsKey)) : site.Sound :=
  ⟨unique, orderly.readable, orderly.known⟩

theorem of_sound (sound : site.Sound) (paired : site.Paired) : site.Orderly :=
  ⟨sound.readable, sound.known, paired⟩

theorem of_alike (orderly : site.Orderly) (alike : site.Alike other) : other.Orderly where
  readable := by
    intro name
    rw [recorded?, ← alike.contents _ (Store.relatedKey_ne_metricsKey name)]
    exact orderly.readable name
  known := by
    intro id live
    rw [← alike.published] at live
    obtain ⟨name, ⟨ids, recorded, inIds⟩, marked⟩ := orderly.known id live
    rw [recorded?, alike.contents _ (Store.relatedKey_ne_metricsKey name)] at recorded
    rw [alike.contents _ (Store.markerKey_ne_metricsKey name)] at marked
    exact ⟨name, ⟨ids, recorded, inIds⟩, marked⟩
  paired := by
    intro name
    have paired : site.PairedAt name := orderly.paired name
    refine paired.of_contents_eq fun key own => (alike.contents key ?_).symm
    rintro rfl
    exact Store.not_isKeyOf_metricsKey name own

end Site.Orderly

/-- From the empty site on, as long as no call of the poller to the store fails
and no pass is cut off, however definitions are added and removed meanwhile:
after a cycle in which no withdrawal is refused, all that is kept is kept for
names that the cycle found among the definitions, and each live gauge is
recorded for one of them. -/
theorem listed_after_accepting_cycle {schedule : Schedule} {past : List (List Moment)}
    {moments : List Moment} {steps : List Step}
    (timeline : Timeline schedule Site.empty (past ++ [moments]) steps)
    (catalog : ∀ index, Catalog.Begins (Step.changesOf index steps))
    (cycle : Operation.cycle.Runs schedule moments)
    (reliable : ∀ moment ∈ (past ++ [moments]).flatten, ¬ moment.event.IsStoreFailure)
    (unhurried : ∀ moment ∈ (past ++ [moments]).flatten, moment.event ≠ .deadline)
    (accepting : ∀ moment ∈ moments, ∀ id error,
      moment.event ≠ .gateway (.delete id) (.error error)) :
    ∃ text? metrics others,
      moments = Moment.ofMain [.store (.get Store.metricsKey) (.ok text?)] ++ others ∧
      Store.metricsIn? text? = some metrics ∧
      (∀ name key, Store.IsKeyOf name key →
        ((Site.empty.afterSteps steps).contents.get? key).isSome →
          name ∈ metrics.map Metric.name) ∧
      ∀ id, ((Site.empty.afterSteps steps).published.get? id).isSome →
        ∃ name ∈ metrics.map Metric.name, (Site.empty.afterSteps steps).Records name id := by
  obtain ⟨orderly, marks⟩ : (Site.empty.afterSteps steps).Orderly ∧
      (past ++ [moments] = past ++ [moments] →
        Cycle.MarksListed moments (Site.empty.afterSteps steps)) := by
    refine timeline.induct (P := fun done site => site.Orderly ∧
      (done = past ++ [moments] → Cycle.MarksListed moments site)) ?_ ?_ ?_
    · rintro done left right alike ⟨orderly, marks⟩
      exact ⟨orderly.of_alike alike, fun whole => (marks whole).of_alike alike⟩
    · exact ⟨.of_sound Site.sound_empty Site.paired_empty, by simp⟩
    · rintro done others future earlier later operation shape split runs - lawful ⟨orderly, -⟩
      have listed := timeline.listedIn catalog Catalog.listedIn_none split
      have sound := orderly.sound listed.uniqueIn
      have inAll {moment : Moment} (member : moment ∈ others) :
          moment ∈ (past ++ [moments]).flatten :=
        List.mem_flatten.mpr ⟨others, shape ▸ by simp, member⟩
      have soundThen := sound.after_operation runs lawful
        (fun moment member => reliable moment (inAll member))
        (fun moment member => unhurried moment (inAll member))
      have pairedThen := orderly.paired.after_operation runs lawful
        fun name moment member fails => reliable moment (inAll member) fails.isStoreFailure
      refine ⟨.of_sound soundThen pairedThen, fun whole => ?_⟩
      obtain rfl : others = moments := by simpa using (List.append_inj' whole rfl).2
      exact Cycle.marksListed_after_cycle cycle lawful (listed.imp fun _ decoded => decoded.1)
        (fun moment member => reliable moment (inAll member)) accepting
  obtain ⟨text?, metrics, others, opening, decoded, listed⟩ := marks rfl
  refine ⟨text?, metrics, others, opening, decoded, ?_, ?_⟩
  · rintro name key (rfl | rfl) stored
    · exact listed name stored
    · exact listed name (orderly.paired name stored)
  · intro id live
    obtain ⟨name, recorded, marked⟩ := orderly.known id live
    exact ⟨name, listed name marked, recorded⟩

namespace Cycle.Example

open Sampling (ids withdrawal refusedIds)
open Sampling.Example (metric sample)

/-- The withdrawal of the gauge of the first cycle, with what the gateway says. -/
def withdrawn (given : Gateway.Answer) : List Gateway.Ended :=
  [(.delete (sample "o").id, given)]

/-- The clean-up after the metric of the first cycle. -/
def reaped (given : Gateway.Answer) : List Event :=
  .store (.scan Store.markerStart) (.ok [Store.markerKey "m"]) ::
    (removal "m" (some (Store.idsText (ids [sample "o"]))) (withdrawn given) ++
      if given.isOk then [.count .metricsReaped 1] else [])

/-- A cycle that finds no definitions but the marker of the first cycle. -/
def reaping (given : Gateway.Answer) : List Moment :=
  Moment.ofMain [.store (.get Store.metricsKey) (.ok (some (Metric.listText [])))] ++
    (Moment.ofMain [.store (.getMany []) (.ok []), .clock Timestamp.epoch] ++
      Moment.ofMain (reaped given)) ++
    Moment.ofMain [.count .cycles 1]

theorem finishes_removal (given : Gateway.Answer) :
    Program.Finishes Work.Answered (reapMetric Schedule.standard "m")
      (removal "m" (some (Store.idsText (ids [sample "o"]))) (withdrawn given)) given.isOk := by
  have recorded : Store.reading (Store.relatedKey "m") Store.idsIn?
      (.ok (some (Store.idsText (ids [sample "o"])))) = .ok (ids [sample "o"]) :=
    Store.reading_eq_ok_iff.mpr ⟨_, rfl, Store.ofIdsText?_idsText _⟩
  refine finishes_reapMetric_iff.mpr ⟨.ok (some (Store.idsText (ids [sample "o"]))), _, rfl, ?_⟩
  rw [recorded]
  exact finishes_remove_iff.mpr ⟨withdrawn given, .refl _, .ok (), rfl, by cases given <;> rfl⟩

theorem runs_reaping (given : Gateway.Answer) :
    Operation.cycle.Runs Schedule.standard (reaping given) := by
  have read : Store.reading Store.metricsKey Store.metricsIn?
      (.ok (some (Metric.listText []))) = .ok [] :=
    Store.reading_eq_ok_iff.mpr ⟨_, rfl, Metric.ofListText?_listText []⟩
  have nobody : SideBySide Schedule.standard [] [] [] := ⟨rfl, nofun, nofun⟩
  have samples : Samples Schedule.standard []
      (Moment.ofMain [.store (.getMany []) (.ok []), .clock Timestamp.epoch]) Report.empty :=
    ⟨.ok [], _, rfl, Timestamp.epoch, [], [],
      finishes_sampleAll_iff.mpr ⟨[], [], nobody, .done (), rfl⟩, rfl, rfl⟩
  have names : ((Text.Set.ofList ([Store.markerKey "m"].filterMap Store.markerName?)).diff
      (Text.Set.ofList ([].map Metric.name))).toList = ["m"] := by decide
  have reaps : Program.Finishes Work.Answered
      (reap Schedule.standard (Text.Set.ofList ([].map Metric.name))) (reaped given)
      given.isOk.toNat := by
    refine finishes_reap_iff.mpr ⟨.ok [Store.markerKey "m"], _, rfl, ?_⟩
    dsimp only
    rw [names]
    exact finishes_reapAll_cons_iff.mpr
      ⟨_, given.isOk, [], 0, finishes_removal given, .done 0, (List.append_nil _).symm,
        (Nat.zero_add _).symm⟩
  refine ⟨⟨0, 0, 0, 0, 0, given.isOk.toNat⟩, finishes_cycle_iff.mpr
    ⟨_, finishes_body_iff.mpr ⟨_, _, rfl, ?_⟩, rfl⟩⟩
  rw [read]
  exact ⟨_, _, _, _, samples, reaps, rfl, rfl⟩

/-- The definition is added, and removed again while it is sampled for the
first time.  The next cycle is refused to withdraw its gauge, the last is not. -/
def steps : List Step :=
  [.change 0 (.store (.get Store.metricsKey) (.ok none)),
    .change 0 (.store (.set Store.metricsKey (Metric.listText [metric])) (.ok ()))] ++
  (firstCycle.take 3).map .poller ++
  [.change 1 (.store (.get Store.metricsKey) (.ok (some (Metric.listText [metric])))),
    .change 1 (.store (.set Store.metricsKey (Metric.listText [])) (.ok ()))] ++
  (firstCycle.drop 3).map .poller ++
  (reaping (.error (.transport "refused"))).map .poller ++ (reaping (.ok ())).map .poller

theorem begins_steps (index : Nat) : Catalog.Begins (Step.changesOf index steps) := by
  match index with
  | 0 =>
      have accepted : metric.check = .ok () := rfl
      refine Or.inl ⟨metric, [], .ok [metric], Catalog.finishes_add_iff.mpr ?_⟩
      rw [accepted]
      exact ⟨.ok none, _, rfl, .ok (), rfl, rfl⟩
  | 1 =>
      have read : Store.reading Store.metricsKey Store.metricsIn?
          (.ok (some (Metric.listText [metric]))) = .ok [metric] :=
        Store.reading_eq_ok_iff.mpr ⟨_, rfl, Metric.ofListText?_listText [metric]⟩
      refine Or.inr ⟨"m", [], .ok [], Catalog.finishes_delete_iff.mpr
        ⟨.ok (some (Metric.listText [metric])), _, rfl, ?_⟩⟩
      rw [read]
      exact ⟨.ok (), rfl, rfl⟩
  | index + 2 =>
      have nothing : Step.changesOf (index + 2) steps = [] := by
        simp only [steps, Step.changesOf_append, Step.changesOf_map_poller, List.append_nil]
        simp [Step.changesOf, Step.changing?]
      rw [nothing]
      exact Or.inr ⟨"m", [.store (.get Store.metricsKey) (.error (.backend ""))], _,
        Catalog.finishes_delete_iff.mpr ⟨_, [], rfl, rfl, rfl⟩⟩

theorem timeline_steps : Timeline Schedule.standard Site.empty
    ([firstCycle, reaping (.error (.transport "refused"))] ++ [reaping (.ok ())]) steps where
  moments := rfl
  operations := by
    intro moments member
    simp only [List.cons_append, List.nil_append, List.mem_cons, List.not_mem_nil, or_false]
      at member
    rcases member with rfl | rfl | rfl
    · exact ⟨.cycle, trivial, runs_firstCycle⟩
    · exact ⟨.cycle, trivial, runs_reaping _⟩
    · exact ⟨.cycle, trivial, runs_reaping _⟩
  changes := by
    intro index event member
    simp only [steps, List.mem_append, List.mem_cons, List.mem_map, List.not_mem_nil, or_false,
      Step.change.injEq, reduceCtorEq, and_false, exists_false] at member
    rcases member with (⟨-, rfl⟩ | ⟨-, rfl⟩) | ⟨-, rfl⟩ | ⟨-, rfl⟩ <;> exact ⟨_, _, rfl, rfl⟩
  lawful := by
    repeat (first | exact trivial | refine ⟨rfl, ?_⟩ | refine ⟨trivial, ?_⟩)

end Cycle.Example

open Cycle.Example (firstCycle reaping steps timeline_steps begins_steps runs_reaping)

/-- After the last cycle nothing is kept, as no name is defined. -/
theorem listed_after_reaping :
    ∃ text? metrics others,
      reaping (.ok ()) = Moment.ofMain [.store (.get Store.metricsKey) (.ok text?)] ++ others ∧
      Store.metricsIn? text? = some metrics ∧
      (∀ name key, Store.IsKeyOf name key →
        ((Site.empty.afterSteps steps).contents.get? key).isSome →
          name ∈ metrics.map Metric.name) ∧
      ∀ id, ((Site.empty.afterSteps steps).published.get? id).isSome →
        ∃ name ∈ metrics.map Metric.name, (Site.empty.afterSteps steps).Records name id := by
  refine listed_after_accepting_cycle timeline_steps begins_steps (runs_reaping _) ?_ ?_ ?_
  · simp [firstCycle, reaping, Cycle.Example.sampled, Cycle.Example.reaped,
      Cycle.Example.withdrawn, Cycle.removal, Cycle.removalWrite, Sampling.Example.firstPass,
      Moment.ofMain, Sampling.publication, Sampling.withdrawal, Sampling.refusedIds,
      Event.ofEnded, Event.IsStoreFailure, Except.isOk, Except.toBool]
  · simp [firstCycle, reaping, Cycle.Example.sampled, Cycle.Example.reaped,
      Cycle.Example.withdrawn, Cycle.removal, Cycle.removalWrite, Sampling.Example.firstPass,
      Moment.ofMain, Sampling.publication, Sampling.withdrawal, Sampling.refusedIds,
      Event.ofEnded, Except.isOk, Except.toBool]
  · simp [reaping, Cycle.Example.reaped, Cycle.Example.withdrawn, Cycle.removal,
      Cycle.removalWrite, Moment.ofMain, Sampling.withdrawal, Sampling.refusedIds, Event.ofEnded,
      Except.isOk, Except.toBool]

end InventoryGauges
