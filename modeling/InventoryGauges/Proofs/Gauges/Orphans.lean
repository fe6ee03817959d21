import InventoryGauges.Proofs.Catalog.Unique
import InventoryGauges.Proofs.Gauges.Reconciled
import InventoryGauges.Proofs.Gauges.Retention

/-!
# No orphaned gauges

As long as the store works and no pass is cut off, each live gauge is recorded
for a name that has a marker, so that it can be found and withdrawn later.
-/

namespace InventoryGauges

/-- What is kept about live gauges is enough to find them. -/
structure Site.Sound (site : Site) : Prop where
  /-- The names of stored definitions are unique. -/
  unique : ∀ metrics, Store.metricsIn? (site.contents.get? Store.metricsKey) = some metrics →
    (metrics.map Metric.name).Nodup
  /-- All stored identities can be read. -/
  readable : ∀ name, (site.recorded? name).isSome
  /-- Each live gauge is recorded for a name that has a marker. -/
  known : ∀ id, (site.published.get? id).isSome →
    ∃ name, site.Records name id ∧ (site.contents.get? (Store.markerKey name)).isSome

theorem Site.sound_empty : Site.empty.Sound where
  unique := by
    intro metrics none
    obtain rfl := Option.some.inj none
    exact List.nodup_nil
  readable := fun name => rfl
  known := fun id live => absurd live (by simp [Site.empty])

namespace Cycle

variable {schedule : Schedule} {name : String} {events : List Event} {site : Site}

/-- What is done to remove a name, if the store works: what is recorded for it
is read and withdrawn, and then what is left is written. -/
def removal (name : String) (text? : Option String) (ended : List Gateway.Ended) : List Event :=
  .store (.get (Store.relatedKey name)) (.ok text?) :: Sampling.withdrawal ended ++
    [removalWrite name (Sampling.refusedIds ended) (.ok ())]

/-- If no failure is for corruption, reaping a name stops at once as nothing can be
read, or withdraws all that is recorded for it and then writes. -/
theorem cases_of_lawful_reapMetric {removed : Bool}
    (finishes : Program.Finishes Work.Answered (reapMetric schedule name) events removed)
    (lawful : site.Lawful events) (intact : ∀ event ∈ events, ¬ event.IsCorruption) :
    (∃ error, events = [.store (.get (Store.relatedKey name)) (.error error)] ∧
      removed = false) ∨
      ∃ ended answer, (ended.map Prod.fst).Perm
          (((site.recorded? name).getD Text.Set.empty).toList.map .delete) ∧
        events = .store (.get (Store.relatedKey name))
            (.ok (site.contents.get? (Store.relatedKey name))) :: Sampling.withdrawal ended ++
          [removalWrite name (Sampling.refusedIds ended) answer] ∧
        removed = (decide (Sampling.refusedIds ended = []) && answer.isOk) := by
  rcases cases_of_finishes_reapMetric finishes with
    ⟨error, -, rfl, rfl⟩ | ⟨answer, ended, given, lasting, same, rfl, result⟩
  · exact Or.inl ⟨error, rfl, rfl⟩
  · cases answer with
    | error error =>
        exact absurd (Event.isCorruption_of_not_isRecoverable (lasting error rfl))
          (intact _ List.mem_cons_self)
    | ok text? =>
        obtain rfl : text? = site.contents.get? (Store.relatedKey name) := lawful.1
        rw [Store.toOption_reading_ok] at same
        exact Or.inr ⟨ended, given, same, rfl, result⟩

theorem exists_of_finishes_reapMetric {removed : Bool}
    (finishes : Program.Finishes Work.Answered (reapMetric schedule name) events removed)
    (lawful : site.Lawful events) (reliable : ∀ event ∈ events, ¬ event.IsStoreFailure) :
    ∃ text? ended, (ended.map Prod.fst).Perm
        (((site.recorded? name).getD Text.Set.empty).toList.map .delete) ∧
      events = removal name text? ended ∧
      removed = decide (Sampling.refusedIds ended = []) := by
  have intact : ∀ event ∈ events, ¬ event.IsCorruption :=
    fun event member corrupt => reliable event member corrupt.isStoreFailure
  rcases cases_of_lawful_reapMetric finishes lawful intact with
    ⟨error, rfl, -⟩ | ⟨ended, answer, same, rfl, result⟩
  · exact absurd trivial (reliable _ List.mem_cons_self)
  · obtain rfl := eq_ok_of_removalWrite (reliable _ (List.mem_append_right _ List.mem_cons_self))
    exact ⟨_, ended, same, rfl, by rw [result]; exact Bool.and_true _⟩

section Removal

variable {text? : Option String} {ended : List Gateway.Ended}

/-- What reaping a name leaves in the store. -/
theorem get?_contents_after_removal (key : String) :
    (site.afterAll (removal name text? ended)).contents.get? key =
      ((removalWrite name (Sampling.refusedIds ended) (.ok ())).written? key).getD
        (site.contents.get? key) := by
  rw [removal, Site.afterAll_append, Site.afterAll_cons _ _ [], Site.afterAll_nil,
    Site.get?_contents_after,
    Site.get?_contents_afterAll (Sampling.written?_of_mem_read_withdrawal key)]

theorem get?_contents_after_removal_of_foreign {key : String}
    (foreign : ¬ Store.IsKeyOf name key) :
    (site.afterAll (removal name text? ended)).contents.get? key = site.contents.get? key := by
  rw [get?_contents_after_removal, Event.written?_of_within (within_removalWrite _ _) foreign]
  rfl

theorem recorded?_after_removal :
    (site.afterAll (removal name text? ended)).recorded? name =
      some (Text.Set.ofList (Sampling.refusedIds ended)) := by
  rw [Site.recorded?, get?_contents_after_removal, written?_removalWrite_relatedKey]
  exact idsIn?_removalWrite _

/-- Reaping a name publishes nothing. -/
theorem not_push_mem_removal {ids : List String} {sample : Gauge.Sample} {given : Gateway.Answer}
    (same : (ended.map Prod.fst).Perm (ids.map .delete)) :
    ¬ .gateway (.push sample) given ∈ removal name text? ended := by
  intro member
  rcases List.mem_append.mp member with early | last
  · have withdrawn := (List.mem_cons.mp early).resolve_left (by simp)
    rcases Sampling.cases_of_mem_withdrawal same withdrawn with ⟨_, -, _, equal⟩ | ⟨_, _, equal⟩
    · cases equal
    · cases equal
  · have write := (List.mem_singleton.mp last).symm
    rw [removalWrite] at write
    split at write <;> cases write

end Removal

end Cycle
namespace Site.Sound

variable {schedule : Schedule} {site : Site} {moments : List Moment}

theorem after_passes {due : List Metric} {endings : List Cycle.Ending} (sound : site.Sound)
    (aside : Cycle.SideBySide schedule due endings moments)
    (distinct : (due.map Metric.name).Nodup) (lawful : site.Lawful (moments.map Moment.event))
    (reliable : ∀ moment ∈ moments, ¬ moment.event.IsStoreFailure)
    (unhurried : ∀ moment ∈ moments, moment.event ≠ .deadline) :
    (site.afterAll (moments.map Moment.event)).Sound where
  unique := by
    have untouched : ∀ event ∈ moments.map Moment.event,
        event.written? Store.metricsKey = none := by
      intro event member
      obtain ⟨moment, inMoments, rfl⟩ := List.mem_map.mp member
      obtain ⟨index, metric, -, -, does⟩ := aside.does inMoments
      exact Event.written?_of_within does.within (Store.not_isKeyOf_metricsKey metric.name)
    rw [Site.get?_contents_afterAll untouched]
    exact sound.unique
  readable := by
    intro name
    refine Site.get?_contents_afterAll_induct (P := fun value? => (Store.idsIn? value?).isSome)
      (sound.readable name) ?_
    intro event member value? writes
    obtain ⟨moment, inMoments, rfl⟩ := List.mem_map.mp member
    obtain ⟨index, metric, -, -, does⟩ := aside.does inMoments
    exact does.readable writes
  known := by
    intro id live
    obtain ⟨sample, found⟩ := Option.isSome_iff_exists.mp live
    rcases Site.published_of_afterAll found with ⟨accepted, rfl⟩ | ⟨before, kept⟩
    · obtain ⟨moment, inMoments, pushed⟩ := List.mem_map.mp accepted
      obtain ⟨index, metric, ending, actor, place, runs, own⟩ := aside.exists_pass inMoments
      rw [pushed] at own
      obtain ⟨alone, agree⟩ := aside.alone distinct place (List.append_nil moments).symm lawful
      have inAll {event : Event} (found : event ∈ Moment.eventsOf (.pass index) moments) :
          ⟨.pass index, event⟩ ∈ moments := Moment.mem_eventsOf.mp found
      have works (key : String) : ∀ event ∈ Moment.eventsOf (.pass index) moments,
          ¬ event.IsFailureAt key :=
        fun event found fails =>
          reliable _ (inAll found) (Event.isStoreFailure_of_isFailureAt fails)
      obtain ⟨⟨ids, recorded, inIds⟩, marked⟩ := runs.records_of_pushed
        (fun found => unhurried _ (inAll found) rfl) alone (works _)
        (sound.readable metric.name) own
      refine ⟨metric.name, ⟨ids, ?_, inIds⟩, ?_⟩
      · rw [Site.recorded?, ← agree _ (Or.inr rfl)]
        exact recorded
      · rw [← agree _ (Or.inl rfl)]
        exact marked (works _)
    · obtain ⟨name, recorded, marked⟩ := sound.known id (by rw [before]; rfl)
      have guarded : Guarded schedule name site moments :=
        .of_sideBySide aside distinct lawful
      refine ⟨name, guarded.records (List.append_nil moments).symm recorded kept, ?_⟩
      refine Site.get?_contents_afterAll_induct (P := fun value? => value?.isSome) marked ?_
      intro event member value? writes
      obtain ⟨moment, inMoments, rfl⟩ := List.mem_map.mp member
      obtain ⟨index, metric, -, -, does⟩ := aside.does inMoments
      exact does.marker_isSome writes

theorem after_reap {name : String} {events : List Event} {removed : Bool} (sound : site.Sound)
    (finishes : Program.Finishes Work.Answered (Cycle.reapMetric schedule name) events removed)
    (lawful : site.Lawful events) (reliable : ∀ event ∈ events, ¬ event.IsStoreFailure) :
    (site.afterAll events).Sound := by
  obtain ⟨ids, stored⟩ := Option.isSome_iff_exists.mp (sound.readable name)
  obtain ⟨text?, ended, same, rfl, -⟩ :=
    Cycle.exists_of_finishes_reapMetric finishes lawful reliable
  rw [stored, Option.getD_some] at same
  have apart {other key : String} (different : other ≠ name) (theirs : Store.IsKeyOf other key) :
      ¬ Store.IsKeyOf name key :=
    fun own => different (Store.eq_of_isKeyOf theirs own)
  constructor
  · rw [Cycle.get?_contents_after_removal_of_foreign (Store.not_isKeyOf_metricsKey name)]
    exact sound.unique
  · intro other
    by_cases same : other = name
    · rw [same, Cycle.recorded?_after_removal]
      rfl
    · rw [Site.recorded?,
        Cycle.get?_contents_after_removal_of_foreign (apart same (Or.inr rfl))]
      exact sound.readable other
  · intro id live
    obtain ⟨sample, found⟩ := Option.isSome_iff_exists.mp live
    rcases Site.published_of_afterAll found with ⟨accepted, -⟩ | ⟨before, kept⟩
    · exact absurd accepted (Cycle.not_push_mem_removal same)
    · obtain ⟨other, ⟨others, recorded, inOthers⟩, marked⟩ := sound.known id (by rw [before]; rfl)
      by_cases equal : other = name
      · subst equal
        obtain rfl := Option.some.inj (stored.symm.trans recorded)
        have refused : id ∈ Sampling.refusedIds ended := by
          rcases Sampling.withdrawn_or_refused same inOthers with withdrawn | refused
          · exact absurd rfl (kept _ (List.mem_append_left _ (List.mem_cons_of_mem _ withdrawn)))
          · exact refused
        refine ⟨other, ⟨_, Cycle.recorded?_after_removal, Text.Set.mem_ofList.mpr refused⟩, ?_⟩
        rw [Cycle.get?_contents_after_removal,
          Cycle.written?_removalWrite_markerKey (List.ne_nil_of_mem refused)]
        exact marked
      · refine ⟨other, ⟨others, ?_, inOthers⟩, ?_⟩
        · rw [Site.recorded?,
            Cycle.get?_contents_after_removal_of_foreign (apart equal (Or.inr rfl))]
          exact recorded
        · rw [Cycle.get?_contents_after_removal_of_foreign (apart equal (Or.inl rfl))]
          exact marked

theorem after_purge {events : List Event} {result : Except Cycle.PurgeError Nat}
    (sound : site.Sound)
    (finishes : Program.Finishes Work.Answered Cycle.purge events result) :
    (site.afterAll events).Sound := by
  obtain ⟨answer, others, rfl, continues⟩ := Cycle.finishes_purge_iff.mp finishes
  cases answer with
  | error error =>
      obtain ⟨rfl, -⟩ := continues
      exact sound
  | ok accepted =>
      obtain ⟨forgotten, forgets, -⟩ := continues
      have stores := Cycle.cases_of_finishes_forget forgets
      constructor
      · have untouched : ∀ event ∈ .wipe (.ok ()) :: others,
            event.written? Store.metricsKey = none := by
          intro event member
          rcases List.mem_cons.mp member with rfl | later
          · rfl
          · rcases stores event later with ⟨scanned, rfl⟩ | ⟨name, removed, rfl⟩
            · cases scanned <;> rfl
            · apply Event.written?_delete_of_not_mem
              simp [(Store.markerKey_ne_metricsKey name).symm,
                (Store.relatedKey_ne_metricsKey name).symm]
        rw [Site.get?_contents_afterAll untouched]
        exact sound.unique
      · intro name
        refine Site.get?_contents_afterAll_induct (P := fun value? => (Store.idsIn? value?).isSome)
          (sound.readable name) ?_
        intro event member value? writes
        rcases List.mem_cons.mp member with rfl | later
        · cases writes
        · rcases stores event later with ⟨scanned, rfl⟩ | ⟨other, removed, rfl⟩
          · cases scanned <;> cases writes
          · cases removed with
            | error error => cases writes
            | ok done =>
                rw [Event.written?, Store.Call.written?] at writes
                split at writes
                · obtain rfl := Option.some.inj writes
                  rfl
                · cases writes
      · intro id live
        obtain ⟨sample, found⟩ := Option.isSome_iff_exists.mp live
        rcases Site.published_of_afterAll found with ⟨accepted, -⟩ | ⟨-, kept⟩
        · have later := (List.mem_cons.mp accepted).resolve_left (by simp)
          rcases stores _ later with ⟨_, equal⟩ | ⟨_, _, equal⟩ <;> cases equal
        · exact absurd trivial (kept _ List.mem_cons_self)

/-- A change of the catalog changes nothing but the definitions. -/
theorem after_change {events : List Event} (sound : site.Sound)
    (changes : Catalog.Changes events) (lawful : site.Lawful events) :
    (site.afterAll events).Sound := by
  have calls := changes.exists_call
  have same {key : String} (other : key ≠ Store.metricsKey) :
      (site.afterAll events).contents.get? key = site.contents.get? key := by
    apply Site.get?_contents_afterAll
    intro event member
    obtain ⟨call, answer, rfl, within⟩ := calls event member
    have own : (Event.store call answer).Within (· = Store.metricsKey) := within
    exact Event.written?_of_within own other
  have recorded (name : String) : (site.afterAll events).recorded? name = site.recorded? name := by
    rw [Site.recorded?, same (Store.relatedKey_ne_metricsKey name), Site.recorded?]
  have published (id : String) :
      (site.afterAll events).published.get? id = site.published.get? id := by
    apply Site.get?_published_afterAll
    intro event member
    obtain ⟨call, answer, rfl, -⟩ := calls event member
    rfl
  constructor
  · exact changes.uniqueIn lawful sound.unique
  · intro name
    rw [recorded]
    exact sound.readable name
  · intro id live
    rw [published] at live
    obtain ⟨name, ⟨ids, stored, inIds⟩, marked⟩ := sound.known id live
    refine ⟨name, ⟨ids, (recorded name).trans stored, inIds⟩, ?_⟩
    rw [same (Store.markerKey_ne_metricsKey name)]
    exact marked

theorem after_stage (sound : site.Sound) (stage : Stage schedule moments)
    (lawful : site.Lawful (moments.map Moment.event))
    (reliable : ∀ moment ∈ moments, ¬ moment.event.IsStoreFailure)
    (unhurried : ∀ moment ∈ moments, moment.event ≠ .deadline) :
    (site.afterAll (moments.map Moment.event)).Sound := by
  cases stage with
  | quiet quiet =>
      rw [Moment.map_event_ofMain, Site.afterAll_of_isQuiet quiet]
      exact sound
  | passes distinct aside => exact sound.after_passes aside distinct lawful reliable unhurried
  | reap finishes =>
      rw [Moment.map_event_ofMain] at lawful ⊢
      exact sound.after_reap finishes lawful
        fun event member => reliable _ (List.mem_map_of_mem member)
  | purge finishes =>
      rw [Moment.map_event_ofMain]
      exact sound.after_purge finishes
  | add finishes =>
      rw [Moment.map_event_ofMain] at lawful ⊢
      exact sound.after_change (Catalog.changes_of_finishes_add finishes) lawful
  | delete finishes =>
      rw [Moment.map_event_ofMain] at lawful ⊢
      exact sound.after_change (Catalog.changes_of_finishes_delete finishes) lawful

theorem after_staged (sound : site.Sound) (staged : Staged schedule moments)
    (lawful : site.Lawful (moments.map Moment.event))
    (reliable : ∀ moment ∈ moments, ¬ moment.event.IsStoreFailure)
    (unhurried : ∀ moment ∈ moments, moment.event ≠ .deadline) :
    (site.afterAll (moments.map Moment.event)).Sound := by
  refine staged.keeps Site.Sound
    (fun moment => ¬ moment.event.IsStoreFailure ∧ moment.event ≠ .deadline) lawful
    (fun moment member => ⟨reliable moment member, unhurried moment member⟩) ?_ sound
  intro site moments stage lawful allowed sound
  exact sound.after_stage stage lawful (fun moment member => (allowed moment member).1)
    fun moment member => (allowed moment member).2

/-- Where the stored names are unique, an operation falls into stages. -/
theorem staged {operation : Operation} (sound : site.Sound)
    (runs : operation.Runs schedule moments) (lawful : site.Lawful (moments.map Moment.event)) :
    Staged schedule moments := by
  apply runs.staged_of_first
  rintro answer others metrics rfl read
  exact Catalog.unique_of_reading sound.unique lawful.1 read

theorem after_operation {operation : Operation} (sound : site.Sound)
    (runs : operation.Runs schedule moments) (lawful : site.Lawful (moments.map Moment.event))
    (reliable : ∀ moment ∈ moments, ¬ moment.event.IsStoreFailure)
    (unhurried : ∀ moment ∈ moments, moment.event ≠ .deadline) :
    (site.afterAll (moments.map Moment.event)).Sound :=
  sound.after_staged (sound.staged runs lawful) lawful reliable unhurried

/-- Each operation keeps what is known about live gauges, and so does a whole
history. -/
theorem after_history {history : List (List Moment)} (sound : site.Sound)
    (runs : History schedule site history)
    (reliable : ∀ moment ∈ history.flatten, ¬ moment.event.IsStoreFailure)
    (unhurried : ∀ moment ∈ history.flatten, moment.event ≠ .deadline) :
    (site.afterAll (history.flatten.map Moment.event)).Sound := by
  refine runs.preserves sound fun site moments operation member runs lawful sound => ?_
  have inAll {moment : Moment} (own : moment ∈ moments) : moment ∈ history.flatten :=
    List.mem_flatten.mpr ⟨moments, member, own⟩
  exact sound.after_operation runs lawful (fun moment own => reliable moment (inAll own))
    fun moment own => unhurried moment (inAll own)

end Site.Sound

/-- From the empty site on, as long as the store works and no pass is cut off,
each gauge that is live after some operations is recorded for a name that has a
marker. -/
theorem recorded_of_live {schedule : Schedule} {history : List (List Moment)} {id : String}
    (runs : History schedule Site.empty history)
    (reliable : ∀ moment ∈ history.flatten, ¬ moment.event.IsStoreFailure)
    (unhurried : ∀ moment ∈ history.flatten, moment.event ≠ .deadline)
    (live : ((Site.empty.afterAll (history.flatten.map Moment.event)).published.get? id).isSome) :
    ∃ name, (Site.empty.afterAll (history.flatten.map Moment.event)).Records name id ∧
      ((Site.empty.afterAll (history.flatten.map Moment.event)).contents.get?
        (Store.markerKey name)).isSome :=
  (Site.sound_empty.after_history runs reliable unhurried).known id live

namespace Cycle.Example

open Sampling.Example (metric firstPass finishes_firstPass)

/-- A definition is added. -/
def added : List Moment :=
  Moment.ofMain [.store (.get Store.metricsKey) (.ok none),
    .store (.set Store.metricsKey (Metric.listText [metric])) (.ok ())]

/-- It is sampled for the first time. -/
def sampled : List Moment :=
  Moment.ofMain [.store (.getMany [Store.markerKey "m"]) (.ok [none])] ++
    (Moment.ofMain [.clock Timestamp.epoch] ++
      ((firstPass (.ok ())).map (Moment.mk (.pass 0)) ++ Moment.ofMain []))

/-- The cycle in which this happens. -/
def firstCycle : List Moment :=
  Moment.ofMain [.store (.get Store.metricsKey) (.ok (some (Metric.listText [metric])))] ++
    (sampled ++ Moment.ofMain [.store (.scan Store.markerStart) (.ok [Store.markerKey "m"])]) ++
    Moment.ofMain [.count .cycles 1]

theorem runs_added : (Operation.add metric).Runs Schedule.standard added := by
  have accepted : metric.check = .ok () := rfl
  refine ⟨_, .ok [metric], Catalog.finishes_add_iff.mpr ?_, rfl⟩
  rw [accepted]
  exact ⟨.ok none, _, rfl, .ok (), rfl, rfl⟩

theorem runs_firstCycle : Operation.cycle.Runs Schedule.standard firstCycle := by
  obtain ⟨report, finishes⟩ := finishes_firstPass Schedule.standard (.ok ())
  have read : Store.reading Store.metricsKey Store.metricsIn?
      (.ok (some (Metric.listText [metric]))) = .ok [metric] :=
    Store.reading_eq_ok_iff.mpr ⟨_, rfl, Metric.ofListText?_listText [metric]⟩
  have passes := finishes_sampleAll_iff.mpr
    ⟨_, [], SideBySide.single (.finished finishes), .done (), rfl⟩
  have samples : Samples Schedule.standard [metric] sampled ⟨1, 1, 1, 0, 0, 0⟩ :=
    ⟨.ok [none], _, rfl, Timestamp.epoch, _, _, passes, rfl, rfl⟩
  have nobody : ((Text.Set.ofList ([Store.markerKey "m"].filterMap Store.markerName?)).diff
      (Text.Set.ofList ([metric].map Metric.name))).toList = [] := by decide
  refine ⟨⟨1, 1, 1, 0, 0, 0⟩, finishes_cycle_iff.mpr
    ⟨_, finishes_body_iff.mpr ⟨_, _, rfl, ?_⟩, rfl⟩⟩
  rw [read]
  have reaps : Program.Finishes Work.Answered (reapAll Schedule.standard
      ((Text.Set.ofList ([Store.markerKey "m"].filterMap Store.markerName?)).diff
        (Text.Set.ofList ([metric].map Metric.name))).toList) [] 0 := by
    rw [nobody]
    exact .done 0
  exact ⟨_, _, _, 0, samples,
    finishes_reap_iff.mpr ⟨.ok [Store.markerKey "m"], [], rfl, reaps⟩, rfl, rfl⟩

theorem history_firstCycle : History Schedule.standard Site.empty [added, firstCycle] where
  operations := by
    intro moments member
    simp only [List.mem_cons, List.not_mem_nil, or_false] at member
    rcases member with rfl | rfl
    · exact ⟨_, runs_added⟩
    · exact ⟨_, runs_firstCycle⟩
  lawful := by
    have scanned : [Store.markerKey "m"] = (Store.perform (.scan Store.markerStart)
        (((Text.Map.empty.insert Store.metricsKey (Metric.listText [metric])).insert
          (Store.markerKey "m") Timestamp.epoch.decimal).insert (Store.relatedKey "m")
            (Store.idsText (Sampling.ids [Sampling.Example.sample "o"])))).1 := by decide
    exact ⟨rfl, rfl, rfl, rfl, trivial, trivial, trivial, trivial, trivial, trivial, rfl, rfl,
      trivial, trivial, rfl, trivial, scanned, trivial, trivial⟩

end Cycle.Example

open Cycle.Example (added firstCycle history_firstCycle)
open Sampling.Example (sample)

/-- The gauge of the first cycle is recorded. -/
theorem recorded_after_firstCycle :
    ∃ name, (Site.empty.afterAll ([added, firstCycle].flatten.map Moment.event)).Records name
        (sample "o").id ∧
      ((Site.empty.afterAll ([added, firstCycle].flatten.map Moment.event)).contents.get?
        (Store.markerKey name)).isSome := by
  have live (other : Gauge.Sample) :
      ((Text.Map.empty.insert other.id other).get? other.id).isSome := by
    rw [Text.Map.get?_insert, if_pos rfl]
    rfl
  refine recorded_of_live history_firstCycle ?_ ?_ (live (sample "o"))
  · simp [added, firstCycle, Cycle.Example.sampled, Sampling.Example.firstPass, Moment.ofMain,
      Sampling.publication, Sampling.withdrawal, Event.ofEnded, Event.IsStoreFailure]
  · simp [added, firstCycle, Cycle.Example.sampled, Sampling.Example.firstPass, Moment.ofMain,
      Sampling.publication, Sampling.withdrawal, Event.ofEnded]

end InventoryGauges
