import InventoryGauges.Proofs.Gauges.Reaped
import InventoryGauges.Proofs.Sampling.Extracted

/-!
# What a cycle acts upon

A cycle that cannot read the definitions does nothing, and one that cannot read
the markers samples nothing.  By itself a cycle only withdraws and removes what is
kept for names that have a marker and are not among the definitions that it read.
-/

namespace InventoryGauges

/-- A name has a marker, but is not the name of one of these definitions. -/
def Site.Former (site : Site) (metrics : List Metric) (name : String) : Prop :=
  (site.contents.get? (Store.markerKey name)).isSome ∧ ¬ name ∈ metrics.map Metric.name

namespace Cycle

/-- What a cycle may do by itself that read these definitions. -/
structure Prudent (metrics : List Metric) (site : Site) (event : Event) : Prop where
  /-- The gateway is only called to withdraw what is recorded for a former name. -/
  gateway : ∀ call given, event = .gateway call given →
    ∃ name id, call = .delete id ∧ site.Former metrics name ∧ site.Records name id
  /-- The store is only called to write keys of former names. -/
  store : ∀ call given, event = .store call given → ∀ key, call.written? key ≠ none →
    ∃ name, site.Former metrics name ∧ Store.IsKeyOf name key
  /-- Not everything is withdrawn. -/
  wipe : ∀ given, event ≠ .wipe given
  /-- No query is made. -/
  query : ∀ className filter given, event ≠ .query className filter given

/-- To read the store or the clock, and to count, is prudent. -/
theorem Prudent.of_idle {metrics : List Metric} {event : Event}
    (idle : (∃ call given, event = .store call given ∧ ∀ key, call.written? key = none) ∨
      (∃ time, event = .clock time) ∨ ∃ counter amount, event = .count counter amount)
    (site : Site) : Prudent metrics site event := by
  rcases idle with ⟨call, given, rfl, reads⟩ | ⟨time, rfl⟩ | ⟨counter, amount, rfl⟩
  · refine ⟨nofun, ?_, nofun, nofun⟩
    rintro other answer equal key writes
    cases equal
    exact absurd (reads key) writes
  · exact ⟨nofun, nofun, nofun, nofun⟩
  · exact ⟨nofun, nofun, nofun, nofun⟩

/-- What is prudent writes nothing but keys of former names. -/
theorem Prudent.written?_of_foreign {metrics : List Metric} {site : Site} {event : Event}
    (prudent : Prudent metrics site event) {key : String}
    (foreign : ∀ name, site.Former metrics name → ¬ Store.IsKeyOf name key) :
    event.written? key = none := by
  cases event with
  | store call given =>
      refine Classical.byContradiction fun some => ?_
      have writes : call.written? key ≠ none :=
        fun none => some (Event.written?_of_call none given)
      obtain ⟨name, former, own⟩ := prudent.store call given rfl key writes
      exact foreign name former own
  | query _ _ _ | unanswered _ _ | gateway _ _ | wipe _ | clock _ | count _ _ | deadline => rfl

/-- All that a cycle does by itself in some moments is prudent. -/
def Prudently (metrics : List Metric) (site : Site) (moments : List Moment) : Prop :=
  ∀ earlier event later, moments = earlier ++ ⟨.main, event⟩ :: later →
    Prudent metrics (site.afterAll (earlier.map Moment.event)) event

namespace Prudently

variable {metrics : List Metric} {site : Site} {left right moments : List Moment}

theorem append (first : Prudently metrics site left)
    (last : Prudently metrics (site.afterAll (left.map Moment.event)) right) :
    Prudently metrics site (left ++ right) := by
  intro earlier event later split
  rcases List.append_eq_append_iff.mp split with ⟨middle, rfl, rest⟩ | ⟨middle, rfl, rest⟩
  · rw [List.map_append, Site.afterAll_append]
    exact last middle event later rest
  · cases middle with
    | nil =>
        rw [List.append_nil] at last
        exact last [] event later rest.symm
    | cons head middle =>
        obtain ⟨rfl, -⟩ := List.cons.inj rest
        exact first earlier event middle rfl

theorem of_forall
    (each : ∀ event, ⟨.main, event⟩ ∈ moments → ∀ site, Prudent metrics site event) :
    Prudently metrics site moments := by
  rintro earlier event later rfl
  exact each event (by simp) _

end Prudently

variable {schedule : Schedule} {metrics : List Metric} {site : Site} {events : List Event}
  {name : String} {removed : Bool}

/-- Reaping a former name is prudent, as nothing of it is written before the end. -/
theorem prudently_reapMetric (former : site.Former metrics name)
    (finishes : Program.Finishes Work.Answered (reapMetric schedule name) events removed)
    (lawful : site.Lawful events) : Prudently metrics site (Moment.ofMain events) := by
  intro earlier event later split
  obtain ⟨first, rest, rfl, rfl, tail⟩ := List.map_eq_append_iff.mp split
  obtain ⟨own, last, rfl, equal, rfl⟩ := List.map_eq_cons_iff.mp tail
  obtain rfl : own = event := congrArg Moment.event equal
  have unwritten := written?_before_of_finishes_reapMetric finishes
  rw [show (first.map (Moment.mk .main)).map Moment.event = first from
    Moment.map_event_ofMain first]
  have formerThen : (site.afterAll first).Former metrics name := by
    rw [Site.Former, Site.get?_contents_afterAll fun event member => unwritten event member _]
    exact former
  have member : own ∈ first ++ own :: last := by simp
  constructor
  · rintro call given rfl
    rcases cases_of_mem_reapMetric finishes lawful member with
      ⟨_, _, equal⟩ | ⟨id, _, equal, recorded⟩ | ⟨_, _, equal⟩
    · cases equal
    · cases equal
      refine ⟨name, id, rfl, formerThen, ?_⟩
      rw [Site.Records, Site.recorded?_afterAll fun event member => unwritten event member _]
      exact recorded
    · cases equal
  · rintro call given rfl key writes
    refine ⟨name, formerThen, Classical.byContradiction fun foreign => writes ?_⟩
    exact Store.Call.written?_of_within (within_of_finishes_reapMetric finishes _ member) foreign
  · rintro given rfl
    rcases cases_of_mem_reapMetric finishes lawful member with
      ⟨_, _, equal⟩ | ⟨_, _, equal, -⟩ | ⟨_, _, equal⟩ <;> cases equal
  · rintro className filter given rfl
    rcases cases_of_mem_reapMetric finishes lawful member with
      ⟨_, _, equal⟩ | ⟨_, _, equal, -⟩ | ⟨_, _, equal⟩ <;> cases equal

/-- Reaping a name leaves other names former. -/
theorem former_after_reapMetric {other : String} (former : site.Former metrics other)
    (different : other ≠ name)
    (finishes : Program.Finishes Work.Answered (reapMetric schedule name) events removed) :
    (site.afterAll events).Former metrics other := by
  rw [Site.Former, Site.get?_contents_afterAll]
  · exact former
  · intro event member
    apply Event.written?_of_within (within_of_finishes_reapMetric finishes event member)
    exact fun own => different (Store.eq_of_isKeyOf (Or.inl rfl) own)

theorem prudently_reapAll {names : List String} {reaped : Nat} (distinct : names.Nodup)
    (former : ∀ name ∈ names, site.Former metrics name)
    (finishes : Program.Finishes Work.Answered (reapAll schedule names) events reaped)
    (lawful : site.Lawful events) : Prudently metrics site (Moment.ofMain events) := by
  induction names generalizing site events reaped with
  | nil =>
      obtain ⟨rfl, -⟩ := Program.finishes_done_iff.mp finishes
      exact .of_forall nofun
  | cons first names hypothesis =>
      obtain ⟨own, removed, last, others, reaps, reapsAll, rfl, -⟩ :=
        finishes_reapAll_cons_iff.mp finishes
      obtain ⟨absent, distinct⟩ := List.nodup_cons.mp distinct
      have counted (site : Site) :
          site.afterAll (if removed then [.count .metricsReaped 1] else []) = site := by
        cases removed <;> rfl
      rw [Site.lawful_append, Site.lawful_append, Site.afterAll_append, counted] at lawful
      rw [Moment.ofMain_append, Moment.ofMain_append]
      refine ((prudently_reapMetric (former first List.mem_cons_self) reaps lawful.1.1).append
        (.of_forall ?_)).append ?_
      · intro event member site
        cases removed with
        | true =>
            obtain ⟨-, rfl⟩ := Moment.mk.inj (List.mem_singleton.mp member)
            exact .of_idle (Or.inr (Or.inr ⟨_, _, rfl⟩)) site
        | false => cases member
      · rw [List.map_append, Moment.map_event_ofMain, Moment.map_event_ofMain,
          Site.afterAll_append, counted]
        refine hypothesis distinct (fun name member => ?_) reapsAll lawful.2
        refine former_after_reapMetric (former name (List.mem_cons_of_mem first member)) ?_ reaps
        rintro rfl
        exact absent member

/-- What is reaped are the names that have markers and are not among those of the
definitions. -/
theorem prudently_reap {reaped : Nat}
    (finishes : Program.Finishes Work.Answered
      (reap schedule (Text.Set.ofList (metrics.map Metric.name))) events reaped)
    (lawful : site.Lawful events) : Prudently metrics site (Moment.ofMain events) := by
  obtain ⟨answer, others, rfl, continues⟩ := finishes_reap_iff.mp finishes
  rw [← List.singleton_append, Moment.ofMain_append]
  refine Prudently.append (.of_forall ?_) ?_
  · intro event member site
    obtain ⟨-, rfl⟩ := Moment.mk.inj (List.mem_singleton.mp member)
    exact .of_idle (Or.inl ⟨_, _, rfl, fun _ => rfl⟩) site
  · rw [Moment.map_event_ofMain, Site.afterAll_cons, Site.afterAll_nil]
    cases answer with
    | error error =>
        obtain ⟨rfl, -⟩ := continues
        exact .of_forall nofun
    | ok keys =>
        refine prudently_reapAll (Text.Set.nodup_toList _) (fun name member => ?_) continues
          lawful.2
        obtain ⟨scanned, inactive⟩ := Text.Set.mem_diff.mp member
        obtain rfl : keys = (Store.perform (.scan Store.markerStart) site.contents).1 := lawful.1
        refine ⟨(Store.mem_names_of_scan site.contents).mp (Text.Set.mem_ofList.mp scanned), ?_⟩
        exact fun listed => inactive (Text.Set.mem_ofList.mpr listed)

/-- Before it reaps, a cycle by itself only reads and counts. -/
theorem prudently_samples {moments : List Moment} {report : Report}
    (samples : Samples schedule metrics moments report) : Prudently metrics site moments := by
  obtain ⟨answer, others, rfl, continues⟩ := samples
  refine .of_forall fun event member => ?_
  rcases List.mem_append.mp member with reading | later
  · obtain ⟨-, rfl⟩ := Moment.mk.inj (List.mem_singleton.mp reading)
    exact .of_idle (Or.inl ⟨_, _, rfl, fun _ => rfl⟩)
  · cases answer with
    | error error => exact absurd (continues.1 ▸ later) List.not_mem_nil
    | ok texts =>
        obtain ⟨now, _, endings, finishes, rfl, -⟩ := continues
        obtain ⟨passed, counted, aside, counts, rfl⟩ := finishes_sampleAll_iff.mp finishes
        rcases List.mem_append.mp later with telling | sampling
        · obtain ⟨-, rfl⟩ := Moment.mk.inj (List.mem_singleton.mp telling)
          exact .of_idle (Or.inr (Or.inl ⟨_, rfl⟩))
        · rcases List.mem_append.mp sampling with passing | counting
          · obtain ⟨index, -, actor⟩ := aside.actors _ passing
            cases actor
          · obtain ⟨own, inCounted, equal⟩ := List.mem_map.mp counting
            obtain ⟨-, rfl⟩ := Moment.mk.inj equal
            obtain ⟨counter, amount, rfl⟩ :=
              exists_count_of_finishes_countLost counts own inCounted
            exact .of_idle (Or.inr (Or.inr ⟨counter, amount, rfl⟩))

/-- Before it reaps, everything else is done by passes. -/
theorem exists_does_of_samples {moments : List Moment} {report : Report}
    (samples : Samples schedule metrics moments report) {moment : Moment}
    (member : moment ∈ moments) (passing : moment.actor ≠ .main) :
    ∃ metric, Sampling.Does metric moment.event := by
  have main {events : List Event} (own : moment ∈ Moment.ofMain events) : moment.actor = .main := by
    obtain ⟨event, -, rfl⟩ := List.mem_map.mp own
    rfl
  obtain ⟨answer, others, rfl, continues⟩ := samples
  rcases List.mem_append.mp member with reading | later
  · exact absurd (main reading) passing
  · cases answer with
    | error error => exact absurd (continues.1 ▸ later) List.not_mem_nil
    | ok texts =>
        obtain ⟨now, _, endings, finishes, rfl, -⟩ := continues
        obtain ⟨passed, counted, aside, counts, rfl⟩ := finishes_sampleAll_iff.mp finishes
        rcases List.mem_append.mp later with telling | sampling
        · exact absurd (main telling) passing
        · rcases List.mem_append.mp sampling with inPassed | counting
          · obtain ⟨index, metric, -, -, does⟩ := aside.does inPassed
            exact ⟨metric, does⟩
          · exact absurd (main counting) passing

/-- What a cycle does, by what it read as its definitions. -/
structure ActsOnKnowledge (site : Site) (moments : List Moment) (report : Report)
    (answer : Except Store.Error (Option String)) : Prop where
  /-- It begins by reading the definitions. -/
  reads : ∃ others, moments = Moment.ofMain [.store (.get Store.metricsKey) answer] ++ others
  /-- If these cannot be read or decoded, it does nothing else and is counted. -/
  unread : ∀ error, Store.reading Store.metricsKey Store.metricsIn? answer = .error error →
    moments = Moment.ofMain [.store (.get Store.metricsKey) answer, .count .cycles 1] ∧
      report = Report.empty
  /-- If the markers cannot be read, nothing is sampled. -/
  unmarked : ∀ keys error others,
    moments = Moment.ofMain [.store (.get Store.metricsKey) answer,
      .store (.getMany keys) (.error error)] ++ others →
    (∀ moment ∈ moments, moment.actor = .main) ∧
      report = { Report.empty with metrics := report.metrics, reaped := report.reaped }
  /-- It only cleans up after former names, and withdraws what is recorded for them. -/
  prudent : ∀ metrics, Store.reading Store.metricsKey Store.metricsIn? answer = .ok metrics →
    ∀ earlier event later, moments = earlier ++ ⟨.main, event⟩ :: later →
      Prudent metrics (site.afterAll (earlier.map Moment.event)) event
  /-- Cleaning up writes no key of a definition that was read. -/
  spares : ∀ metrics, Store.reading Store.metricsKey Store.metricsIn? answer = .ok metrics →
    ∀ metric ∈ metrics, ∀ key, Store.IsKeyOf metric.name key →
      ∀ event, ⟨.main, event⟩ ∈ moments → event.written? key = none
  /-- The definitions are never written. -/
  definitions : ∀ moment ∈ moments, moment.event.written? Store.metricsKey = none

theorem actsOnKnowledge_of_unread {answer : Except Store.Error (Option String)}
    {error : Store.Error}
    (read : Store.reading Store.metricsKey Store.metricsIn? answer = .error error) :
    ActsOnKnowledge site (Moment.ofMain [.store (.get Store.metricsKey) answer, .count .cycles 1])
      Report.empty answer where
  reads := ⟨Moment.ofMain [.count .cycles 1], rfl⟩
  unread := fun _ _ => ⟨rfl, rfl⟩
  unmarked := by
    intro keys other others shape
    simp [Moment.ofMain] at shape
  prudent := by
    intro metrics loaded
    rw [read] at loaded
    cases loaded
  spares := by
    intro metrics loaded
    rw [read] at loaded
    cases loaded
  definitions := by
    intro moment member
    simp only [Moment.ofMain, List.map_cons, List.map_nil, List.mem_cons, List.not_mem_nil,
      or_false] at member
    rcases member with rfl | rfl
    · exact Event.written?_get _ _ answer
    · rfl

theorem actsOnKnowledge_of_loaded {answer : Except Store.Error (Option String)}
    {sampled : List Moment} {sampling : Report} {reaped : List Event} {count : Nat}
    (read : Store.reading Store.metricsKey Store.metricsIn? answer = .ok metrics)
    (samples : Samples schedule metrics sampled sampling)
    (reaps : Program.Finishes Work.Answered
      (reap schedule (Text.Set.ofList (metrics.map Metric.name))) reaped count)
    (lawful : site.Lawful ((Moment.ofMain [.store (.get Store.metricsKey) answer] ++
      (sampled ++ Moment.ofMain (reaped ++ [.count .cycles 1]))).map Moment.event)) :
    ActsOnKnowledge site
      (Moment.ofMain [.store (.get Store.metricsKey) answer] ++
        (sampled ++ Moment.ofMain (reaped ++ [.count .cycles 1])))
      { sampling with reaped := count } answer := by
  have prudently : Prudently metrics site
      (Moment.ofMain [.store (.get Store.metricsKey) answer] ++
        (sampled ++ Moment.ofMain (reaped ++ [.count .cycles 1]))) := by
    rw [List.map_append, Site.lawful_append, List.map_append, Site.lawful_append,
      Moment.map_event_ofMain, Moment.map_event_ofMain, Site.lawful_append] at lawful
    rw [Moment.ofMain_append]
    refine Prudently.append (.of_forall ?_)
      ((prudently_samples samples).append (.append ?_ (.of_forall ?_)))
    · intro event member
      obtain ⟨-, rfl⟩ := Moment.mk.inj (List.mem_singleton.mp member)
      exact .of_idle (Or.inl ⟨_, _, rfl, fun _ => rfl⟩)
    · rw [Moment.map_event_ofMain]
      exact prudently_reap reaps lawful.2.2.1
    · intro event member
      obtain ⟨-, rfl⟩ := Moment.mk.inj (List.mem_singleton.mp member)
      exact .of_idle (Or.inr (Or.inr ⟨_, _, rfl⟩))
  have ofMain {events : List Event} {moment : Moment} (member : moment ∈ Moment.ofMain events) :
      moment.actor = .main := by
    obtain ⟨event, -, rfl⟩ := List.mem_map.mp member
    rfl
  constructor
  case reads => exact ⟨_, rfl⟩
  case unread =>
    intro error failed
    rw [read] at failed
    cases failed
  case unmarked =>
    intro keys error others shape
    obtain ⟨given, later, rfl, continues⟩ := samples
    simp only [Moment.ofMain, List.map_cons, List.map_nil, List.cons_append, List.nil_append,
      List.cons.injEq, Moment.mk.injEq, Event.store.injEq, true_and] at shape
    obtain ⟨⟨equal, same⟩, -⟩ := shape
    obtain rfl := Store.Call.getMany.inj equal
    obtain rfl := eq_of_heq same
    obtain ⟨rfl, rfl⟩ := continues
    refine ⟨fun moment member => ?_, rfl⟩
    simp only [List.append_nil, List.mem_append] at member
    exact member.elim ofMain fun later => later.elim ofMain ofMain
  case prudent =>
    intro others loaded
    rw [read] at loaded
    cases loaded
    exact prudently
  case spares =>
    intro others loaded metric listed key own event member
    rw [read] at loaded
    cases loaded
    obtain ⟨earlier, later, split⟩ := List.append_of_mem member
    refine (prudently earlier event later split).written?_of_foreign fun name former theirs => ?_
    obtain rfl := Store.eq_of_isKeyOf own theirs
    exact former.2 (List.mem_map_of_mem listed)
  case definitions =>
    intro moment member
    by_cases main : moment.actor = .main
    · obtain ⟨earlier, later, split⟩ := List.append_of_mem member
      obtain ⟨actor, event⟩ := moment
      subst main
      exact (prudently earlier event later split).written?_of_foreign
        fun name _ => Store.not_isKeyOf_metricsKey name
    · have inSampled : moment ∈ sampled := by
        rcases List.mem_append.mp member with first | later
        · exact absurd (ofMain first) main
        · exact (List.mem_append.mp later).resolve_right fun last => main (ofMain last)
      obtain ⟨metric, does⟩ := exists_does_of_samples samples inSampled main
      exact Event.written?_of_within does.within (Store.not_isKeyOf_metricsKey metric.name)

/-- A cycle never samples or reaps by what it could not read: whatever the store
holds and whatever fails, it acts on the definitions and markers that it read. -/
theorem acts_on_knowledge {moments : List Moment} {report : Report}
    (finishes : Program.Finishes (Answered schedule) (cycle schedule) moments report)
    (lawful : site.Lawful (moments.map Moment.event)) :
    ∃ answer, ActsOnKnowledge site moments report answer := by
  obtain ⟨done, does, rfl⟩ := finishes_cycle_iff.mp finishes
  obtain ⟨answer, others, rfl, continues⟩ := finishes_body_iff.mp does
  refine ⟨answer, ?_⟩
  cases read : Store.reading Store.metricsKey Store.metricsIn? answer with
  | error error =>
      rw [read] at continues
      obtain ⟨rfl, rfl⟩ := continues
      exact actsOnKnowledge_of_unread read
  | ok metrics =>
      rw [read] at continues
      obtain ⟨sampled, sampling, reaped, count, samples, reaps, rfl, rfl⟩ := continues
      rw [List.append_assoc, List.append_assoc, ← Moment.ofMain_append] at lawful ⊢
      exact actsOnKnowledge_of_loaded read samples reaps lawful

open Example (former reaping runs_reaping)

/-- A cycle finds no definitions, but the marker of a former metric. -/
theorem acts_on_former_marker :
    ∃ report answer, ActsOnKnowledge former (reaping (.ok ())) report answer := by
  obtain ⟨report, finishes⟩ := runs_reaping (.ok ())
  have lawful : former.Lawful ((reaping (.ok ())).map Moment.event) := by
    repeat (first | exact trivial | refine ⟨rfl, ?_⟩ | refine ⟨trivial, ?_⟩)
  exact ⟨report, acts_on_knowledge finishes lawful⟩

end Cycle
end InventoryGauges
