import InventoryGauges.Proofs.Catalog.Trace
import InventoryGauges.Proofs.Cycle.SideBySide
import InventoryGauges.Proofs.Cycle.Trace

/-!
# Stages of operations

What is done to the poller falls into stages, one after another: the passes of
a cycle side by side, the reaping of one name, a purge, a change of the catalog,
and what changes nothing.
-/

namespace InventoryGauges

/-- An event that changes nothing. -/
def Event.IsQuiet (event : Event) : Prop :=
  ∀ site : Site, site.after event = site

/-- Definitions are read of which one has a name. -/
def Event.Lists (name : String) : Event → Prop
  | .store (.get key) (.ok text?) => key = Store.metricsKey ∧
      ∃ metrics, Store.metricsIn? text? = some metrics ∧ name ∈ metrics.map Metric.name
  | _ => False

namespace Event

theorem lists_of_reading {answer : Except Store.Error (Option String)} {metrics : List Metric}
    (read : Store.reading Store.metricsKey Store.metricsIn? answer = .ok metrics) {metric : Metric}
    (member : metric ∈ metrics) : (store (.get Store.metricsKey) answer).Lists metric.name := by
  obtain ⟨text?, rfl, decoded⟩ := Store.reading_eq_ok_iff.mp read
  exact ⟨rfl, metrics, decoded, List.mem_map_of_mem member⟩

theorem isQuiet_get (key : String) (answer : Except Store.Error (Option String)) :
    (store (.get key) answer).IsQuiet := by
  intro site
  cases answer <;> rfl

theorem isQuiet_getMany (keys : List String) (answer : Except Store.Error (List (Option String))) :
    (store (.getMany keys) answer).IsQuiet := by
  intro site
  cases answer <;> rfl

theorem isQuiet_scan (start : String) (answer : Except Store.Error (List String)) :
    (store (.scan start) answer).IsQuiet := by
  intro site
  cases answer <;> rfl

end Event

namespace Site

theorem afterAll_of_isQuiet {site : Site} {events : List Event}
    (quiet : ∀ event ∈ events, event.IsQuiet) : site.afterAll events = site := by
  induction events with
  | nil => rfl
  | cons event events hypothesis =>
      rw [afterAll_cons, quiet event List.mem_cons_self site]
      exact hypothesis fun other member => quiet other (List.mem_cons_of_mem event member)

end Site

/-- A stage of an operation. -/
inductive Stage (schedule : Schedule) : List Moment → Prop
  | quiet {events : List Event} (quiet : ∀ event ∈ events, event.IsQuiet) :
      Stage schedule (Moment.ofMain events)
  | passes {due : List Metric} {endings : List Cycle.Ending} {moments : List Moment}
      (unique : (due.map Metric.name).Nodup)
      (aside : Cycle.SideBySide schedule due endings moments) : Stage schedule moments
  | reap {name : String} {events : List Event} {removed : Bool}
      (finishes : Program.Finishes Work.Answered (Cycle.reapMetric schedule name) events removed) :
      Stage schedule (Moment.ofMain events)
  | purge {events : List Event} {result : Except Cycle.PurgeError Nat}
      (finishes : Program.Finishes Work.Answered Cycle.purge events result) :
      Stage schedule (Moment.ofMain events)
  | add {metric : Metric} {events : List Event} {result : Except Catalog.Error (List Metric)}
      (finishes : Program.Finishes Work.Answered (Work.ofCalls (Catalog.add metric).run) events
        result) : Stage schedule (Moment.ofMain events)
  | delete {name : String} {events : List Event} {result : Except Store.Error (List Metric)}
      (finishes : Program.Finishes Work.Answered (Work.access (Catalog.delete name)) events
        result) : Stage schedule (Moment.ofMain events)

/-- Moments that fall into stages. -/
def Staged (schedule : Schedule) (moments : List Moment) : Prop :=
  ∃ stages : List (List Moment), (∀ stage ∈ stages, Stage schedule stage) ∧
    moments = stages.flatten

namespace Staged

variable {schedule : Schedule} {left right moments : List Moment}

theorem of_stage (stage : Stage schedule moments) : Staged schedule moments :=
  ⟨[moments], fun _ member => List.mem_singleton.mp member ▸ stage, by simp⟩

theorem append (first : Staged schedule left) (last : Staged schedule right) :
    Staged schedule (left ++ right) := by
  obtain ⟨stages, each, rfl⟩ := first
  obtain ⟨others, eachOther, rfl⟩ := last
  refine ⟨stages ++ others, ?_, List.flatten_append.symm⟩
  intro stage member
  exact (List.mem_append.mp member).elim (each stage) (eachOther stage)

/-- What each stage carries from one site to the next holds in the end. -/
theorem induct {P : Site → List Moment → Prop} {site : Site} (staged : Staged schedule moments)
    (lawful : site.Lawful (moments.map Moment.event))
    (nil : ∀ site, P site [])
    (append : ∀ site left right, P site left → P (site.afterAll (left.map Moment.event)) right →
      P site (left ++ right))
    (stage : ∀ site moments, Stage schedule moments → site.Lawful (moments.map Moment.event) →
      P site moments) : P site moments := by
  obtain ⟨stages, each, rfl⟩ := staged
  induction stages generalizing site with
  | nil => exact nil site
  | cons first stages hypothesis =>
      rw [List.flatten_cons, List.map_append, Site.lawful_append] at lawful
      rw [List.flatten_cons]
      exact append site first stages.flatten
        (stage site first (each first List.mem_cons_self) lawful.1)
        (hypothesis (fun other member => each other (List.mem_cons_of_mem first member)) lawful.2)

/-- What each stage keeps, as long as only what is allowed happens, is kept. -/
theorem keeps (Kept : Site → Prop) (Allowed : Moment → Prop) {site : Site}
    (staged : Staged schedule moments) (lawful : site.Lawful (moments.map Moment.event))
    (allowed : ∀ moment ∈ moments, Allowed moment)
    (stage : ∀ site moments, Stage schedule moments → site.Lawful (moments.map Moment.event) →
      (∀ moment ∈ moments, Allowed moment) → Kept site →
        Kept (site.afterAll (moments.map Moment.event)))
    (start : Kept site) : Kept (site.afterAll (moments.map Moment.event)) := by
  refine staged.induct
    (P := fun site moments => (∀ moment ∈ moments, Allowed moment) → Kept site →
      Kept (site.afterAll (moments.map Moment.event))) lawful ?_ ?_ ?_ allowed start
  · exact fun site _ kept => kept
  · intro site left right first last allowed kept
    rw [List.map_append, Site.afterAll_append]
    refine last ?_ (first ?_ kept)
    · exact fun moment member => allowed moment (List.mem_append_right left member)
    · exact fun moment member => allowed moment (List.mem_append_left right member)
  · exact fun site moments part lawful allowed kept => stage site moments part lawful allowed kept

end Staged

namespace Cycle

variable {schedule : Schedule}

section Parts

variable {P : List Moment → Prop}
  (append : ∀ {left right : List Moment}, P left → P right → P (left ++ right))
  (quiet : ∀ {events : List Event}, (∀ event ∈ events, event.IsQuiet) → P (Moment.ofMain events))
include append quiet

/-- Reaping names falls into reaping each of them. -/
theorem induct_of_finishes_reapAll {names : List String} {events : List Event} {reaped : Nat}
    (reap : ∀ {name : String} {events : List Event} {removed : Bool},
      Program.Finishes Work.Answered (reapMetric schedule name) events removed →
        P (Moment.ofMain events))
    (finishes : Program.Finishes Work.Answered (reapAll schedule names) events reaped) :
    P (Moment.ofMain events) := by
  induction names generalizing events reaped with
  | nil =>
      obtain ⟨rfl, -⟩ := Program.finishes_done_iff.mp finishes
      exact quiet nofun
  | cons name names hypothesis =>
      obtain ⟨first, removed, last, others, reaps, reapsAll, rfl, -⟩ :=
        finishes_reapAll_cons_iff.mp finishes
      rw [Moment.ofMain_append, Moment.ofMain_append]
      refine append (append (reap reaps) (quiet ?_)) (hypothesis reapsAll)
      intro event member
      cases removed with
      | true =>
          obtain rfl := List.mem_singleton.mp member
          exact fun site => rfl
      | false => exact absurd member List.not_mem_nil

theorem induct_of_finishes_reap {active : Text.Set} {events : List Event} {reaped : Nat}
    (reap : ∀ {name : String} {events : List Event} {removed : Bool},
      Program.Finishes Work.Answered (reapMetric schedule name) events removed →
        P (Moment.ofMain events))
    (finishes : Program.Finishes Work.Answered (Cycle.reap schedule active) events reaped) :
    P (Moment.ofMain events) := by
  obtain ⟨answer, others, rfl, continues⟩ := finishes_reap_iff.mp finishes
  rw [← List.singleton_append, Moment.ofMain_append]
  refine append (quiet ?_) ?_
  · intro event member
    obtain rfl := List.mem_singleton.mp member
    exact Event.isQuiet_scan _ answer
  · cases answer with
    | error error =>
        obtain ⟨rfl, -⟩ := continues
        exact quiet nofun
    | ok keys => exact induct_of_finishes_reapAll append quiet reap continues

/-- What comes before reaping are passes side by side, and what changes nothing. -/
theorem induct_of_samples {metrics : List Metric} {moments : List Moment} {report : Report}
    (passes : ∀ {due : List Metric} {endings : List Ending} {passed : List Moment},
      due.Sublist metrics → SideBySide schedule due endings passed → P passed)
    (samples : Samples schedule metrics moments report) : P moments := by
  obtain ⟨answer, others, rfl, continues⟩ := samples
  refine append (quiet ?_) ?_
  · intro event member
    obtain rfl := List.mem_singleton.mp member
    exact Event.isQuiet_getMany _ answer
  · cases answer with
    | error error =>
        obtain ⟨rfl, -⟩ := continues
        exact @quiet [] nofun
    | ok texts =>
        obtain ⟨now, passed, endings, finishes, rfl, -⟩ := continues
        obtain ⟨passed, counted, aside, counts, rfl⟩ := finishes_sampleAll_iff.mp finishes
        refine append (quiet ?_) (append (passes List.filter_sublist aside) (quiet ?_))
        · intro event member
          obtain rfl := List.mem_singleton.mp member
          exact fun site => rfl
        · intro event member
          obtain ⟨counter, amount, rfl⟩ := exists_count_of_finishes_countLost counts event member
          exact fun site => rfl

/-- A cycle begins by reading the definitions.  It falls into passes of some of
them, side by side, into reaping one name after another, and into what changes
nothing. -/
theorem induct_of_runs {moments : List Moment} (runs : Operation.cycle.Runs schedule moments)
    (passes : ∀ {answer : Except Store.Error (Option String)} {others : List Moment}
      {metrics due : List Metric} {endings : List Ending} {passed : List Moment},
      moments = Moment.ofMain [.store (.get Store.metricsKey) answer] ++ others →
      Store.reading Store.metricsKey Store.metricsIn? answer = .ok metrics →
      due.Sublist metrics → SideBySide schedule due endings passed → P passed)
    (reap : ∀ {name : String} {events : List Event} {removed : Bool},
      Program.Finishes Work.Answered (reapMetric schedule name) events removed →
        P (Moment.ofMain events)) : P moments := by
  obtain ⟨report, finishes⟩ := runs
  obtain ⟨done, does, rfl⟩ := finishes_cycle_iff.mp finishes
  obtain ⟨answer, others, rfl, continues⟩ := finishes_body_iff.mp does
  refine append (append (quiet ?_) ?_) (quiet ?_)
  · intro event member
    obtain rfl := List.mem_singleton.mp member
    exact Event.isQuiet_get _ answer
  · cases read : Store.reading Store.metricsKey Store.metricsIn? answer with
    | error error =>
        rw [read] at continues
        obtain ⟨rfl, -⟩ := continues
        exact @quiet [] nofun
    | ok metrics =>
        rw [read] at continues
        obtain ⟨sampled, sampling, reaped, count, samples, reaps, rfl, -⟩ := continues
        exact append
          (induct_of_samples append quiet (passes (List.append_assoc _ _ _) read) samples)
          (induct_of_finishes_reap append quiet reap reaps)
  · intro event member
    obtain rfl := List.mem_singleton.mp member
    exact fun site => rfl

end Parts

theorem staged_of_quiet {events : List Event} (quiet : ∀ event ∈ events, event.IsQuiet) :
    Staged schedule (Moment.ofMain events) :=
  .of_stage (.quiet quiet)

end Cycle

namespace Operation.Runs

variable {schedule : Schedule} {operation : Operation} {moments : List Moment}

/-- If the definitions that an operation reads first have unique names, it falls
into stages. -/
theorem staged_of_first (runs : operation.Runs schedule moments)
    (unique : ∀ answer others metrics,
      moments = Moment.ofMain [.store (.get Store.metricsKey) answer] ++ others →
      Store.reading Store.metricsKey Store.metricsIn? answer = .ok metrics →
        (metrics.map Metric.name).Nodup) : Staged schedule moments := by
  cases operation with
  | cycle =>
      refine Cycle.induct_of_runs .append Cycle.staged_of_quiet runs ?_ ?_
      · intro answer others metrics due endings passed shape read sublist aside
        have distinct := unique answer others metrics shape read
        exact .of_stage (.passes (distinct.sublist (sublist.map Metric.name)) aside)
      · exact fun reaps => .of_stage (.reap reaps)
  | purge =>
      obtain ⟨events, result, finishes, rfl⟩ := runs
      exact .of_stage (.purge finishes)
  | add metric =>
      obtain ⟨events, result, finishes, rfl⟩ := runs
      exact .of_stage (.add finishes)
  | delete name =>
      obtain ⟨events, result, finishes, rfl⟩ := runs
      exact .of_stage (.delete finishes)

theorem staged (runs : operation.Runs schedule moments)
    (unique : ∀ moment ∈ moments, moment.event.LoadsUnique) : Staged schedule moments := by
  apply runs.staged_of_first
  rintro answer others metrics rfl read
  obtain ⟨text?, rfl, decoded⟩ := Store.reading_eq_ok_iff.mp read
  cases text? with
  | none =>
      obtain rfl := Option.some.inj decoded
      exact List.nodup_nil
  | some text => exact unique _ (List.mem_append_left _ List.mem_cons_self) rfl metrics decoded

/-- What the parts of an operation carry from one site to the next holds in the
end, also where the names that a cycle finds are not unique. -/
theorem induct {P : Site → List Moment → Prop} {site : Site}
    (runs : operation.Runs schedule moments) (lawful : site.Lawful (moments.map Moment.event))
    (append : ∀ site left right, P site left → P (site.afterAll (left.map Moment.event)) right →
      P site (left ++ right))
    (quiet : ∀ site events, (∀ event ∈ events, event.IsQuiet) → P site (Moment.ofMain events))
    (passes : ∀ site due endings passed,
      (∀ metric ∈ due, ∃ moment ∈ moments, moment.event.Lists metric.name) →
      Cycle.SideBySide schedule due endings passed → passed ⊆ moments → P site passed)
    (reap : ∀ site name events removed,
      Program.Finishes Work.Answered (Cycle.reapMetric schedule name) events removed →
      Moment.ofMain events ⊆ moments → site.Lawful events → P site (Moment.ofMain events))
    (purge : ∀ site events result, Program.Finishes Work.Answered Cycle.purge events result →
      site.Lawful events → P site (Moment.ofMain events))
    (change : ∀ site events, Catalog.Changes events → P site (Moment.ofMain events)) :
    P site moments := by
  cases operation with
  | cycle =>
      refine Cycle.induct_of_runs (P := fun part => part ⊆ moments →
        ∀ site : Site, site.Lawful (part.map Moment.event) → P site part)
        ?_ ?_ runs ?_ ?_ (List.Subset.refl moments) site lawful
      · intro left right first last inAll site lawful
        rw [List.append_subset] at inAll
        rw [List.map_append, Site.lawful_append] at lawful
        exact append site left right (first inAll.1 site lawful.1) (last inAll.2 _ lawful.2)
      · exact fun silent _ site _ => quiet site _ silent
      · intro answer others metrics due endings passed shape read sublist aside inAll site _
        refine passes site due endings passed (fun metric member => ?_) aside inAll
        exact ⟨_, shape ▸ List.mem_append_left others List.mem_cons_self,
          Event.lists_of_reading read (sublist.subset member)⟩
      · intro name events removed finishes inAll site lawful
        rw [Moment.map_event_ofMain] at lawful
        exact reap site name events removed finishes inAll lawful
  | purge =>
      obtain ⟨events, result, finishes, rfl⟩ := runs
      rw [Moment.map_event_ofMain] at lawful
      exact purge site events result finishes lawful
  | add metric =>
      obtain ⟨events, result, finishes, rfl⟩ := runs
      exact change site events (Catalog.changes_of_finishes_add finishes)
  | delete name =>
      obtain ⟨events, result, finishes, rfl⟩ := runs
      exact change site events (Catalog.changes_of_finishes_delete finishes)

end Operation.Runs

/-- Passes of metrics that are not listed under a name leave its keys alone. -/
theorem Cycle.SideBySide.written?_of_unlisted {schedule : Schedule} {due : List Metric}
    {endings : List Ending} {passed moments : List Moment} {name : String}
    (aside : SideBySide schedule due endings passed)
    (listed : ∀ metric ∈ due, ∃ moment ∈ moments, moment.event.Lists metric.name)
    (unlisted : ∀ moment ∈ moments, ¬ moment.event.Lists name) {moment : Moment}
    (member : moment ∈ passed) {key : String} (own : Store.IsKeyOf name key) :
    moment.event.written? key = none := by
  obtain ⟨index, metric, -, found, does⟩ := aside.does member
  refine Event.written?_of_within does.within fun theirs => ?_
  obtain rfl := Store.eq_of_isKeyOf theirs own
  obtain ⟨other, inMoments, lists⟩ := listed metric (List.mem_of_getElem? found)
  exact unlisted other inMoments lists

/-- What each part of some moments carries from one site to the next holds in the
end. -/
theorem Site.Lawful.induct_flatten {site : Site} {parts : List (List Moment)}
    {P : Site → List Moment → Prop} (lawful : site.Lawful (parts.flatten.map Moment.event))
    (nil : ∀ site, P site [])
    (append : ∀ site left right, P site left → P (site.afterAll (left.map Moment.event)) right →
      P site (left ++ right))
    (each : ∀ site : Site, ∀ moments ∈ parts, site.Lawful (moments.map Moment.event) →
      P site moments) : P site parts.flatten := by
  induction parts generalizing site with
  | nil => exact nil site
  | cons moments parts hypothesis =>
      rw [List.flatten_cons, List.map_append, Site.lawful_append] at lawful
      rw [List.flatten_cons]
      exact append site moments parts.flatten (each site moments List.mem_cons_self lawful.1)
        (hypothesis lawful.2 fun site other member =>
          each site other (List.mem_cons_of_mem moments member))

/-- What each part of some moments preserves holds in the end. -/
theorem Site.Lawful.preserves_flatten {site : Site} {parts : List (List Moment)}
    {P : Site → Prop} (lawful : site.Lawful (parts.flatten.map Moment.event))
    (start : P site)
    (each : ∀ site : Site, ∀ moments ∈ parts, site.Lawful (moments.map Moment.event) →
      P site → P (site.afterAll (moments.map Moment.event))) :
    P (site.afterAll (parts.flatten.map Moment.event)) := by
  refine lawful.induct_flatten (P := fun site moments =>
    P site → P (site.afterAll (moments.map Moment.event))) ?_ ?_ each start
  · exact fun site here => here
  · intro site left right first later here
    rw [List.map_append, Site.afterAll_append]
    exact later (first here)

/-- What each operation of a history carries from one site to the next holds in
the end. -/
theorem History.induct {schedule : Schedule} {site : Site} {history : List (List Moment)}
    {P : Site → List Moment → Prop} (runs : History schedule site history)
    (nil : ∀ site, P site [])
    (append : ∀ site left right, P site left → P (site.afterAll (left.map Moment.event)) right →
      P site (left ++ right))
    (each : ∀ site moments (operation : Operation), moments ∈ history →
      operation.Runs schedule moments → site.Lawful (moments.map Moment.event) →
        P site moments) : P site history.flatten := by
  refine runs.lawful.induct_flatten nil append fun site moments member lawful => ?_
  obtain ⟨operation, goes⟩ := runs.operations moments member
  exact each site moments operation member goes lawful

/-- What each operation of a history preserves holds in the end. -/
theorem History.preserves {schedule : Schedule} {site : Site} {history : List (List Moment)}
    {P : Site → Prop} (runs : History schedule site history) (start : P site)
    (each : ∀ site moments (operation : Operation), moments ∈ history →
      operation.Runs schedule moments → site.Lawful (moments.map Moment.event) →
        P site → P (site.afterAll (moments.map Moment.event))) :
    P (site.afterAll (history.flatten.map Moment.event)) := by
  refine runs.lawful.preserves_flatten start fun site moments member lawful here => ?_
  obtain ⟨operation, goes⟩ := runs.operations moments member
  exact each site moments operation member goes lawful here

end InventoryGauges
