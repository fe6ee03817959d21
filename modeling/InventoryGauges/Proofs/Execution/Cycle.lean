import InventoryGauges.Catalog
import InventoryGauges.Cycle
import InventoryGauges.Proofs.Execution.Interleaving
import InventoryGauges.Proofs.Execution.Work

/-!
# Runs of cycles and histories

How a cycle may go: its passes run side by side, and each may come to its end,
break down or be cut off.  A history is a list of operations one after another.
-/

namespace InventoryGauges
namespace Cycle

/-- How a pass may go within a cycle.  It breaks down only while it awaits its query;
one that may break down wherever it awaits something is a `FragilePass`.  A pass that is
cut off, also while a query is not answered, is cleaned up after. -/
inductive PassRuns (schedule : Schedule) (metric : Metric) : List Event → Ending → Prop
  | finished {events : List Event} {result : Except Sampling.Error Sampling.Report}
      (finishes : Program.Finishes Work.Answered (Sampling.pass schedule metric) events result) :
      PassRuns schedule metric events (.finished result)
  | broken {events : List Event} (stalls : Work.Stalls (Sampling.pass schedule metric) events) :
      PassRuns schedule metric events .broken
  | timedOut {begun cleaned : List Event}
      (begins : Work.Begins (Sampling.pass schedule metric) begun ∨
        Work.Stalls (Sampling.pass schedule metric) begun)
      (cleans : Program.Finishes Work.Answered (Sampling.giveUp schedule metric) cleaned ()) :
      PassRuns schedule metric (begun ++ .deadline :: cleaned) .timedOut

/-- Moments in which the passes of some metrics run side by side, when it is told how a
pass may go. -/
structure SideBySideBy (runs : Metric → List Event → Ending → Prop) (metrics : List Metric)
    (endings : List Ending) (moments : List Moment) : Prop where
  /-- There is one ending for each metric. -/
  lengths : endings.length = metrics.length
  /-- Everything is done by one of the passes. -/
  actors : ∀ moment ∈ moments, ∃ index, index < metrics.length ∧ moment.actor = .pass index
  /-- Each pass runs and ends as it is said. -/
  passes : ∀ (index : Nat) (metric : Metric) (ending : Ending), metrics[index]? = some metric →
    endings[index]? = some ending → runs metric (Moment.eventsOf (.pass index) moments) ending

theorem SideBySideBy.mono {runs more : Metric → List Event → Ending → Prop}
    {metrics : List Metric} {endings : List Ending} {moments : List Moment}
    (aside : SideBySideBy runs metrics endings moments)
    (weaker : ∀ metric events ending, runs metric events ending → more metric events ending) :
    SideBySideBy more metrics endings moments where
  lengths := aside.lengths
  actors := aside.actors
  passes := fun index metric ending found ended =>
    weaker metric _ ending (aside.passes index metric ending found ended)

/-- Whether moments answer a request of a cycle, when it is told which moments
may answer for passes. -/
def AnsweredBy (passes : List Metric → List Ending → List Moment → Prop) :
    (request : Request) → request.Answer → List Moment → Prop
  | .single request, answer, moments =>
      ∃ events, Work.Answered request answer events ∧ moments = Moment.ofMain events
  | .passes metrics, endings, moments => passes metrics endings moments
  | .instant, _, moments => moments = []
  | .observe _, _, moments => moments = Moment.ofMain [.count .cycles 1]

theorem AnsweredBy.mono {passes more : List Metric → List Ending → List Moment → Prop}
    {request : Request} {answer : request.Answer} {moments : List Moment}
    (answered : AnsweredBy passes request answer moments)
    (weaker : ∀ metrics endings moments,
      passes metrics endings moments → more metrics endings moments) :
    AnsweredBy more request answer moments := by
  cases request with
  | single request => exact answered
  | passes metrics => exact weaker metrics answer moments answered
  | instant => exact answered
  | observe started => exact answered

section AnsweredBy

variable {passes : List Metric → List Ending → List Moment → Prop} {schedule : Schedule}
  {moments : List Moment}

theorem finishes_ofWork_iff {Result : Type} {work : Work Result} {result : Result} :
    Program.Finishes (AnsweredBy passes) (ofWork work) moments result ↔
      ∃ events, Program.Finishes Work.Answered work events result ∧
        moments = Moment.ofMain events := by
  induction work generalizing moments with
  | done other =>
      rw [ofWork, Program.finishes_done_iff]
      simp only [Program.finishes_done_iff]
      constructor
      · rintro ⟨rfl, rfl⟩
        exact ⟨[], ⟨rfl, rfl⟩, rfl⟩
      · rintro ⟨_, ⟨rfl, rfl⟩, rfl⟩
        exact ⟨rfl, rfl⟩
  | ask request next hypothesis =>
      rw [ofWork, Program.finishes_ask_iff]
      simp only [hypothesis, Program.finishes_ask_iff]
      constructor
      · rintro ⟨answer, _, _, ⟨first, answers, rfl⟩, ⟨last, continues, rfl⟩, rfl⟩
        exact ⟨first ++ last, ⟨answer, first, last, answers, continues, rfl⟩,
          (Moment.ofMain_append first last).symm⟩
      · rintro ⟨_, ⟨answer, first, last, answers, continues, rfl⟩, rfl⟩
        exact ⟨answer, _, _, ⟨first, answers, rfl⟩, ⟨last, continues, rfl⟩,
          Moment.ofMain_append first last⟩

/-- The passes of some metrics, in the events of the cycle that runs them: what
each of them does, and what is counted then. -/
theorem finishes_sampleAll_iff {due : List Metric} {endings : List Ending} :
    Program.Finishes (AnsweredBy passes) (sampleAll due) moments endings ↔
      ∃ passed counted, passes due endings passed ∧
        Program.Finishes Work.Answered (countLost endings) counted () ∧
        moments = passed ++ Moment.ofMain counted := by
  simp only [sampleAll, Program.finishes_bind_iff, Program.finishes_request_iff,
    Program.finishes_pure_iff, liftM, monadLift, MonadLift.monadLift, finishes_ofWork_iff,
    AnsweredBy]
  constructor
  · rintro ⟨passed, _, _, runs, ⟨_, _, _, ⟨counted, counts, rfl⟩, ⟨rfl, rfl⟩, rfl⟩, rfl⟩
    exact ⟨passed, counted, runs, counts, by rw [List.append_nil]⟩
  · rintro ⟨passed, counted, runs, counts, rfl⟩
    exact ⟨passed, endings, _, runs, ⟨_, (), [], ⟨counted, counts, rfl⟩, ⟨rfl, rfl⟩, rfl⟩,
      by rw [List.append_nil]⟩

/-- What a cycle does with the definitions that it read before it reaps, when it
is told which moments may answer for passes. -/
def SamplesBy (passes : List Metric → List Ending → List Moment → Prop) (metrics : List Metric)
    (moments : List Moment) (report : Report) : Prop :=
  ∃ (answer : Except Store.Error (List (Option String))) (others : List Moment),
    moments = Moment.ofMain
        [.store (.getMany ((metrics.map Metric.name).map Store.markerKey)) answer] ++ others ∧
      match answer with
      | .error _ => others = [] ∧ report = { Report.empty with metrics := metrics.length }
      | .ok texts => ∃ (now : Timestamp) (passed : List Moment) (endings : List Ending),
          let due := Schedule.dueMetrics metrics
            (Text.Map.ofList (Store.pairTimes (metrics.map Metric.name) texts)) now
          Program.Finishes (AnsweredBy passes) (sampleAll due) passed endings ∧
            others = Moment.ofMain [.clock now] ++ passed ∧
            report = endings.foldl Report.add
              { Report.empty with metrics := metrics.length, due := due.length }

theorem finishes_body_iff {report : Report} :
    Program.Finishes (AnsweredBy passes) (body schedule) moments report ↔
      ∃ answer others, moments = Moment.ofMain [.store (.get Store.metricsKey) answer] ++ others ∧
        match Store.reading Store.metricsKey Store.metricsIn? answer with
        | .error _ => others = [] ∧ report = Report.empty
        | .ok metrics => ∃ sampled sampling reaped count,
            SamplesBy passes metrics sampled sampling ∧
              Program.Finishes Work.Answered
                (reap schedule (Text.Set.ofList (metrics.map Metric.name))) reaped count ∧
              others = sampled ++ Moment.ofMain reaped ∧
              report = { sampling with reaped := count } := by
  have concludes (metrics : List Metric) (sampling : Report) (moments : List Moment) :
      Program.Finishes (AnsweredBy passes)
          (ofWork (reap schedule (Text.Set.ofList (metrics.map Metric.name))) >>= fun reaped =>
            pure { sampling with reaped := reaped }) moments report ↔
        ∃ reaped count, Program.Finishes Work.Answered
            (reap schedule (Text.Set.ofList (metrics.map Metric.name))) reaped count ∧
          moments = Moment.ofMain reaped ∧ report = { sampling with reaped := count } := by
    simp only [Program.finishes_bind_iff, finishes_ofWork_iff, Program.finishes_pure_iff]
    constructor
    · rintro ⟨_, count, _, ⟨reaped, reaps, rfl⟩, ⟨rfl, rfl⟩, rfl⟩
      exact ⟨reaped, count, reaps, List.append_nil _, rfl⟩
    · rintro ⟨reaped, count, reaps, rfl, rfl⟩
      exact ⟨_, count, [], ⟨reaped, reaps, rfl⟩, ⟨rfl, rfl⟩, (List.append_nil _).symm⟩
  rw [body, Program.finishes_bind_iff]
  constructor
  · rintro ⟨_, outcome, others, lists, continues, rfl⟩
    obtain ⟨_, reads, rfl⟩ := finishes_ofWork_iff.mp lists
    obtain ⟨answer, rfl, rfl⟩ := Work.finishes_listMetrics_iff.mp reads
    refine ⟨answer, others, rfl, ?_⟩
    generalize Store.reading Store.metricsKey Store.metricsIn? answer = outcome at continues ⊢
    cases outcome with
    | error error => exact Program.finishes_done_iff.mp continues
    | ok metrics =>
        obtain ⟨_, times, later, marks, goesOn, rfl⟩ := Program.finishes_bind_iff.mp continues
        obtain ⟨_, reads, rfl⟩ := finishes_ofWork_iff.mp marks
        obtain ⟨answer, rfl, rfl⟩ := Work.finishes_lastProcessedTimes_iff.mp reads
        cases answer with
        | error error =>
            obtain ⟨reaped, count, reaps, rfl, rfl⟩ := (concludes metrics _ later).mp goesOn
            exact ⟨_, _, reaped, count, ⟨.error error, [], rfl, rfl, rfl⟩, reaps, rfl, rfl⟩
        | ok texts =>
            obtain ⟨_, now, _, tells, samples, rfl⟩ := Program.finishes_bind_iff.mp goesOn
            obtain ⟨_, asks, rfl⟩ := finishes_ofWork_iff.mp tells
            rw [Work.clock, Program.finishes_request_iff, Work.Answered] at asks
            subst asks
            obtain ⟨passed, endings, last, runs, ends, rfl⟩ := Program.finishes_bind_iff.mp samples
            obtain ⟨reaped, count, reaps, rfl, rfl⟩ := (concludes metrics _ last).mp ends
            exact ⟨_, _, reaped, count, ⟨.ok texts, _, rfl, now, passed, endings, runs, rfl, rfl⟩,
              reaps, by simp, rfl⟩
  · rintro ⟨answer, others, rfl, continues⟩
    refine ⟨_, _, others, finishes_ofWork_iff.mpr
      ⟨_, Work.finishes_listMetrics_iff.mpr ⟨answer, rfl, rfl⟩, rfl⟩, ?_, rfl⟩
    generalize Store.reading Store.metricsKey Store.metricsIn? answer = outcome at continues ⊢
    cases outcome with
    | error error => exact Program.finishes_done_iff.mpr continues
    | ok metrics =>
        obtain ⟨_, sampling, reaped, count, ⟨answer, others, rfl, continues⟩, reaps, rfl, rfl⟩ :=
          continues
        rw [List.append_assoc]
        refine Program.finishes_bind_iff.mpr ⟨_, _, _, finishes_ofWork_iff.mpr
          ⟨_, Work.finishes_lastProcessedTimes_iff.mpr ⟨answer, rfl, rfl⟩, rfl⟩, ?_, rfl⟩
        cases answer with
        | error error =>
            obtain ⟨rfl, rfl⟩ := continues
            exact (concludes metrics _ _).mpr ⟨reaped, count, reaps, rfl, rfl⟩
        | ok texts =>
            obtain ⟨now, passed, endings, runs, rfl, rfl⟩ := continues
            rw [List.append_assoc]
            refine Program.finishes_bind_iff.mpr ⟨_, now, _, finishes_ofWork_iff.mpr
              ⟨_, Program.finishes_request_iff.mpr rfl, rfl⟩, ?_, rfl⟩
            exact Program.finishes_bind_iff.mpr ⟨passed, endings, _, runs,
              (concludes metrics _ _).mpr ⟨reaped, count, reaps, rfl, rfl⟩, rfl⟩

/-- A cycle is counted after all that it does. -/
theorem finishes_cycle_iff {report : Report} :
    Program.Finishes (AnsweredBy passes) (cycle schedule) moments report ↔
      ∃ done, Program.Finishes (AnsweredBy passes) (body schedule) done report ∧
        moments = done ++ Moment.ofMain [.count .cycles 1] := by
  simp only [cycle, Program.finishes_bind_iff, Program.finishes_request_iff,
    Program.finishes_pure_iff, AnsweredBy]
  constructor
  · rintro ⟨_, _, _, rfl, ⟨done, _, _, finishes, ⟨_, _, _, rfl, ⟨rfl, rfl⟩, rfl⟩, rfl⟩, rfl⟩
    exact ⟨done, finishes, by rw [List.append_nil, List.nil_append]⟩
  · rintro ⟨done, finishes, rfl⟩
    exact ⟨[], 0, _, rfl, ⟨done, report, _, finishes,
      ⟨_, (), [], rfl, ⟨rfl, rfl⟩, (List.append_nil _).symm⟩, rfl⟩, rfl⟩

end AnsweredBy

/-- Moments in which the passes of some metrics run side by side. -/
abbrev SideBySide (schedule : Schedule) :
    List Metric → List Ending → List Moment → Prop :=
  SideBySideBy (PassRuns schedule)

/-- Whether moments answer a request of a cycle. -/
abbrev Answered (schedule : Schedule) :
    (request : Request) → request.Answer → List Moment → Prop :=
  AnsweredBy (SideBySide schedule)

/-- What a cycle does with the definitions that it read before it reaps. -/
abbrev Samples (schedule : Schedule) : List Metric → List Moment → Report → Prop :=
  SamplesBy (SideBySide schedule)

end Cycle

/-- What is done to the poller, one thing at a time. -/
inductive Operation
  /-- One poll cycle. -/
  | cycle
  /-- A purge. -/
  | purge
  /-- A definition is added. -/
  | add (metric : Metric)
  /-- A definition is removed. -/
  | delete (name : String)

/-- Whether an operation may go like this. -/
def Operation.Runs (schedule : Schedule) : Operation → List Moment → Prop
  | .cycle, moments =>
      ∃ report, Program.Finishes (Cycle.Answered schedule) (Cycle.cycle schedule) moments report
  | .purge, moments =>
      ∃ events result, Program.Finishes Work.Answered Cycle.purge events result ∧
        moments = Moment.ofMain events
  | .add metric, moments =>
      ∃ events result,
        Program.Finishes Work.Answered (Work.ofCalls (Catalog.add metric).run) events result ∧
          moments = Moment.ofMain events
  | .delete name, moments =>
      ∃ events result,
        Program.Finishes Work.Answered (Work.access (Catalog.delete name)) events result ∧
          moments = Moment.ofMain events

/-- Operations may go like this one after another, from a site on. -/
structure History (schedule : Schedule) (site : Site) (history : List (List Moment)) : Prop where
  /-- Each part of the history is an operation. -/
  operations : ∀ moments ∈ history, ∃ operation : Operation, operation.Runs schedule moments
  /-- What the store says is what it holds. -/
  lawful : site.Lawful (history.flatten.map Moment.event)

end InventoryGauges
