import InventoryGauges.Proofs.Execution.Counting
import InventoryGauges.Proofs.Execution.Request

/-!
# Work that is cut off

A piece of work is only ever cut off while it awaits an answer of the store, of
the inventory or of the gateway.  What it would do next without waiting, such as
to count, it then never does.  So it is with the passes of a cycle.
-/

namespace InventoryGauges
namespace Work

variable {Result Final : Type}

/-- A request whose answer is awaited; the clock and the counters are at hand. -/
def Request.IsAwaited : Request → Prop
  | .clock | .count _ _ => False
  | _ => True

/-- A piece of work may be cut off after these events, while it awaits an answer. -/
inductive Interrupted : Work Result → List Event → Prop
  /-- Some of the events that answer a request have happened. -/
  | waiting {request : Request} {next : request.Answer → Work Result} {answer : request.Answer}
      {happened missing : List Event} (awaited : request.IsAwaited)
      (answers : Answered request answer (happened ++ missing)) :
      Interrupted (.ask request next) happened
  /-- A query is not answered. -/
  | unanswered {className filter : String}
      (next : (Request.query className filter).Answer → Work Result) :
      Interrupted (.ask (.query className filter) next) [.unanswered className filter]
  /-- A request is answered before. -/
  | ask {request : Request} {next : request.Answer → Work Result} {answer : request.Answer}
      {first events : List Event} (answers : Answered request answer first)
      (interrupted : Interrupted (next answer) events) :
      Interrupted (.ask request next) (first ++ events)

section Ask

variable {request : Request} {next : request.Answer → Work Result} {answer : request.Answer}
  {first : List Event} (answers : Answered request answer first)
include answers

theorem Begins.ask {events : List Event} (begins : Begins (next answer) events) :
    Begins (.ask request next) (first ++ events) := by
  obtain ⟨rest, result, finishes⟩ := begins
  refine ⟨rest, result, ?_⟩
  rw [List.append_assoc]
  exact .ask answers finishes

theorem Stalls.ask {events : List Event} (stalls : Stalls (next answer) events) :
    Stalls (.ask request next) (first ++ events) := by
  obtain ⟨before, className, filter, given, rest, result, finishes, rfl⟩ := stalls
  refine ⟨first ++ before, className, filter, given, rest, result, ?_, ?_⟩
  · rw [List.append_assoc]
    exact .ask answers finishes
  · rw [List.append_assoc]

end Ask

/-- A query may not be answered. -/
theorem stalls_query (className filter : String)
    (next : (Request.query className filter).Answer → Work Result) :
    Stalls (.ask (.query className filter) next) [.unanswered className filter] := by
  obtain ⟨rest, result, finishes⟩ := exists_finishes (next (.ok []))
  have asks : Program.Finishes Answered (.ask (.query className filter) next)
      ([.query className filter (.ok [])] ++ rest) result :=
    .ask rfl finishes
  exact ⟨[], className, filter, .ok [], rest, result, asks, rfl⟩

/-- Work that is cut off while it awaits an answer is cut off anywhere. -/
theorem Interrupted.begins_or_stalls {work : Work Result} {events : List Event}
    (interrupted : Interrupted work events) : Begins work events ∨ Stalls work events := by
  induction interrupted with
  | @waiting request next answer happened missing awaited answers =>
      obtain ⟨rest, result, finishes⟩ := exists_finishes (next answer)
      refine Or.inl ⟨missing ++ rest, result, ?_⟩
      rw [← List.append_assoc]
      exact .ask answers finishes
  | unanswered next => exact Or.inr (stalls_query _ _ next)
  | ask answers _ hypothesis => exact hypothesis.imp (Begins.ask answers) (Stalls.ask answers)

theorem not_interrupted_done {result : Result} {events : List Event} :
    ¬ Interrupted (.done result) events :=
  nofun

/-- To count takes no time. -/
theorem not_interrupted_count_bind {counter : Counter} {amount : Nat} {rest : Work Result}
    (later : ∀ events, ¬ Interrupted rest events) {events : List Event} :
    ¬ Interrupted (count counter amount >>= fun _ => rest) events := by
  intro interrupted
  cases interrupted with
  | waiting awaited answers => exact awaited
  | ask answers interrupted => exact later _ interrupted

theorem not_interrupted_count {counter : Counter} {amount : Nat} {result : Result}
    {events : List Event} :
    ¬ Interrupted (count counter amount >>= fun _ => pure result) events :=
  not_interrupted_count_bind fun _ => not_interrupted_done

/-- Of two pieces of work, the first one or the second one is cut off. -/
theorem interrupted_or_of_bind {work : Work Result} {rest : Result → Work Final}
    {events : List Event} (interrupted : Interrupted (work >>= rest) events) :
    Interrupted work events ∨ ∃ first result last, Program.Finishes Answered work first result ∧
      Interrupted (rest result) last ∧ events = first ++ last := by
  induction work generalizing events with
  | done result => exact Or.inr ⟨[], result, events, .done result, interrupted, rfl⟩
  | ask request next hypothesis =>
      rw [Program.bind_ask] at interrupted
      cases interrupted with
      | waiting awaited answers => exact Or.inl (.waiting awaited answers)
      | unanswered _ => exact Or.inl (.unanswered next)
      | @ask _ _ answer first events answers interrupted =>
          rcases hypothesis answer interrupted with
            early | ⟨middle, result, last, finishes, late, rfl⟩
          · exact Or.inl (.ask answers early)
          · exact Or.inr ⟨first ++ middle, result, last, .ask answers finishes, late,
              (List.append_assoc _ _ _).symm⟩

/-! ## Work that counts gauges only -/

section Counting

variable {counter : Counter} (other : ¬ counter.IsOfGauges)
include other

theorem raised_of_answered {request : Request} {answer : request.Answer} {events : List Event}
    (counts : request.CountsGauges) (answers : Answered request answer events) :
    ∀ event ∈ events, event.raised counter = 0 := by
  cases request with
  | count own amount =>
      obtain rfl := answers
      intro event member
      obtain rfl := List.mem_singleton.mp member
      have different : counter ≠ own := fun same => other (same ▸ counts)
      exact if_neg different
  | gateway limit calls =>
      obtain ⟨-, rfl⟩ := answers
      intro event member
      obtain ⟨ended, -, rfl⟩ := List.mem_map.mp member
      rfl
  | store _ | query _ _ | wipe | clock =>
      obtain rfl := answers
      intro event member
      obtain rfl := List.mem_singleton.mp member
      rfl

variable {work : Work Result} {events : List Event} (asks : work.Asks Request.CountsGauges)
include asks

theorem totalRaised_of_finishes {result : Result}
    (finishes : Program.Finishes Answered work events result) :
    Event.totalRaised counter events = 0 := by
  induction finishes with
  | done result => rfl
  | ask answers continues hypothesis =>
      rw [Event.totalRaised_append, hypothesis (asks.2 _),
        Event.totalRaised_eq_zero (raised_of_answered other asks.1 answers)]

theorem totalRaised_of_interrupted (interrupted : Interrupted work events) :
    Event.totalRaised counter events = 0 := by
  induction interrupted with
  | waiting awaited answers =>
      exact Event.totalRaised_eq_zero fun event member =>
        raised_of_answered other asks.1 answers event (List.mem_append_left _ member)
  | unanswered next => rfl
  | ask answers interrupted hypothesis =>
      rw [Event.totalRaised_append, hypothesis (asks.2 _),
        Event.totalRaised_eq_zero (raised_of_answered other asks.1 answers)]

omit asks in
theorem totalRaised_of_interrupted_bind {rest : Result → Work Final}
    (asks : work.Asks Request.CountsGauges)
    (later : ∀ result events, Interrupted (rest result) events →
      Event.totalRaised counter events = 0)
    (interrupted : Interrupted (work >>= rest) events) : Event.totalRaised counter events = 0 := by
  rcases interrupted_or_of_bind interrupted with early | ⟨first, result, last, finishes, late, rfl⟩
  · exact totalRaised_of_interrupted other asks early
  · rw [Event.totalRaised_append, totalRaised_of_finishes other asks finishes,
      later result last late]

end Counting

end Work

namespace Cycle

variable {schedule : Schedule}

/-- How a pass may go within a cycle that cuts it off only while it awaits an
answer. -/
inductive TimedPass (schedule : Schedule) (metric : Metric) : List Event → Ending → Prop
  | finished {events : List Event} {result : Except Sampling.Error Sampling.Report}
      (finishes : Program.Finishes Work.Answered (Sampling.pass schedule metric) events result) :
      TimedPass schedule metric events (.finished result)
  | broken {events : List Event} (stalls : Work.Stalls (Sampling.pass schedule metric) events) :
      TimedPass schedule metric events .broken
  | timedOut {begun cleaned : List Event}
      (interrupted : Work.Interrupted (Sampling.pass schedule metric) begun)
      (cleans : Program.Finishes Work.Answered (Sampling.giveUp schedule metric) cleaned ()) :
      TimedPass schedule metric (begun ++ .deadline :: cleaned) .timedOut

theorem TimedPass.runs {metric : Metric} {events : List Event} {ending : Ending}
    (timed : TimedPass schedule metric events ending) : PassRuns schedule metric events ending := by
  cases timed with
  | finished finishes => exact .finished finishes
  | broken stalls => exact .broken stalls
  | timedOut interrupted cleans => exact .timedOut interrupted.begins_or_stalls cleans

/-- Moments in which the passes of some metrics run side by side, and are cut off
only while they await an answer. -/
abbrev TimedPasses (schedule : Schedule) : List Metric → List Ending → List Moment → Prop :=
  SideBySideBy (TimedPass schedule)

/-- Whether moments answer a request of a cycle that cuts passes off only while
they await an answer. -/
abbrev TimedAnswered (schedule : Schedule) :
    (request : Request) → request.Answer → List Moment → Prop :=
  AnsweredBy (TimedPasses schedule)

theorem TimedAnswered.answered {request : Request} {answer : request.Answer}
    {moments : List Moment} (timed : TimedAnswered schedule request answer moments) :
    Answered schedule request answer moments :=
  timed.mono fun _ _ _ aside => aside.mono fun _ _ _ => TimedPass.runs

/-- How a pass may go within a cycle if whatever it awaits may break it, before it is
cut off or while it is cleaned up after. -/
inductive FragilePass (schedule : Schedule) (metric : Metric) : List Event → Ending → Prop
  | finished {events : List Event} {result : Except Sampling.Error Sampling.Report}
      (finishes : Program.Finishes Work.Answered (Sampling.pass schedule metric) events result) :
      FragilePass schedule metric events (.finished result)
  | broken {events : List Event}
      (interrupted : Work.Interrupted (Sampling.pass schedule metric) events) :
      FragilePass schedule metric events .broken
  | timedOut {begun cleaned : List Event}
      (interrupted : Work.Interrupted (Sampling.pass schedule metric) begun)
      (cleans : Program.Finishes Work.Answered (Sampling.giveUp schedule metric) cleaned ()) :
      FragilePass schedule metric (begun ++ .deadline :: cleaned) .timedOut
  | brokenLate {begun cleaned : List Event}
      (interrupted : Work.Interrupted (Sampling.pass schedule metric) begun)
      (breaks : Work.Interrupted (Sampling.giveUp schedule metric) cleaned) :
      FragilePass schedule metric (begun ++ .deadline :: cleaned) .broken

/-- Whether moments answer a request of a cycle whose passes may break down wherever
they await something. -/
abbrev FragileAnswered (schedule : Schedule) :
    (request : Request) → request.Answer → List Moment → Prop :=
  AnsweredBy (SideBySideBy (FragilePass schedule))

end Cycle
end InventoryGauges
