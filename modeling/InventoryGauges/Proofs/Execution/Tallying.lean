import InventoryGauges.Proofs.Execution.Interruption
import InventoryGauges.Proofs.Sampling.Answers
import Mathlib.Algebra.Order.BigOperators.Group.List
import Mathlib.Algebra.Order.Ring.Nat

/-!
# Tallies

Two counters tally the calls that the gateway accepts.  They are raised after a
call was accepted, and not at all if the time for the pass is over before that.
-/

namespace InventoryGauges

namespace Counter

/-- A counter that tallies calls to the gateway. -/
def IsTally (counter : Counter) : Prop :=
  counter = .gaugesPushed ∨ counter = .gaugesDeleted

/-- Whether a counter tallies a call once it is accepted. -/
def tallies : Counter → Gateway.Call → Bool
  | .gaugesPushed, .push _ => true
  | .gaugesDeleted, .delete _ => true
  | _, _ => false

end Counter

namespace Event

/-- The accepted calls of an event that a counter tallies. -/
def accepted (counter : Counter) : Event → Nat
  | .gateway call answer => if counter.tallies call && answer.isAccepted then 1 else 0
  | _ => 0

/-- The accepted calls among events that a counter tallies. -/
def totalAccepted (counter : Counter) (events : List Event) : Nat :=
  (events.map (accepted counter)).sum

/-- Whether the time is over before a counter is raised. -/
def endsBeforeRaise (counter : Counter) : List Event → Bool
  | [] => false
  | .deadline :: _ => true
  | .count other _ :: later => counter != other && endsBeforeRaise counter later
  | _ :: later => endsBeforeRaise counter later

/-- The accepted calls among events after which the time is over before the
counter that tallies them is raised. -/
def totalMissed (counter : Counter) : List Event → Nat
  | [] => 0
  | event :: later =>
      (if endsBeforeRaise counter later then event.accepted counter else 0) +
        totalMissed counter later

/-- Whatever comes after these events, no accepted call among them is missed. -/
def IsTallied (counter : Counter) (events : List Event) : Prop :=
  ∀ later, totalMissed counter (events ++ later) = totalMissed counter later

/-- An event that is of no concern to a counter. -/
def IsAside (counter : Counter) (event : Event) : Prop :=
  event.accepted counter = 0 ∧ event.raised counter = 0

section Totals

variable {counter : Counter} {event : Event} {events first last later : List Event}

theorem totalAccepted_cons : totalAccepted counter (event :: events) =
    event.accepted counter + totalAccepted counter events :=
  List.sum_cons

theorem totalAccepted_cons_of_none (none : event.accepted counter = 0) :
    totalAccepted counter (event :: events) = totalAccepted counter events := by
  rw [totalAccepted_cons, none, Nat.zero_add]

theorem totalAccepted_append :
    totalAccepted counter (first ++ last) =
      totalAccepted counter first + totalAccepted counter last := by
  rw [totalAccepted, List.map_append, List.sum_append]
  rfl

theorem totalAccepted_eq_zero (aside : ∀ event ∈ events, event.IsAside counter) :
    totalAccepted counter events = 0 :=
  List.sum_eq_zero fun _ member => by
    obtain ⟨event, found, rfl⟩ := List.mem_map.mp member
    exact (aside event found).1

theorem isTallied_nil : IsTallied counter [] :=
  fun _ => rfl

theorem IsTallied.append (early : IsTallied counter first) (late : IsTallied counter last) :
    IsTallied counter (first ++ last) := by
  intro later
  rw [List.append_assoc, early, late]

theorem IsTallied.totalMissed_eq_zero (tallied : IsTallied counter events) :
    totalMissed counter events = 0 := by
  have none := tallied []
  rw [List.append_nil] at none
  exact none

theorem isTallied_of_aside (aside : ∀ event ∈ events, event.IsAside counter) :
    IsTallied counter events := by
  induction events with
  | nil => exact isTallied_nil
  | cons event events hypothesis =>
      obtain ⟨own, others⟩ := List.forall_mem_cons.mp aside
      intro later
      rw [List.cons_append, totalMissed, own.1, ite_self, Nat.zero_add, hypothesis others]

/-- What is missed up to the end of the time is missed whatever comes then. -/
theorem totalMissed_append_deadline :
    totalMissed counter (events ++ .deadline :: later) =
      totalMissed counter (events ++ [.deadline]) + totalMissed counter later := by
  have same (events : List Event) : endsBeforeRaise counter (events ++ .deadline :: later) =
      endsBeforeRaise counter (events ++ [.deadline]) := by
    induction events with
    | nil => rfl
    | cons event events hypothesis =>
        cases event <;> simp only [List.cons_append, endsBeforeRaise, hypothesis]
  induction events with
  | nil => simp [totalMissed, accepted]
  | cons event events hypothesis =>
      simp only [List.cons_append, totalMissed, same, hypothesis, Nat.add_assoc]

variable {calls : List Gateway.Ended}

theorem endsBeforeRaise_append_calls :
    endsBeforeRaise counter (calls.map ofEnded ++ later) = endsBeforeRaise counter later := by
  induction calls with
  | nil => rfl
  | cons call calls hypothesis => exact hypothesis

theorem totalRaised_calls : totalRaised counter (calls.map ofEnded) = 0 :=
  totalRaised_eq_zero fun event member => by
    obtain ⟨call, -, rfl⟩ := List.mem_map.mp member
    rfl

/-- Calls are tallied by a counter that is raised right after them. -/
theorem isTallied_calls_append (amount : Nat) (aside : ∀ event ∈ events, event.IsAside counter) :
    IsTallied counter (calls.map ofEnded ++ .count counter amount :: events) := by
  intro later
  have raised : endsBeforeRaise counter (.count counter amount :: events ++ later) = false := by
    simp [endsBeforeRaise]
  induction calls with
  | nil =>
      have tallied := isTallied_of_aside aside later
      simpa [totalMissed, accepted] using tallied
  | cons call calls hypothesis =>
      rw [List.map_cons, List.cons_append, List.cons_append, totalMissed, List.append_assoc,
        endsBeforeRaise_append_calls, raised, if_neg Bool.false_ne_true, Nat.zero_add,
        ← List.append_assoc, hypothesis]

/-- Calls are missed if the time is over right after them. -/
theorem totalMissed_calls :
    totalMissed counter (calls.map ofEnded ++ [.deadline]) =
      totalAccepted counter (calls.map ofEnded) := by
  induction calls with
  | nil => rfl
  | cons call calls hypothesis =>
      rw [List.map_cons, List.cons_append, totalMissed, endsBeforeRaise_append_calls,
        endsBeforeRaise, if_pos rfl, hypothesis, totalAccepted_cons]

end Totals
end Event

namespace Moment

/-- The accepted calls among moments after which the time of whose they are is
over before the counter that tallies them is raised. -/
def missed (counter : Counter) : List Moment → Nat
  | [] => 0
  | moment :: later =>
      (if Event.endsBeforeRaise counter (eventsOf moment.actor later) then
        moment.event.accepted counter else 0) + missed counter later

/-- Among moments, a counter is raised by the accepted calls that it tallies but
for those that are missed. -/
structure Tallied (counter : Counter) (moments : List Moment) : Prop where
  /-- Each accepted call is counted or missed. -/
  accepted : Event.totalAccepted counter (moments.map event) =
    Event.totalRaised counter (moments.map event) + missed counter moments
  /-- None is missed unless a pass is counted that was cut off. -/
  inTime : Event.totalRaised (.samples .timeout) (moments.map event) = 0 →
    missed counter moments = 0

/-- The calls that a counter tallies are accepted in passes only. -/
def AcceptsInPasses (counter : Counter) (moments : List Moment) : Prop :=
  ∀ moment ∈ moments, moment.event.accepted counter = 0 ∨ ∃ index, moment.actor = .pass index

section Missed

variable {counter : Counter} {moments : List Moment} {events : List Event} {event : Event}

theorem tallied_nil : Tallied counter [] :=
  ⟨rfl, fun _ => rfl⟩

theorem missed_cons_of_none {moment : Moment} (none : moment.event.accepted counter = 0) :
    missed counter (moment :: moments) = missed counter moments := by
  rw [missed, none, ite_self, Nat.zero_add]

theorem missed_ofMain : missed counter (ofMain events) = Event.totalMissed counter events := by
  induction events with
  | nil => rfl
  | cons event events hypothesis =>
      have own : eventsOf .main (ofMain events) = events := eventsOf_ofMain events
      have shape : ofMain (event :: events) = ⟨.main, event⟩ :: ofMain events := rfl
      rw [shape, missed, hypothesis, own, Event.totalMissed]

theorem missed_append_ofMain (inPasses : AcceptsInPasses counter moments) :
    missed counter (moments ++ ofMain events) =
      missed counter moments + Event.totalMissed counter events := by
  induction moments with
  | nil => exact missed_ofMain.trans (Nat.zero_add _).symm
  | cons moment moments hypothesis =>
      obtain ⟨own, others⟩ := List.forall_mem_cons.mp inPasses
      rw [List.cons_append, missed, missed, hypothesis others, Nat.add_assoc]
      rcases own with none | ⟨index, actor⟩
      · simp only [none, ite_self]
      · rw [eventsOf_append, actor, eventsOf_pass_ofMain, List.append_nil]

theorem Tallied.cons (later : Tallied counter moments) (aside : event.IsAside counter) :
    Tallied counter (⟨.main, event⟩ :: moments) where
  accepted := by
    rw [List.map_cons, Event.totalAccepted_cons_of_none aside.1,
      Event.totalRaised_cons_of_none aside.2, missed_cons_of_none aside.1]
    exact later.accepted
  inTime := by
    intro inTime
    rw [List.map_cons, Event.totalRaised_cons] at inTime
    rw [missed_cons_of_none aside.1]
    exact later.inTime (Nat.eq_zero_of_add_eq_zero_left inTime)

section Append

variable (inPasses : AcceptsInPasses counter moments) (tallied : Event.IsTallied counter events)
include inPasses tallied

theorem missed_append_of_isTallied :
    missed counter (moments ++ ofMain events) = missed counter moments := by
  rw [missed_append_ofMain inPasses, tallied.totalMissed_eq_zero, Nat.add_zero]

theorem totalAccepted_append_ofMain
    (early : Event.totalAccepted counter (moments.map Moment.event) =
      Event.totalRaised counter (moments.map Moment.event) + missed counter moments)
    (equal : Event.totalAccepted counter events = Event.totalRaised counter events) :
    Event.totalAccepted counter ((moments ++ ofMain events).map Moment.event) =
      Event.totalRaised counter ((moments ++ ofMain events).map Moment.event) +
        missed counter (moments ++ ofMain events) := by
  rw [List.map_append, map_event_ofMain, Event.totalAccepted_append, Event.totalRaised_append,
    missed_append_of_isTallied inPasses tallied, early, equal]
  omega

theorem Tallied.append_ofMain (early : Tallied counter moments)
    (equal : Event.totalAccepted counter events = Event.totalRaised counter events) :
    Tallied counter (moments ++ ofMain events) where
  accepted := totalAccepted_append_ofMain inPasses tallied early.accepted equal
  inTime := by
    intro inTime
    rw [List.map_append, Event.totalRaised_append] at inTime
    rw [missed_append_of_isTallied inPasses tallied]
    exact early.inTime (Nat.eq_zero_of_add_eq_zero_right inTime)

end Append

theorem tallied_ofMain
    (equal : Event.totalAccepted counter events = Event.totalRaised counter events)
    (tallied : Event.IsTallied counter events) : Tallied counter (ofMain events) :=
  tallied_nil.append_ofMain (List.forall_mem_nil _) tallied equal

section Passes

variable {count : Nat}
  (actors : ∀ moment ∈ moments, ∃ index, index < count ∧ moment.actor = .pass index)
include actors

/-- What passes side by side miss is what each of them misses. -/
theorem missed_eq_sum : missed counter moments =
    ∑ index ∈ Finset.range count, Event.totalMissed counter (eventsOf (.pass index) moments) :=
  eq_sum_eventsOf (missed counter) (Event.totalMissed counter) rfl rfl
    (fun _ _ => ⟨_, rfl, rfl⟩) actors

/-- Passes side by side count what is accepted and not missed if each of them does. -/
theorem totalAccepted_of_passes
    (each : ∀ index < count, Event.totalAccepted counter (eventsOf (.pass index) moments) =
      Event.totalRaised counter (eventsOf (.pass index) moments) +
        Event.totalMissed counter (eventsOf (.pass index) moments)) :
    Event.totalAccepted counter (moments.map Moment.event) =
      Event.totalRaised counter (moments.map Moment.event) + missed counter moments := by
  have accepted : Event.totalAccepted counter (moments.map Moment.event) =
      ∑ index ∈ Finset.range count,
        Event.totalAccepted counter (eventsOf (.pass index) moments) :=
    eq_sum_eventsOf (fun moments => Event.totalAccepted counter (moments.map Moment.event))
      (Event.totalAccepted counter) rfl rfl (fun moment _ => ⟨moment.event.accepted counter,
        Event.totalAccepted_cons, Event.totalAccepted_cons⟩) actors
  rw [accepted, totalRaised_eq_sum counter actors, missed_eq_sum actors,
    ← Finset.sum_add_distrib]
  exact Finset.sum_congr rfl fun index member => each index (Finset.mem_range.mp member)

end Passes

end Missed
end Moment

namespace Work

variable {Result Final : Type} {counter : Counter}

/-- A piece of work raises a counter by the accepted calls that it tallies, up
to those that it misses when it is cut off. -/
structure Tallies (counter : Counter) (work : Work Result) : Prop where
  /-- When it comes to its end, all accepted calls are tallied. -/
  finished : ∀ {events result}, Program.Finishes Answered work events result →
    Event.totalAccepted counter events = Event.totalRaised counter events ∧
      Event.IsTallied counter events
  /-- When it is cut off, those are missing that it would still have tallied. -/
  cutOff : ∀ {events}, Interrupted work events →
    Event.totalAccepted counter events =
      Event.totalRaised counter events + Event.totalMissed counter (events ++ [.deadline])

namespace Tallies

theorem pure (result : Result) : (pure result : Work Result).Tallies counter where
  finished := by
    intro events final finishes
    obtain ⟨rfl, -⟩ := Program.finishes_pure_iff.mp finishes
    exact ⟨rfl, Event.isTallied_nil⟩
  cutOff := fun interrupted => absurd interrupted not_interrupted_done

theorem bind {work : Work Result} {rest : Result → Work Final} (tallies : work.Tallies counter)
    (others : ∀ result, (rest result).Tallies counter) : (work >>= rest).Tallies counter where
  finished := by
    intro events final finishes
    obtain ⟨first, result, last, early, late, rfl⟩ := Program.finishes_bind_iff.mp finishes
    obtain ⟨equal, tallied⟩ := tallies.finished early
    obtain ⟨equalLate, talliedLate⟩ := (others result).finished late
    rw [Event.totalAccepted_append, Event.totalRaised_append, equal, equalLate]
    exact ⟨rfl, tallied.append talliedLate⟩
  cutOff := by
    intro events interrupted
    rcases interrupted_or_of_bind interrupted with early | ⟨first, result, last, early, late, rfl⟩
    · exact tallies.cutOff early
    · obtain ⟨equal, tallied⟩ := tallies.finished early
      rw [Event.totalAccepted_append, Event.totalRaised_append, equal, (others result).cutOff late,
        List.append_assoc, tallied, Nat.add_assoc]

end Tallies

/-- A request that is of no concern to a counter. -/
def Request.IsAside (counter : Counter) : Request → Prop
  | .gateway _ _ => False
  | .count other _ => counter ≠ other
  | _ => True

theorem isAside_of_answered {request : Request} (aside : request.IsAside counter)
    {answer : request.Answer} {events : List Event} (answers : Answered request answer events) :
    ∀ event ∈ events, event.IsAside counter := by
  cases request with
  | gateway _ _ => exact aside.elim
  | count other amount =>
      obtain rfl := answers
      exact List.forall_mem_singleton.mpr ⟨rfl, if_neg aside⟩
  | store _ | query _ _ | wipe | clock =>
      obtain rfl := answers
      exact List.forall_mem_singleton.mpr ⟨rfl, rfl⟩

theorem tallies_request {request : Request} (aside : request.IsAside counter) :
    Tallies counter (Program.request request : Work request.Answer) where
  finished := by
    intro events answer finishes
    have quiet := isAside_of_answered aside (Program.finishes_request_iff.mp finishes)
    rw [Event.totalAccepted_eq_zero quiet,
      Event.totalRaised_eq_zero fun event member => (quiet event member).2]
    exact ⟨rfl, Event.isTallied_of_aside quiet⟩
  cutOff := by
    intro events interrupted
    have quiet : ∀ event ∈ events, event.IsAside counter := by
      cases interrupted with
      | waiting awaited answers =>
          exact fun event member =>
            isAside_of_answered aside answers event (List.mem_append_left _ member)
      | unanswered next => exact List.forall_mem_singleton.mpr ⟨rfl, rfl⟩
      | ask answers inside => exact absurd inside not_interrupted_done
    rw [Event.totalAccepted_eq_zero quiet,
      Event.totalRaised_eq_zero fun event member => (quiet event member).2,
      Event.isTallied_of_aside quiet]
    rfl

theorem tallies_access (access : Store.Access Result) : (Work.access access).Tallies counter := by
  have calls (program : Program Store.Call Store.Call.Answer (Except Store.Error Result)) :
      (ofCalls program).Tallies counter := by
    induction program with
    | done result => exact .pure result
    | ask call next hypothesis =>
        have first : Tallies counter (Program.request (Request.store call) : Work call.Answer) :=
          tallies_request trivial
        exact first.bind hypothesis
  exact calls access.run

theorem tallies_query (className filter : String) : (query className filter).Tallies counter :=
  tallies_request trivial

theorem tallies_clock : clock.Tallies counter :=
  tallies_request trivial

theorem tallies_count {other : Counter} (different : counter ≠ other) (amount : Nat) :
    (count other amount).Tallies counter :=
  tallies_request different

/-! ## Calls to the gateway -/

/-- Work that is cut off while its calls to the gateway are made has made some of them. -/
theorem exists_calls_of_interrupted {limit : Nat} {calls : List Gateway.Call}
    {rest : List Gateway.Ended → Work Final} {events : List Event}
    (later : ∀ ended events, ¬ Interrupted (rest ended) events)
    (interrupted : Interrupted (gateway limit calls >>= rest) events) :
    ∃ made : List Gateway.Ended, events = made.map Event.ofEnded := by
  rcases interrupted_or_of_bind interrupted with early | ⟨_, ended, last, _, late, _⟩
  · cases early with
    | waiting awaited answers =>
        obtain ⟨-, happened⟩ := answers
        obtain ⟨made, _, -, rfl, -⟩ := List.append_eq_map_iff.mp happened
        exact ⟨made, rfl⟩
    | ask answers inside => exact absurd inside not_interrupted_done
  · exact absurd late (later ended last)

/-- Calls to the gateway tally with what comes right after them, without waiting, if it
does so whenever the calls come to their end. -/
theorem Tallies.of_gateway {limit : Nat} {calls : List Gateway.Call}
    {rest : List Gateway.Ended → Work Final}
    (finished : ∀ {events result},
      Program.Finishes Answered (gateway limit calls >>= rest) events result →
        Event.totalAccepted counter events = Event.totalRaised counter events ∧
          Event.IsTallied counter events)
    (later : ∀ ended events, ¬ Interrupted (rest ended) events) :
    (gateway limit calls >>= rest).Tallies counter where
  finished := finished
  cutOff := by
    intro events interrupted
    obtain ⟨made, rfl⟩ := exists_calls_of_interrupted later interrupted
    rw [Event.totalRaised_calls, Event.totalMissed_calls, Nat.zero_add]

end Work
end InventoryGauges
