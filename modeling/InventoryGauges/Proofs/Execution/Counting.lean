import InventoryGauges.Proofs.Execution.Interleaving
import Mathlib.Algebra.BigOperators.Group.Finset.Piecewise

/-!
# Counting

How far events raise a counter.  What passes side by side count is the sum of
what each of them counts.
-/

namespace InventoryGauges
namespace Event

/-- How far an event raises a counter. -/
def raised (counter : Counter) : Event → Nat
  | .count other amount => if counter = other then amount else 0
  | _ => 0

/-- How far events raise a counter. -/
def totalRaised (counter : Counter) (events : List Event) : Nat :=
  events.foldr (fun event total => event.raised counter + total) 0

@[simp] theorem totalRaised_cons (counter : Counter) (event : Event) (events : List Event) :
    totalRaised counter (event :: events) = event.raised counter + totalRaised counter events := rfl

@[simp] theorem totalRaised_nil (counter : Counter) : totalRaised counter [] = 0 := rfl

theorem totalRaised_cons_of_none {counter : Counter} {event : Event}
    (none : event.raised counter = 0) (events : List Event) :
    totalRaised counter (event :: events) = totalRaised counter events := by
  rw [totalRaised_cons, none, Nat.zero_add]

theorem totalRaised_count (counter other : Counter) (amount : Nat) :
    totalRaised counter [.count other amount] = if counter = other then amount else 0 :=
  rfl

theorem totalRaised_append (counter : Counter) (left right : List Event) :
    totalRaised counter (left ++ right) = totalRaised counter left + totalRaised counter right := by
  induction left with
  | nil => exact (Nat.zero_add _).symm
  | cons event left hypothesis =>
      rw [List.cons_append, totalRaised_cons, totalRaised_cons, hypothesis, Nat.add_assoc]

theorem totalRaised_eq_zero {counter : Counter} {events : List Event}
    (none : ∀ event ∈ events, event.raised counter = 0) : totalRaised counter events = 0 := by
  induction events with
  | nil => rfl
  | cons event events hypothesis =>
      rw [totalRaised_cons, none event List.mem_cons_self,
        hypothesis fun other member => none other (List.mem_cons_of_mem event member)]

end Event

namespace Moment

/-- What is added up over the moments of passes side by side, each with the later
events of its own pass, is the sum of what is added up over the events of each of them. -/
theorem eq_sum_eventsOf {count : Nat} {moments : List Moment} (whole : List Moment → Nat)
    (part : List Event → Nat) (wholeNil : whole [] = 0) (partNil : part [] = 0)
    (step : ∀ moment later, ∃ own, whole (moment :: later) = own + whole later ∧
      part (moment.event :: eventsOf moment.actor later) =
        own + part (eventsOf moment.actor later))
    (actors : ∀ moment ∈ moments, ∃ index, index < count ∧ moment.actor = .pass index) :
    whole moments = ∑ index ∈ Finset.range count, part (eventsOf (.pass index) moments) := by
  induction moments with
  | nil => exact wholeNil.trans (Finset.sum_eq_zero fun _ _ => partNil).symm
  | cons moment moments hypothesis =>
      obtain ⟨place, bound, actor⟩ := actors moment List.mem_cons_self
      obtain ⟨own, first, others⟩ := step moment moments
      have each (index : Nat) : part (eventsOf (.pass index) (moment :: moments)) =
          (if place = index then own else 0) + part (eventsOf (.pass index) moments) := by
        rw [eventsOf_cons]
        by_cases same : place = index
        · subst same
          rw [if_pos actor, if_pos rfl, ← actor, others]
        · rw [if_neg fun equal => same (Actor.pass.inj (actor.symm.trans equal)), if_neg same,
            Nat.zero_add]
      simp only [each, Finset.sum_add_distrib, Finset.sum_ite_eq, Finset.mem_range, if_pos bound]
      rw [first, hypothesis fun other member => actors other (List.mem_cons_of_mem moment member)]

/-- What is counted by passes side by side. -/
theorem totalRaised_eq_sum (counter : Counter) {count : Nat} {moments : List Moment}
    (actors : ∀ moment ∈ moments, ∃ index, index < count ∧ moment.actor = .pass index) :
    Event.totalRaised counter (moments.map event) =
      ∑ index ∈ Finset.range count, Event.totalRaised counter (eventsOf (.pass index) moments) :=
  eq_sum_eventsOf (fun moments => Event.totalRaised counter (moments.map event))
    (Event.totalRaised counter) rfl rfl (fun moment _ => ⟨moment.event.raised counter, rfl, rfl⟩)
    actors

end Moment
end InventoryGauges
