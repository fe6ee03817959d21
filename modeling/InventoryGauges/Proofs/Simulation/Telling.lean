import InventoryGauges.Proofs.Execution.Counting
import InventoryGauges.Simulation.World

/-!
# Telling what happens to a simulated world

What a simulated world shows are the contents of its store, the calls to its
gateway and its counters.  Events tell how one world became another if they
account for these.
-/

namespace InventoryGauges

namespace Event

/-- An event that is seen neither in the store nor at the gateway nor in the
counters. -/
def IsSilent : Event → Prop
  | .query _ _ _ | .unanswered _ _ | .clock _ | .deadline => True
  | _ => False

/-- The call to the gateway that an event is, and whether it was accepted. -/
def call? : Event → Option (Gateway.Call × Bool)
  | .gateway call answer => some (call, answer.isAccepted)
  | _ => none

theorem raised_of_isSilent {event : Event} (silent : event.IsSilent) (counter : Counter) :
    event.raised counter = 0 := by
  cases event with
  | count other amount => exact silent.elim
  | store _ _ | query _ _ _ | unanswered _ _ | gateway _ _ | wipe _ | clock _ | deadline => rfl

end Event

namespace Simulation
namespace World

/-- The calls to the gateway that ended, in their order, and whether they were
accepted. -/
def calls (world : World) : List (Gateway.Call × Bool) :=
  world.log.calls.reverse.map fun record => (record.call, record.accepted)

/-- Whether events tell how a world became another one.  They are lawful where
the store holds what it holds in that world. -/
structure Tells (before : World) (events : List Event) (after : World) : Prop where
  /-- The events account for the contents of the store. -/
  contents : ∀ site : Site, site.contents = before.contents →
    site.Lawful events ∧ (site.afterAll events).contents = after.contents
  /-- The events account for the calls to the gateway. -/
  calls : after.calls = before.calls ++ events.filterMap Event.call?
  /-- The events account for the counters. -/
  counts : ∀ counter, after.statistics.count counter =
    before.statistics.count counter + Event.totalRaised counter events

namespace Tells

variable {before middle after : World} {first last : List Event}

/-- Nothing is told when nothing is seen. -/
theorem unseen (contents : after.contents = before.contents) (calls : after.calls = before.calls)
    (counts : ∀ counter, after.statistics.count counter = before.statistics.count counter) :
    before.Tells [] after where
  contents := fun _ same => ⟨trivial, same.trans contents.symm⟩
  calls := calls.trans (List.append_nil _).symm
  counts := counts

theorem trans (early : before.Tells first middle) (late : middle.Tells last after) :
    before.Tells (first ++ last) after where
  contents := by
    intro site same
    obtain ⟨lawful, between⟩ := early.contents site same
    obtain ⟨lawfulLate, final⟩ := late.contents (site.afterAll first) between
    rw [Site.lawful_append, Site.afterAll_append]
    exact ⟨⟨lawful, lawfulLate⟩, final⟩
  calls := by
    rw [late.calls, early.calls, List.filterMap_append, List.append_assoc]
  counts := by
    intro counter
    rw [late.counts, early.counts, Event.totalRaised_append, Nat.add_assoc]

/-- What is silent changes nothing but what nobody sees. -/
theorem of_silent {events : List Event} (silent : ∀ event ∈ events, event.IsSilent)
    (contents : after.contents = before.contents) (calls : after.calls = before.calls)
    (counts : ∀ counter, after.statistics.count counter = before.statistics.count counter) :
    before.Tells events after := by
  induction events with
  | nil => exact unseen contents calls counts
  | cons event events hypothesis =>
      have later := hypothesis fun other member => silent other (List.mem_cons_of_mem event member)
      have first := silent event List.mem_cons_self
      cases event with
      | query _ _ _ | unanswered _ _ | clock _ | deadline =>
          refine ⟨fun site same => ?_, later.calls, fun counter => ?_⟩
          · obtain ⟨lawful, final⟩ := later.contents site same
            exact ⟨⟨trivial, lawful⟩, final⟩
          · rw [later.counts, Event.totalRaised_cons, Event.raised_of_isSilent first, Nat.zero_add]
      | store _ _ | gateway _ _ | wipe _ | count _ _ => exact first.elim

theorem store (call : Store.Call) (world : World) :
    world.Tells [.store call (world.store call).1] (world.store call).2 := by
  unfold World.store
  cases struck : Fault.strike call world.faults with
  | none =>
      refine ⟨fun site same => ?_, ?_, fun _ => rfl⟩
      · refine ⟨⟨?_, trivial⟩, ?_⟩
        · exact congrArg (fun contents => (Store.perform call contents).1) same.symm
        · exact congrArg (fun contents => (Store.perform call contents).2) same
      · exact (List.append_nil _).symm
  | some failure =>
      refine ⟨fun _ same => ⟨⟨trivial, trivial⟩, same⟩, ?_, fun _ => rfl⟩
      exact (List.append_nil _).symm

theorem endCall (call : Gateway.Call) (answer : Gateway.Answer) (world : World) :
    world.Tells [.gateway call answer] (world.endCall call answer.isAccepted) where
  contents := by
    intro site same
    refine ⟨⟨trivial, trivial⟩, ?_⟩
    rw [← show site.contents = (world.endCall call answer.isAccepted).contents from same]
    cases call <;> cases answer <;> rfl
  calls := by
    simp [World.calls, World.endCall, Event.call?]
  counts := fun _ => rfl

theorem addWipe (answer : Gateway.Answer) (world : World) :
    world.Tells [.wipe answer] world.addWipe where
  contents := by
    intro site same
    refine ⟨⟨trivial, trivial⟩, ?_⟩
    rw [← show site.contents = world.addWipe.contents from same]
    cases answer <;> rfl
  calls := (List.append_nil _).symm
  counts := fun _ => rfl

theorem count (counter : Counter) (amount : Nat) (world : World) :
    world.Tells [.count counter amount] (world.count counter amount) where
  contents := fun _ same => ⟨⟨trivial, trivial⟩, same⟩
  calls := (List.append_nil _).symm
  counts := by
    intro other
    rw [World.count, Statistics.count_raise]
    by_cases same : other = counter
    · subst same
      simp [Event.raised, Event.totalRaised]
    · simp [Event.raised, Event.totalRaised, same]

theorem countCycle (started : Nat) (world : World) :
    world.Tells [.count .cycles 1] (world.countCycle started) where
  contents := fun _ same => ⟨⟨trivial, trivial⟩, same⟩
  calls := (List.append_nil _).symm
  counts := (count .cycles 1 world).counts

end Tells
end World
end Simulation
end InventoryGauges
