import InventoryGauges.Simulation.Tasks

/-!
# The poll loop in virtual time

The poller logs in, again and again until it succeeds, and then runs cycles
with a pause before each one.  A cancellation ends pauses, never a cycle.
-/

namespace InventoryGauges
namespace Simulation

/-- Pause unless a cancellation comes first; the result tells whether it did. -/
def pauseOrCancel (millis : Nat) (cancel? : Option Nat) (world : World) : Bool × World :=
  let instant := world.elapsed + millis
  match cancel? with
  | some cancel =>
      if cancel < instant then (true, world.setClock cancel)
      else (false, world.setClock instant)
  | none => (false, world.setClock instant)

/-- How an attempt to get a session ended. -/
structure Acquisition where
  /-- Whether there is a session. -/
  session : Bool
  /-- Number of logins. -/
  attempts : Nat
  deriving DecidableEq, Repr

/-- Log in until it succeeds after some failures, or until cancelled.  The
first login happens in any case. -/
def acquire (schedule : Schedule) (cancel? : Option Nat) : Nat → World → Acquisition × World
  | 0, world => (⟨true, 1⟩, world.count .sessionAttempts 1)
  | failures + 1, world =>
      let (cancelled, world) :=
        pauseOrCancel schedule.sessionRetry.millis cancel? (world.count .sessionAttempts 1)
      if cancelled then (⟨false, 1⟩, world)
      else
        let (acquisition, world) := acquire schedule cancel? failures world
        ({ acquisition with attempts := acquisition.attempts + 1 }, world)

/-- Run at most `turns` cycles until cancelled, and count them. -/
def poll (plan : Plan) (cancel? : Option Nat) : Nat → World → Nat × World
  | 0, world => (0, world)
  | turns + 1, world =>
      let (cancelled, world) := pauseOrCancel plan.schedule.debounce.millis cancel? world
      if cancelled then (0, world)
      else
        let (_, world) := run (cycle plan) world
        let (cycles, world) := poll plan cancel? turns world
        (cycles + 1, world)

/-- The poll loop: a session, then cycles.  The cycles come at least a
millisecond apart, so that there are no more of them than milliseconds until
the cancellation. -/
def loop (plan : Plan) (failures cancel : Nat) (world : World) :
    (Acquisition × Nat) × World :=
  let (acquisition, world) := acquire plan.schedule (some cancel) failures world
  if acquisition.session then
    let (cycles, world) := poll plan (some cancel) (cancel + 1) world
    ((acquisition, cycles), world)
  else ((acquisition, 0), world)

end Simulation
end InventoryGauges
