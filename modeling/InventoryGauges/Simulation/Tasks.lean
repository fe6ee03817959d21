import InventoryGauges.Cycle
import InventoryGauges.Simulation.Thread
import InventoryGauges.Simulation.World

/-!
# Programs in virtual time

Pieces of work and cycles as threads over a simulated world.  Only queries and
calls to the gateway take time, as planned.
-/

namespace InventoryGauges
namespace Simulation

/-- A call to the gateway that ends at an instant. -/
abbrev Flight : Type := Nat × Gateway.Call

/-- The flight that ends first, and the others. -/
def earliest? : List Flight → Option (Flight × List Flight)
  | [] => none
  | flight :: flights =>
      match earliest? flights with
      | none => some (flight, [])
      | some (other, others) =>
          if flight.1 ≤ other.1 then some (flight, flights)
          else some (other, flight :: others)

/-- Make calls to the gateway with a limit on how many fly at once.  A new one
starts as soon as there is room for it.  Each call takes at most two of the
steps, its start and its end. -/
def fly (plan : GatewayPlan) (limit : Nat) :
    Nat → List Gateway.Call → List Flight → List Gateway.Ended →
      Thread World (List Gateway.Ended)
  | 0, _, _, ended => .ended ended.reverse
  | steps + 1, waiting, flights, ended =>
      let land : Thread World (List Gateway.Ended) :=
        match earliest? flights with
        | none => .ended ended.reverse
        | some ((instant, call), others) =>
            let answer := plan.answer call
            .pause instant <|
              .act (World.endCall call answer.isAccepted) fun _ =>
                fly plan limit steps waiting others ((call, answer) :: ended)
      match waiting with
      | [] => land
      | call :: waiting =>
          if limit ≤ flights.length then land
          else if plan.delay call = 0 then
            let answer := plan.answer call
            .act (World.endCall call answer.isAccepted ∘ World.startCall) fun _ =>
              fly plan limit steps waiting flights ((call, answer) :: ended)
          else
            .act World.startCall fun world =>
              fly plan limit steps waiting
                (flights ++ [(world.elapsed + plan.delay call, call)]) ended

/-- Pause for some milliseconds; none at all is no pause. -/
def rest (millis : Nat) : Thread World Unit :=
  if millis = 0 then .ended ()
  else .act id fun world => .pause (world.elapsed + millis) (.ended ())

/-- Calls to the gateway as a thread. -/
def callAll (plan : GatewayPlan) (limit : Nat) (calls : List Gateway.Call) :
    Thread World (List Gateway.Ended) :=
  fly plan limit (2 * calls.length + 1) calls [] []

/-- A piece of work as a thread; no result if it broke down. -/
def work (plan : Plan) {Result : Type} : Work Result → Thread World (Option Result)
  | .done result => .ended (some result)
  | .ask (.store call) next =>
      .act (fun world => (world.store call).2) fun world =>
        work plan (next (world.store call).1)
  | .ask (.query className filter) next =>
      let query := plan.query className
      .act (World.addQuery className filter) fun _ =>
        (rest query.delay).andThen fun () =>
          match query.outcome with
          | .objects objects => work plan (next (.ok objects))
          | .fails error => work plan (next (.error error))
          | .breaks => .ended none
  | .ask (.gateway limit calls) next =>
      (callAll plan.gateway limit calls).andThen fun ended => work plan (next ended)
  | .ask .wipe next =>
      .act World.addWipe fun _ => work plan (next plan.gateway.wipeAnswer)
  | .ask .clock next => .act id fun world => work plan (next world.now)
  | .ask (.count counter amount) next =>
      .act (World.count counter amount) fun _ => work plan (next ())

/-- A pass within a cycle: it is cut off after the longest time that a pass may
take, and then cleaned up after. -/
def pass (plan : Plan) (metric : Metric) : Thread World Cycle.Ending :=
  let cleanup : Thread World Cycle.Ending :=
    (work plan (Sampling.giveUp plan.schedule metric)).andThen fun _ => .ended .timedOut
  let whole : Thread World Cycle.Ending :=
    (work plan (Sampling.pass plan.schedule metric)).andThen fun
      | some result => .ended (.finished result)
      | none => .ended .broken
  .act id fun world =>
    Thread.cutAt (world.elapsed + plan.schedule.sampleTimeout.millis) cleanup whole

/-- A part of a cycle as a thread; no result if it broke down. -/
def part (plan : Plan) {Result : Type} : Cycle Result → Thread World (Option Result)
  | .done result => .ended (some result)
  | .ask (.single request) next =>
      (work plan (Program.request request)).andThen fun
        | some answer => part plan (next answer)
        | none => .ended none
  | .ask (.passes metrics) next =>
      (Thread.all (metrics.map (pass plan))).andThen fun endings => part plan (next endings)
  | .ask .instant next => .act id fun world => part plan (next world.elapsed)
  | .ask (.observe started) next =>
      .act (World.countCycle started) fun _ => part plan (next ())

/-- A whole cycle. -/
def cycle (plan : Plan) : Thread World Cycle.Report :=
  (part plan (Cycle.cycle plan.schedule)).andThen fun report? =>
    .ended (report?.getD Cycle.Report.empty)

/-- Run a thread in a world. -/
def run {Result : Type} (thread : Thread World Result) (world : World) : Result × World :=
  thread.run World.setClock world

end Simulation
end InventoryGauges
