import InventoryGauges.Schedule
import InventoryGauges.Store.Memory
import InventoryGauges.Work

/-!
# Simulated surroundings

A store in memory with planned failures, an inventory and a gateway with
planned answers and delays, a clock that only moves in pauses, and a log of
what was asked.
-/

namespace InventoryGauges
namespace Simulation

/-- How class queries end. -/
inductive QueryOutcome
  | objects (objects : List Inventory.Object)
  | fails (error : Inventory.Error)
  /-- The pass that queries breaks down. -/
  | breaks
  deriving Repr

/-- How queries of a class are answered. -/
structure QueryPlan where
  /-- Milliseconds until the answer. -/
  delay : Nat
  /-- The answer. -/
  outcome : QueryOutcome
  deriving Repr

/-- How calls to the gateway are answered. -/
structure GatewayPlan where
  /-- Names of objects whose gauges are not taken. -/
  refusedNames : List String := []
  /-- No gauge is taken. -/
  refusesPushes : Bool := false
  /-- Identities of gauges that are not withdrawn. -/
  refusedIds : List String := []
  /-- No gauge is withdrawn. -/
  refusesDeletes : Bool := false
  /-- Wipes are refused. -/
  refusesWipes : Bool := false
  /-- Status of a refusal. -/
  status : Nat := 503
  /-- Milliseconds that a push takes. -/
  pushDelay : Nat := 0
  /-- Milliseconds that a deletion takes. -/
  deleteDelay : Nat := 0
  deriving Repr, Inhabited

namespace GatewayPlan

/-- The refusal of an operation. -/
def refusal (plan : GatewayPlan) (operation : String) : Gateway.Answer :=
  .error (.rejected operation plan.status "unavailable")

/-- The answer to a call. -/
def answer (plan : GatewayPlan) : Gateway.Call → Gateway.Answer
  | .push sample =>
      if plan.refusesPushes || plan.refusedNames.contains sample.dn then plan.refusal "push"
      else .ok ()
  | .delete id =>
      if plan.refusesDeletes || plan.refusedIds.contains id then plan.refusal "delete"
      else .ok ()

/-- Milliseconds that a call takes. -/
def delay (plan : GatewayPlan) : Gateway.Call → Nat
  | .push _ => plan.pushDelay
  | .delete _ => plan.deleteDelay

/-- The answer to a wipe. -/
def wipeAnswer (plan : GatewayPlan) : Gateway.Answer :=
  if plan.refusesWipes then plan.refusal "delete_all" else .ok ()

end GatewayPlan

/-- A planned failure of the store. -/
structure Fault where
  /-- Name of the operation that fails. -/
  operation : String
  /-- Only calls that name this key fail. -/
  key? : Option String
  /-- The call fails because of its value, not of its time. -/
  isCorrupt : Bool
  /-- How often the failure occurs. -/
  times? : Option Nat
  deriving DecidableEq, Repr

namespace Fault

/-- Name of the operation of a call. -/
def operationOf : Store.Call → String
  | .get _ => "get"
  | .getMany _ => "mget"
  | .set _ _ => "set"
  | .delete _ => "delete"
  | .scan _ => "scan"
  | .ping => "ping"

/-- Whether a call fails. -/
def hits (fault : Fault) (call : Store.Call) : Bool :=
  fault.operation == operationOf call &&
    (match fault.key? with
      | some key => call.keys.contains key
      | none => true) &&
    fault.times? != some 0

/-- The failure of a call. -/
def error (fault : Fault) (call : Store.Call) : Store.Error :=
  if fault.isCorrupt then .corrupt (call.keys.head?.getD "") "unusable value"
  else .timeout (operationOf call) 2000

/-- The fault after it occurred. -/
def used (fault : Fault) : Fault :=
  { fault with times? := fault.times?.map (· - 1) }

/-- The error of the first fault that hits a call, and the faults after it. -/
def strike (call : Store.Call) : List Fault → Option (Store.Error × List Fault)
  | [] => none
  | fault :: faults =>
      if fault.hits call then some (fault.error call, fault.used :: faults)
      else (strike call faults).map fun (error, faults) => (error, fault :: faults)

end Fault

/-- A call to the gateway that ended. -/
structure CallRecord where
  /-- When the call ended. -/
  instant : Nat
  /-- The call. -/
  call : Gateway.Call
  /-- Whether the call was accepted. -/
  accepted : Bool
  deriving DecidableEq, Repr

/-- What was asked of the surroundings, latest first. -/
structure Log where
  /-- Class and filter of each query. -/
  queries : List (String × String) := []
  /-- Calls to the gateway. -/
  calls : List CallRecord := []
  /-- Number of wipes. -/
  wipes : Nat := 0
  /-- Calls to the gateway that did not end yet. -/
  inFlight : Nat := 0
  /-- Most calls to the gateway at once. -/
  mostInFlight : Nat := 0
  deriving Repr, Inhabited

/-- Plans for the inventory and the gateway, and the pacing. -/
structure Plan where
  /-- Plans of the classes. -/
  inventory : Text.Map QueryPlan := Text.Map.empty
  /-- Plan of the gateway. -/
  gateway : GatewayPlan := {}
  /-- The pacing of the poller. -/
  schedule : Schedule := Schedule.standard
  deriving Inhabited

/-- The plan of a class; classes without plan have no objects. -/
def Plan.query (plan : Plan) (className : String) : QueryPlan :=
  (plan.inventory.get? className).getD ⟨0, .objects []⟩

/-- The state that changes while programs run. -/
structure World where
  /-- Wall clock at the start in milliseconds since the epoch. -/
  start : Int
  /-- Milliseconds since the start. -/
  elapsed : Nat := 0
  /-- The contents of the store. -/
  contents : Store.Contents := Text.Map.empty
  /-- Planned failures of the store. -/
  faults : List Fault := []
  /-- The poller's counters. -/
  statistics : Statistics := Statistics.initial
  /-- What was asked. -/
  log : Log := {}

namespace World

/-- The wall clock; readings before the epoch are the epoch. -/
def now (world : World) : Timestamp :=
  Timestamp.ofInt (max 0 (world.start + world.elapsed))

/-- Let the clock reach an instant. -/
def setClock (instant : Nat) (world : World) : World :=
  { world with elapsed := max world.elapsed instant }

/-- Answer a call to the store. -/
def store (call : Store.Call) (world : World) : call.Answer × World :=
  match Fault.strike call world.faults with
  | some (error, faults) => (.error error, { world with faults })
  | none =>
      let result := Store.answer call world.contents
      (result.1, { world with contents := result.2 })

/-- Log a query. -/
def addQuery (className filter : String) (world : World) : World :=
  { world with log := { world.log with queries := (className, filter) :: world.log.queries } }

/-- Log the start of a call to the gateway. -/
def startCall (world : World) : World :=
  let inFlight := world.log.inFlight + 1
  { world with
    log := { world.log with inFlight, mostInFlight := max world.log.mostInFlight inFlight } }

/-- Log the end of a call to the gateway. -/
def endCall (call : Gateway.Call) (accepted : Bool) (world : World) : World :=
  { world with
    log := { world.log with
      inFlight := world.log.inFlight - 1
      calls := ⟨world.elapsed, call, accepted⟩ :: world.log.calls } }

/-- Log a wipe. -/
def addWipe (world : World) : World :=
  { world with log := { world.log with wipes := world.log.wipes + 1 } }

/-- Raise a counter. -/
def count (counter : Counter) (amount : Nat) (world : World) : World :=
  { world with statistics := world.statistics.raise counter amount }

/-- Count a cycle that began at an instant and ends now. -/
def countCycle (begun : Nat) (world : World) : World :=
  { world with
    statistics := world.statistics.observeCycle (Duration.ofMillis (world.elapsed - begun)) }

end World
end Simulation
end InventoryGauges
