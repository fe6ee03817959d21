import InventoryGauges.Cycle
import InventoryGauges.Failure
import InventoryGauges.Gateway.Job
import InventoryGauges.Inventory.Session
import InventoryGauges.Settings
import InventoryGauges.Store.Location
import InventoryGauges.Store.Remote

/-!
# Deployments

A deployment is the poller together with its servers, as the settings name
them.  Its programs ask for exchanges with these servers, one after another.

So a deployment tells which requests arrive at the servers and not when.  Passes
take turns in a cycle, calls to the gateway follow each other, and neither the
longest time of a pass nor the limit on calls in flight is observed.  What
passes do side by side, and when they are cut off, is told by the runs of a
cycle and by its simulation.
-/

namespace InventoryGauges

/-- The poller with its servers. -/
structure Deployment where
  /-- Where the store is. -/
  location : Store.Location
  /-- Longest time for a call to the store, in milliseconds. -/
  storeLimit : Nat
  /-- The account at the inventory. -/
  account : Inventory.Account
  /-- The job at the gateway. -/
  job : Gateway.Job
  /-- The pacing of the poller. -/
  schedule : Schedule

namespace Deployment

/-- What a deployment asks of its surroundings. -/
inductive Request
  /-- Something of the connection to a store. -/
  | store (location : Store.Location) (request : Store.Remote.Request)
  /-- An exchange over HTTP. -/
  | exchange (request : Http.Request)
  /-- Read the wall clock. -/
  | clock

/-- What each request is answered with. -/
abbrev Request.Answer : Request → Type
  | store _ request => request.Answer
  | exchange request => Http.Answer request
  | clock => Timestamp

end Deployment

/-- Programs that use the servers of a deployment. -/
abbrev Served (Result : Type) : Type :=
  Program Deployment.Request Deployment.Request.Answer Result

namespace Deployment

/-- What is told of a store address that cannot be read. -/
def unreadableLocation : Store.Error :=
  .backend "Redis URL did not parse- InvalidClientConfig"

/-- Where the settings place the store. -/
def locationOf (settings : Settings) : Except Failure Store.Location :=
  match Store.Location.ofText? settings.storeUrl with
  | some location => .ok location
  | none => .error (.store unreadableLocation)

/-- The deployment of some settings. -/
def ofSettings (settings : Settings) : Except Failure Deployment := do
  let location ← locationOf settings
  let base ← (Inventory.base? settings.inventoryUrl).mapError .inventory
  let job ← (Gateway.Job.ofSettings settings.gatewayUrl settings.job
    settings.schedule.pushConcurrency).mapError .gateway
  return { location
           storeLimit := settings.storeTimeout.millis
           account := { base, username := settings.username, password := settings.password }
           job
           schedule := settings.schedule }

/-- Exchanges over HTTP as a program of a deployment. -/
def exchange {Result : Type} (program : Exchange Result) : Served Result :=
  program.interpret fun request => Program.request (Request.exchange request)

/-- Access to a store as a program of a deployment. -/
def access {Result : Type} (location : Store.Location) (storeLimit : Nat)
    (access : Store.Access Result) : Served (Except Store.Error Result) :=
  (Store.Remote.ofCalls storeLimit access.run).interpret fun request =>
    Program.request (Request.store location request)

/-- Read the wall clock. -/
def clock : Served Timestamp :=
  Program.request Request.clock

/-- Programs that use the servers and a session with the inventory, which the
first query opens. -/
abbrev InSession (Result : Type) : Type :=
  StateT (Option Inventory.Session) (Program Deployment.Request Request.Answer) Result

variable (deployment : Deployment)

/-- The session, which is opened if there is none. -/
def session : InSession (Except Inventory.Error Inventory.Session) := do
  match ← get with
  | some session => return .ok session
  | none =>
      let opened ← exchange deployment.account.connect
      if let .ok session := opened then set (some session)
      return opened

/-- Query a class. -/
def query (className filter : String) :
    InSession (Except Inventory.Error (List Inventory.Object)) := do
  match ← deployment.session with
  | .error error => return .error error
  | .ok session =>
      let (result, renewed) ← exchange (session.query className filter)
      set (some renewed)
      return result

/-- Make one call to the gateway. -/
def callGateway (call : Gateway.Call) : InSession Gateway.Ended := do
  return (call, ← exchange (deployment.job.call call))

/-- Answer what a piece of work asks.  Calls to the gateway follow each other in their order,
however many may be made at once.  Counters are not kept. -/
def answer : (request : Work.Request) → InSession request.Answer
  | .store call => access deployment.location deployment.storeLimit (Store.call call)
  | .query className filter => deployment.query className filter
  | .gateway _ calls => calls.mapM deployment.callGateway
  | .wipe => exchange deployment.job.wipe
  | .clock => clock
  | .count _ _ => return ()

/-- Do a piece of work. -/
def work {Result : Type} (work : Work Result) : InSession Result :=
  work.interpret deployment.answer

/-- Answer what a cycle asks.  Its passes take turns instead of running side by side, and
none is cut off, since a deployment has no requests that overlap in time; nor does it take
the time of a cycle. -/
def answerCycle : (request : Cycle.Request) → InSession request.Answer
  | .single request => deployment.answer request
  | .passes metrics => metrics.mapM fun metric => do
      return .finished (← deployment.work (Sampling.pass deployment.schedule metric))
  | .instant => return 0
  | .observe _ => return ()

/-- Run a cycle. -/
def cycle : InSession Cycle.Report :=
  (Cycle.cycle deployment.schedule).interpret deployment.answerCycle

/-- Withdraw all gauges and remove all bookkeeping. -/
def purge : Served (Except Failure Nat) := do
  let (purged, _) ← (deployment.work Cycle.purge).run none
  return purged.mapError fun
    | .gateway error => .gateway error
    | .store error => .store error

end Deployment
end InventoryGauges
