import InventoryGauges.Exposition
import InventoryGauges.Gateway
import InventoryGauges.Http

/-!
# Jobs of the gateway

The gauges of the poller are groups of one job.  Each gauge has an address of
its own, below the address of the job.
-/

namespace InventoryGauges
namespace Gateway

/-- A job of the gateway. -/
structure Job where
  /-- Address of the gateway. -/
  base : Url
  /-- Name of the job. -/
  name : String
  /-- Connections that are kept. -/
  poolSize : Nat
  deriving DecidableEq, Repr

namespace Job

/-- The job at a configured address. -/
def ofSettings (url name : String) (concurrency : Nat) : Except Error Job :=
  match Url.ofText url with
  | .ok base => .ok { base, name, poolSize := max concurrency 1 }
  | .error error => .error (.invalidUrl url error.message)

/-- The address of the job. -/
def url (job : Job) : Url :=
  job.base.extend ["metrics", "job", job.name]

/-- The address of a gauge. -/
def gaugeUrl (job : Job) (id : String) : Url :=
  job.base.extend ["metrics", "job", job.name, "id", id]

/-- The request of a call.  A gauge that has no exposition is not sent. -/
def request (job : Job) : Call → Except Error Http.Request
  | .push sample =>
      match (Exposition.ofSample sample).expose with
      | .ok text =>
          .ok
            { method := "PUT"
              url := job.gaugeUrl sample.id
              contentType? := some Exposition.contentType
              body? := some text }
      | .error refusal => .error (.encode refusal.message)
  | .delete id => .ok { method := "DELETE", url := job.gaugeUrl id }

/-- Name of the operation of a call. -/
def operation : Call → String
  | .push _ => "push"
  | .delete _ => "delete"

/-- Send a request and expect success.  The body of a refusal counts as empty if it
cannot be read, and that of a success is not read. -/
def expectSuccess (operation : String) (request : Http.Request) : Exchange Answer := do
  match ← Http.send request with
  | .error message => return .error (.transport message)
  | .ok response =>
      if response.isSuccess then return .ok ()
      else return .error (.rejected operation response.status (response.body.toOption.getD ""))

/-- Make a call. -/
def call (job : Job) (call : Call) : Exchange Answer :=
  match job.request call with
  | .ok request => expectSuccess (operation call) request
  | .error error => return .error error

/-- Withdraw all gauges of the job. -/
def wipe (job : Job) : Exchange Answer :=
  expectSuccess "delete_all" { method := "DELETE", url := job.url }

end Job
end Gateway
end InventoryGauges
