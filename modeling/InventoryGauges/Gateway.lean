import InventoryGauges.Gauge

/-!
# The gauge gateway

What the poller asks of the gateway: one gauge is published or withdrawn by
each call, and a wipe withdraws them all.
-/

namespace InventoryGauges
namespace Gateway

/-- Why a call failed. -/
inductive Error
  /-- No answer arrived. -/
  | transport (message : String)
  /-- The gateway answered with another status than it should. -/
  | rejected (operation : String) (status : Nat) (body : String)
  /-- The gauge has no exposition. -/
  | encode (message : String)
  /-- The configured address is no address. -/
  | invalidUrl (url : String) (message : String)
  deriving DecidableEq, Repr

namespace Error

/-- The error in words. -/
def message : Error → String
  | transport message => s!"Gateway request failed: {message}"
  | rejected operation status body => s!"Gateway rejected {operation}: HTTP {status}: {body}"
  | encode message => s!"Failed to encode gauge: {message}"
  | invalidUrl url message => s!"Invalid gateway URL '{url}': {message}"

/-- Whether the same call may succeed later. -/
def isRecoverable : Error → Bool
  | transport _ => true
  | rejected _ status _ => 500 ≤ status
  | encode _ => false
  | invalidUrl _ _ => false

end Error

/-- One call about one gauge. -/
inductive Call
  | push (sample : Gauge.Sample)
  | delete (id : String)
  deriving DecidableEq, Repr

/-- How a call ended. -/
abbrev Answer : Type := Except Error Unit

/-- Whether a call was accepted. -/
def Answer.isAccepted : Answer → Bool
  | .ok () => true
  | .error _ => false

/-- A call that ended, and how. -/
abbrev Ended : Type := Call × Answer

end Gateway
end InventoryGauges
