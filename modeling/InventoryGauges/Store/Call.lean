import InventoryGauges.Program

/-!
# Key-value stores

What the poller asks of a store: texts under keys, read and written one call at
a time.  Each call fails or succeeds as a whole.
-/

namespace InventoryGauges
namespace Store

/-- Why a call failed. -/
inductive Error
  /-- The server answered with an error. -/
  | backend (message : String)
  /-- The operation took longer than its limit in milliseconds. -/
  | timeout (operation : String) (millis : Nat)
  /-- A value cannot be decoded. -/
  | corrupt (key : String) (message : String)
  deriving DecidableEq, Repr

namespace Error

/-- The error in words. -/
def message : Error → String
  | backend message => s!"Store backend error: {message}"
  | timeout operation millis => s!"Store operation '{operation}' timed out after {millis}ms"
  | corrupt key message => s!"Corrupt value under key '{key}': {message}"

/-- Whether the same call may succeed later. -/
def isRecoverable : Error → Bool
  | corrupt _ _ => false
  | _ => true

end Error

/-- One call. -/
inductive Call
  /-- The value of a key. -/
  | get (key : String)
  /-- The values of some keys, in their order. -/
  | getMany (keys : List String)
  /-- Give a key a value. -/
  | set (key : String) (value : String)
  /-- Remove some keys; absent ones are ignored. -/
  | delete (keys : List String)
  /-- The keys that begin with a text. -/
  | scan (start : String)
  /-- Nothing but an answer. -/
  | ping
  deriving DecidableEq, Repr

namespace Call

/-- What a call gives if it succeeds. -/
abbrev Value : Call → Type
  | get _ => Option String
  | getMany _ => List (Option String)
  | set _ _ => Unit
  | delete _ => Unit
  | scan _ => List String
  | ping => Unit

/-- What a call gives. -/
abbrev Answer (call : Call) : Type :=
  Except Error call.Value

/-- The keys that a call names. -/
def keys : Call → List String
  | get key => [key]
  | getMany keys => keys
  | set key _ => [key]
  | delete keys => keys
  | scan start => [start]
  | ping => []

end Call

/-- Programs that call a store and stop at the first failure. -/
abbrev Access (Result : Type) : Type :=
  ExceptT Error (Program Call Call.Answer) Result

/-- Make one call. -/
def call (call : Call) : Access call.Value :=
  ExceptT.mk (Program.request call)

end Store
end InventoryGauges
