import InventoryGauges.Gateway
import InventoryGauges.Inventory.Error
import InventoryGauges.Inventory.Object
import InventoryGauges.Statistics
import InventoryGauges.Store.Call
import InventoryGauges.Timestamp

/-!
# Pieces of work

A piece of work is a program that uses the store, the inventory, the gateway
and the clock.  Several calls to the gateway form one request, since they may
overlap in time.
-/

namespace InventoryGauges
namespace Work

/-- What a piece of work asks. -/
inductive Request
  /-- One call to the store. -/
  | store (call : Store.Call)
  /-- The objects of a class that pass a filter. -/
  | query (className : String) (filter : String)
  /-- Some calls to the gateway, at most `limit` of them at once. -/
  | gateway (limit : Nat) (calls : List Gateway.Call)
  /-- Withdraw everything from the gateway. -/
  | wipe
  /-- Read the wall clock. -/
  | clock
  /-- Raise a counter. -/
  | count (counter : Counter) (amount : Nat)

/-- What each request is answered with; calls to the gateway in the order in
which they ended. -/
abbrev Request.Answer : Request → Type
  | store call => call.Answer
  | query _ _ => Except Inventory.Error (List Inventory.Object)
  | gateway _ _ => List Gateway.Ended
  | wipe => Gateway.Answer
  | clock => Timestamp
  | count _ _ => Unit

end Work

/-- A piece of work with a result. -/
abbrev Work (Result : Type) : Type :=
  Program Work.Request Work.Request.Answer Result

namespace Work

/-- Calls to the store as a piece of work. -/
def ofCalls {Result : Type} : Program Store.Call Store.Call.Answer Result → Work Result
  | .done result => .done result
  | .ask call next => .ask (.store call) fun answer => ofCalls (next answer)

/-- Access to the store as a piece of work. -/
def access {Result : Type} (access : Store.Access Result) : Work (Except Store.Error Result) :=
  ofCalls access.run

/-- The objects of a class that pass a filter. -/
def query (className filter : String) :
    Work (Except Inventory.Error (List Inventory.Object)) :=
  Program.request (Request.query className filter)

/-- Make some calls to the gateway, one at a time at least. -/
def gateway (limit : Nat) (calls : List Gateway.Call) : Work (List Gateway.Ended) :=
  Program.request (Request.gateway (max limit 1) calls)

/-- Withdraw everything from the gateway. -/
def wipe : Work Gateway.Answer :=
  Program.request Request.wipe

/-- Read the wall clock. -/
def clock : Work Timestamp :=
  Program.request Request.clock

/-- Raise a counter. -/
def count (counter : Counter) (amount : Nat) : Work Unit :=
  Program.request (Request.count counter amount)

end Work
end InventoryGauges
