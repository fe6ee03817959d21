import InventoryGauges.Network.Address

/-!
# Endpoints

An address together with a port, to listen on.
-/

namespace InventoryGauges
namespace Network

/-- An address with a port. -/
inductive Endpoint
  | four (address : Nat) (port : Nat)
  | six (groups : List Nat) (zone : Nat) (port : Nat)
  deriving DecidableEq, Repr

namespace Endpoint

/-- Read a number of decimal digits up to a limit. -/
def numberUpTo? (limit : Nat) (text : List Char) : Option Nat :=
  (Decimal.natural? text).bind fun value => if value ≤ limit then some value else none

/-- Read a port. -/
def port? (text : List Char) : Option Nat :=
  numberUpTo? 65535 text

/-- Read an address in brackets, perhaps with a zone. -/
def bracketed? (text : List Char) : Option (List Nat × Nat) :=
  match Text.splitAtFirst? ['%'] text with
  | some (address, zone) => do
      let groups ← ofColons? address
      let zone ← numberUpTo? (Nat.pow 2 32 - 1) zone
      return (groups, zone)
  | none => (ofColons? text).map fun groups => (groups, 0)

/-- Read an endpoint. -/
def ofText? (text : List Char) : Option Endpoint :=
  match text with
  | '[' :: rest => do
      let (address, port) ← Text.splitAtFirst? [']', ':'] rest
      let (groups, zone) ← bracketed? address
      let port ← port? port
      return six groups zone port
  | _ => do
      let (address, port) ← Text.splitAtFirst? [':'] text
      let address ← ofDotted? address
      let port ← port? port
      return four address port

end Endpoint
end Network
end InventoryGauges
