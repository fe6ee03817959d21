/-!
# Errors of the inventory
-/

namespace InventoryGauges
namespace Inventory

/-- Why the inventory gave no answer. -/
inductive Error
  /-- The login at an address failed. -/
  | login (url : String) (message : String)
  /-- A class query was answered with another status than success. -/
  | query (className : String) (status : Nat) (body : String)
  /-- The answer has the wrong shape. -/
  | decode (message : String)
  /-- The configured address is no address. -/
  | invalidUrl (url : String) (message : String)
  /-- No answer arrived. -/
  | transport (message : String)
  deriving DecidableEq, Repr

namespace Error

/-- The error in words. -/
def message : Error → String
  | login url message => s!"Login to '{url}' failed: {message}"
  | query className status body =>
      s!"error while querying \"{className}\": HTTP {status}: {body}"
  | decode message => s!"Invalid inventory response: {message}"
  | invalidUrl url message => s!"Invalid inventory URL '{url}': {message}"
  | transport message => s!"Inventory request failed: {message}"

/-- Whether the same request may succeed later. -/
def isRecoverable : Error → Bool
  | invalidUrl _ _ => false
  | _ => true

end Error
end Inventory
end InventoryGauges
