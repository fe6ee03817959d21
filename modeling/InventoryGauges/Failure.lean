import InventoryGauges.Catalog
import InventoryGauges.Filter
import InventoryGauges.Sampling
import InventoryGauges.Settings.Error

/-!
# Failures

All that can go wrong, by the part of the program in which it does.
-/

namespace InventoryGauges

/-- A failure of any part of the program. -/
inductive Failure
  | settings (error : Settings.Error)
  | filter (error : Filter.SyntaxError)
  | rejected (rejection : Metric.Rejection)
  | catalog (error : Catalog.Error)
  | inventory (error : Inventory.Error)
  | extraction (error : Inventory.ExtractionError)
  | sampling (error : Sampling.Error)
  | store (error : Store.Error)
  | gateway (error : Gateway.Error)
  | system (message : String)
  | internal (message : String)
  deriving DecidableEq, Repr

namespace Failure

/-- The part of the program. -/
def category : Failure → String
  | settings _ => "config"
  | filter _ => "filter"
  | rejected _ => "rejected"
  | catalog _ => "catalog"
  | inventory _ => "inventory"
  | extraction _ => "extraction"
  | sampling _ => "sample"
  | store _ => "store"
  | gateway _ => "gateway"
  | system _ => "io"
  | internal _ => "internal"

/-- Whether trying again may help. -/
def isRecoverable : Failure → Bool
  | settings _ | filter _ | rejected _ | internal _ => false
  | catalog (.store _) => true
  | catalog _ => false
  | extraction _ | sampling _ | system _ => true
  | inventory error => error.isRecoverable
  | store error => error.isRecoverable
  | gateway error => error.isRecoverable

/-- The failure in words. -/
def message : Failure → String
  | settings error => s!"Configuration error: {error.message}"
  | filter error => s!"Query filter error: {error.message}"
  | rejected rejection => s!"Metric rejected: {rejection.message}"
  | catalog error => s!"Catalog error: {error.message}"
  | inventory error => s!"Inventory error: {error.message}"
  | extraction error => s!"Extraction error: {error.message}"
  | sampling error => s!"Sampling error: {error.message}"
  | store error => s!"Store error: {error.message}"
  | gateway error => s!"Gateway error: {error.message}"
  | system message => s!"IO error: {message}"
  | internal message => s!"Internal error: {message}"

/-- What a store error goes back to. -/
def storeCauses : Store.Error → List String
  | .backend message => [message]
  | _ => []

/-- What an inventory error goes back to. -/
def inventoryCauses : Inventory.Error → List String
  | .transport message => [message]
  | _ => []

/-- What a gateway error goes back to. -/
def gatewayCauses : Gateway.Error → List String
  | .transport message | .encode message => [message]
  | _ => []

/-- What the failure goes back to, the nearest cause first. -/
def causes : Failure → List String
  | settings error => [error.message]
  | filter error => [error.message]
  | rejected rejection => [rejection.message]
  | catalog error =>
      error.message :: match error with
        | .store error => storeCauses error
        | _ => []
  | inventory error => error.message :: inventoryCauses error
  | extraction error => [error.message]
  | sampling error =>
      error.message :: match error with
        | .inventory error => inventoryCauses error
        | .extraction _ => []
  | store error => error.message :: storeCauses error
  | gateway error => error.message :: gatewayCauses error
  | system message => [message]
  | internal _ => []

end Failure
end InventoryGauges
