import InventoryGauges.Store.Bookkeeping

/-!
# The catalog of definitions

Adding and removing definitions.  Names are unique; what was published for a
removed metric is left to the poller.
-/

namespace InventoryGauges
namespace Catalog

/-- Why a definition was not added. -/
inductive Error
  | rejected (rejection : Metric.Rejection)
  | duplicate (name : String)
  | store (error : Store.Error)
  deriving DecidableEq, Repr

namespace Error

/-- The error in words. -/
def message : Error → String
  | rejected rejection => rejection.message
  | duplicate _ => "metric with that name already exists"
  | store error => error.message

end Error

/-- Changes of the catalog stop at the first error. -/
abbrev Change (Result : Type) : Type :=
  ExceptT Error (Program Store.Call Store.Call.Answer) Result

/-- Access to the store as a part of a change. -/
def access {Result : Type} (access : Store.Access Result) : Change Result :=
  ExceptT.adapt Error.store access

/-- Add a definition at the end of the list, which is given back. -/
def add (metric : Metric) : Change (List Metric) := do
  match metric.check with
  | .error rejection => throw (.rejected rejection)
  | .ok () =>
      let metrics ← access Store.listMetrics
      if metrics.any fun other => other.name == metric.name then
        throw (.duplicate metric.name)
      else
        access (Store.saveMetrics (metrics ++ [metric]))
        return metrics ++ [metric]

/-- Remove the definition of a name and give the list back.  The list is only
written if it had that name. -/
def delete (name : String) : Store.Access (List Metric) := do
  let metrics ← Store.listMetrics
  let kept := metrics.filter fun metric => metric.name != name
  if kept.length ≠ metrics.length then
    Store.saveMetrics kept
  return kept

end Catalog
end InventoryGauges
