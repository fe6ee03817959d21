/-!
# Errors of the settings
-/

namespace InventoryGauges
namespace Settings

/-- Why there are no settings. -/
inductive Error
  /-- The named file does not exist. -/
  | fileNotFound (path : String)
  /-- A source of settings cannot be read. -/
  | unreadable (message : String)
  /-- A setting breaks its rule. -/
  | invalidValue (field : String) (message : String)
  /-- A setting without default is not given; it has a variable of its own. -/
  | missingField (field : String) (variableName : String)
  deriving DecidableEq, Repr

namespace Error

/-- The error in words. -/
def message : Error → String
  | fileNotFound path => s!"Configuration file not found: {path}"
  | unreadable message => s!"Failed to parse configuration: {message}"
  | invalidValue field message => s!"Invalid configuration value for '{field}': {message}"
  | missingField field variableName =>
      s!"Missing required configuration field: {field} (or environment variable {variableName})"

end Error
end Settings
end InventoryGauges
