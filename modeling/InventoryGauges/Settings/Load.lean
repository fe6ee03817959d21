import InventoryGauges.Settings.Decode
import InventoryGauges.Settings.Document
import InventoryGauges.Settings.Variables
import InventoryGauges.Toml.Reader

/-!
# Loading settings

Settings come from layers: the standard ones, a file, the plain variables, and
the variables that spell sections and keys.  Each layer lies over the one
before, key by key.
-/

namespace InventoryGauges
namespace Settings

/-- Where a file of settings comes from. -/
inductive Source
  /-- There is no file. -/
  | nowhere
  /-- The named file does not exist. -/
  | missing (path : String)
  /-- The file cannot be read. -/
  | unreadable (message : String)
  /-- The file has this content. -/
  | content (text : String)
  deriving DecidableEq, Repr

/-- Read a document. -/
def document (text : String) : Except Error Value :=
  match Toml.ofString? text with
  | some value => .ok value
  | none => .error (.unreadable "malformed document")

/-- Decode and check settings. -/
def checked (value : Value) : Except Error Settings :=
  match ofValue? value with
  | none => .error (.unreadable "value of the wrong type")
  | some settings => do
      settings.check
      return settings

/-- Settings from a document alone. -/
def ofDocument (text : String) : Except Error Settings := do
  checked (← document text)

/-- The layer of the file. -/
def fileLayer : Source → Except Error Value
  | .nowhere => .ok (.table [])
  | .missing path => .error (.fileNotFound path)
  | .unreadable message => .error (.unreadable message)
  | .content text => document text

/-- Settings from all layers. -/
def load (source : Source) (environment : Text.Map String) : Except Error Settings := do
  let file ← fileLayer source
  let plain := Variables.layer Variables.plainPath? environment
  let spelled := Variables.layer Variables.spelledPath? environment
  checked (spelled.layOver (plain.layOver (file.layOver standard.toValue)))

end Settings
end InventoryGauges
