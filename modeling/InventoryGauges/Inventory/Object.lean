import InventoryGauges.Decimal.Reading
import InventoryGauges.Gauge
import InventoryGauges.Json.Writer
import InventoryGauges.Metric
import InventoryGauges.Text.Blank

/-!
# Inventory objects and their samples

Objects as answered by a class query, and the samples of a metric in them.
All objects must be usable: the first one that is not refuses the whole
answer.
-/

namespace InventoryGauges
namespace Inventory

/-- The attributes of one inventory object. -/
structure Object where
  /-- The attributes as members of a JSON object. -/
  attributes : List (String × Json)
  deriving Repr, Inhabited

/-- Why an answer gives no samples. -/
inductive ExtractionError
  /-- An object has no distinguished name. -/
  | missingIdentifier (className : String)
  /-- An object lacks an attribute. -/
  | missingAttribute (dn attributeName : String)
  /-- An attribute's value, written as JSON, is no number. -/
  | notNumeric (dn attributeName value : String)
  deriving DecidableEq, Repr

namespace ExtractionError

/-- The error in words. -/
def message : ExtractionError → String
  | missingIdentifier className => s!"object without 'dn' in class '{className}'"
  | missingAttribute dn attributeName => s!"object '{dn}' has no attribute '{attributeName}'"
  | notNumeric dn attributeName value =>
      s!"attribute '{attributeName}' of '{dn}' is not numeric: {value}"

end ExtractionError

/-- The number that a JSON value stands for: numbers, and texts of real numbers
between blanks. -/
def numeric? : Json → Option Binary64
  | .number value => some value.toBinary64
  | .string value => Decimal.real? (Text.trim value.toList)
  | _ => none

namespace Object

/-- The attribute that holds the distinguished name. -/
def identifierAttribute : String := "dn"

/-- The value of an attribute. -/
def value? (object : Object) (name : String) : Option Json :=
  (Json.object object.attributes).member? name

/-- The distinguished name. -/
def identifier (object : Object) (className : String) : Except ExtractionError String :=
  match (object.value? identifierAttribute).bind Json.asString? with
  | some dn => .ok dn
  | none => .error (.missingIdentifier className)

/-- The number in an attribute. -/
def numeric (object : Object) (dn name : String) : Except ExtractionError Binary64 :=
  match object.value? name with
  | none => .error (.missingAttribute dn name)
  | some value =>
      match numeric? value with
      | some number => .ok number
      | none => .error (.notNumeric dn name value.canonical.compact)

/-- The samples of a metric in an object, in the order of its attributes. -/
def samples (object : Object) (metric : Metric) :
    Except ExtractionError (List Gauge.Sample) := do
  let dn ← object.identifier metric.className
  metric.attributes.mapM fun attributeName => do
    let value ← object.numeric dn attributeName
    return Gauge.Sample.of metric.name metric.className dn attributeName value

end Object

/-- The samples of a metric in the objects of an answer, in order. -/
def extract (metric : Metric) (objects : List Object) :
    Except ExtractionError (List Gauge.Sample) := do
  let samples ← objects.mapM fun object => object.samples metric
  return samples.flatten

end Inventory
end InventoryGauges
