import InventoryGauges.Json.Reader
import InventoryGauges.Json.Writer
import InventoryGauges.Metric

/-!
# Metric documents

Definitions as JSON.  A document from outside is checked in full and refused
with a reason; a stored list is decoded as it was written, without checking
values.
-/

namespace InventoryGauges
namespace Metric

open Json

/-- The document of a definition. -/
def toJson (metric : Metric) : Json :=
  .object
    [("name", .string metric.name),
      ("className", .string metric.className),
      ("attributes", .array (metric.attributes.map .string)),
      ("queryFilter", .string metric.queryFilter),
      ("interval", .number (.integer metric.interval.toNat))]

/-- A list of strings. -/
def strings? (value : Json) : Option (List String) :=
  value.asArray?.bind fun items => items.mapM Json.asString?

/-- An unsigned 64-bit integer. -/
def unsigned? : Json → Option UInt64
  | .number value => value.unsigned?
  | _ => none

/-- The only member of a name. -/
def onlyMember? (members : List (String × Json)) (name : String) : Option Json :=
  match members.filter fun entry => entry.1 == name with
  | [entry] => some entry.2
  | _ => none

/-- Decode five field values. -/
def ofValues? (name className attributes queryFilter interval : Json) : Option Metric := do
  let name ← name.asString?
  let className ← className.asString?
  let attributes ← strings? attributes
  let queryFilter ← queryFilter.asString?
  let interval ← unsigned? interval
  return { name, className, attributes, queryFilter, interval }

/-- Decode a stored definition: an object with exactly the five fields, each
once, or an array of the five values. -/
def ofStored? : Json → Option Metric
  | .object members =>
      if members.all fun entry => Field.all.any fun field => field.label == entry.1 then do
        let name ← onlyMember? members Field.name.label
        let className ← onlyMember? members Field.className.label
        let attributes ← onlyMember? members Field.attributes.label
        let queryFilter ← onlyMember? members Field.queryFilter.label
        let interval ← onlyMember? members Field.interval.label
        ofValues? name className attributes queryFilter interval
      else none
  | .array [name, className, attributes, queryFilter, interval] =>
      ofValues? name className attributes queryFilter interval
  | _ => none

/-- Whether a value has the type of a field. -/
def Field.admits : Field → Json → Bool
  | name, value | className, value | queryFilter, value => value.asString?.isSome
  | attributes, value =>
      value.asArray?.any fun items => items.all fun item => item.asString?.isSome
  | interval, value => (unsigned? value).isSome

/-- Whether a document's member for a field has the field's type. -/
def hasType (document : Json) (field : Field) : Bool :=
  (document.member? field.label).any field.admits

/-- The refusal of a document of the right shape that cannot be decoded. -/
def Rejection.undecodable : Rejection :=
  .otherRule wrongShape.fieldLabel (wrongShape.message ++ ": malformed value")

/-- Decode a document from outside and check it. -/
def ofDocument (document : Json) : Except Rejection Metric := do
  let .object _ := document | throw .notObject
  if document.names ≠ Text.Set.ofList (Field.all.map Field.label) then
    throw .wrongShape
  match Field.all.find? fun field => !hasType document field with
  | some field => throw (.wrongType field)
  | none =>
      match ofStored? document.canonical with
      | none => throw .undecodable
      | some metric =>
          metric.check
          return metric

/-- The stored text of a list of definitions. -/
def listText (metrics : List Metric) : String :=
  Json.compact (.array (metrics.map toJson))

/-- Decode the stored text of a list of definitions. -/
def ofListText? (source : String) : Option (List Metric) := do
  let value ← Json.ofString? source
  let items ← value.asArray?
  items.mapM ofStored?

end Metric
end InventoryGauges
