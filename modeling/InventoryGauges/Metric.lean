import InventoryGauges.Filter

/-!
# Metric definitions

What to sample: the objects of a class that pass a filter, some of their
attributes, and how often.  A definition is checked field by field, and the
first field that breaks its rule is reported.
-/

namespace InventoryGauges

/-- One monitored metric. -/
structure Metric where
  /-- Unique name. -/
  name : String
  /-- Inventory class of the sampled objects. -/
  className : String
  /-- Attributes sampled on every object. -/
  attributes : List String
  /-- Filter of the class query; the empty one passes every object. -/
  queryFilter : String
  /-- Milliseconds between two samplings. -/
  interval : UInt64
  deriving DecidableEq, Repr, Inhabited

namespace Metric

/-- A field of a definition. -/
inductive Field
  | name
  | className
  | attributes
  | queryFilter
  | interval
  deriving DecidableEq, Repr

namespace Field

/-- The field's name in documents. -/
def label : Field → String
  | name => "name"
  | className => "className"
  | attributes => "attributes"
  | queryFilter => "queryFilter"
  | interval => "interval"

/-- All fields in the order in which their rules are checked. -/
def all : List Field :=
  [name, className, attributes, queryFilter, interval]

end Field

/-- Why a definition is refused. -/
inductive Rejection
  /-- The document is no object. -/
  | notObject
  /-- The document has other members than the five fields. -/
  | wrongShape
  /-- The field's value has the wrong type. -/
  | wrongType (field : Field)
  /-- The field's value breaks its rule. -/
  | brokenRule (field : Field)
  /-- A rule beyond those of the fields, in words. -/
  | otherRule (label : String) (rule : String)
  deriving DecidableEq, Repr

namespace Rejection

/-- Name of the field to blame, or of the whole document. -/
def fieldLabel : Rejection → String
  | notObject | wrongShape => "metric"
  | wrongType field | brokenRule field => field.label
  | otherRule label _ => label

/-- The rule that is not kept. -/
def message : Rejection → String
  | notObject => "metric should be a dictionary"
  | wrongShape => "invalid metric shape"
  | wrongType .name | brokenRule .name =>
      "name can contain should start with letter or digit and may contain _"
  | wrongType .className | brokenRule .className => "metric should have class name"
  | wrongType .attributes => "metric should have string attributes"
  | brokenRule .attributes => "metric should have at least one monitored attribute"
  | wrongType .queryFilter => "metric should have a query filter"
  | brokenRule .queryFilter => "invalid query filter"
  | wrongType .interval | brokenRule .interval => "metric should have interval >= 500"
  | otherRule _ rule => rule

end Rejection

/-- Names start with a letter or digit; underscores may follow. -/
def nameIsValid (name : String) : Bool :=
  match name.toList with
  | [] => false
  | first :: rest =>
      first.isAlphanum && rest.all fun character => character.isAlphanum || character == '_'

/-- Least interval in milliseconds. -/
def leastInterval : UInt64 := 500

/-- Whether a field keeps its rule. -/
def keepsRule (metric : Metric) : Field → Bool
  | .name => nameIsValid metric.name
  | .className => metric.className != ""
  | .attributes => !metric.attributes.isEmpty
  | .queryFilter => (Filter.check metric.queryFilter).isOk
  | .interval => leastInterval ≤ metric.interval

/-- Check the rules of all fields; the first broken one is reported. -/
def check (metric : Metric) : Except Rejection Unit :=
  match Field.all.find? fun field => !metric.keepsRule field with
  | some field => .error (.brokenRule field)
  | none => .ok ()

end Metric
end InventoryGauges
