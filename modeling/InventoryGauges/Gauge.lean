import InventoryGauges.Binary64
import InventoryGauges.Digest.Xxh3

/-!
# Gauges

One gauge is published for each attribute of each object of a metric.  Its
identity is a digest of the three names, so that equal gauges have equal
identities in every run.
-/

namespace InventoryGauges
namespace Gauge

/-- The byte between the parts of a digested identity. -/
def separator : UInt8 := 0x1f

/-- The bytes that identify a gauge. -/
def identityBytes (metric dn attributeName : String) : ByteArray :=
  (metric.toUTF8.push separator ++ dn.toUTF8).push separator ++ attributeName.toUTF8

/-- The identity of a gauge: 32 hexadecimal digits. -/
def identity (metric dn attributeName : String) : String :=
  (Digest.Xxh3.digest (identityBytes metric dn attributeName)).hex

/-- One attribute value of one object, ready to be published. -/
structure Sample where
  /-- Identity of the gauge. -/
  id : String
  /-- Name of the metric. -/
  metric : String
  /-- Inventory class of the object. -/
  className : String
  /-- Distinguished name of the object. -/
  dn : String
  /-- The attribute. -/
  attributeName : String
  /-- The attribute's value. -/
  value : Binary64
  deriving DecidableEq, Repr, Inhabited

namespace Sample

/-- The sample of an attribute value. -/
def of (metric className dn attributeName : String) (value : Binary64) : Sample :=
  { id := identity metric dn attributeName, metric, className, dn, attributeName, value }

end Sample

/-- A character of a published name. -/
def isNameCharacter (character : Char) : Bool :=
  character.isAlphanum || character == '_'

/-- A character that may start a published name. -/
def isNameStart (character : Char) : Bool :=
  character.isAlpha || character == '_'

/-- Replace each run of other characters by one underscore. -/
def collapse (inRun : Bool) : List Char → List Char
  | [] => []
  | character :: rest =>
      if isNameCharacter character then character :: collapse false rest
      else if inRun then collapse true rest
      else '_' :: collapse true rest

/-- The published name of a metric: names that do not start with a letter or an
underscore get a start that does. -/
def publishedName (metric : String) : String :=
  let name := metric.toList
  let started :=
    match name with
    | first :: _ => if isNameStart first then name else 'X' :: '_' :: name
    | [] => ['X', '_']
  String.ofList (collapse false started)

/-- A distinguished name without the class name that ends it, if any. -/
def withoutClass (className dn : String) : String :=
  let name := dn.toList
  let ending := className.toList
  if ending.isSuffixOf name then String.ofList (name.take (name.length - ending.length))
  else dn

end Gauge
end InventoryGauges
