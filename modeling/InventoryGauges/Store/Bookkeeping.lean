import InventoryGauges.Json.Reader
import InventoryGauges.Json.Writer
import InventoryGauges.Metric.Document
import InventoryGauges.Store.Call
import InventoryGauges.Text.Blank
import InventoryGauges.Text.Map
import InventoryGauges.Timestamp

/-!
# Bookkeeping

The keys under which the poller keeps what it knows: the list of definitions,
and for each metric the marker of its last pass and the identities of its
published gauges.
-/

namespace InventoryGauges
namespace Store

/-- The key of the list of definitions. -/
def metricsKey : String := "metrics"

/-- What the keys of markers begin with. -/
def markerStart : String := "processed-"

/-- What the keys of gauge identities begin with. -/
def relatedStart : String := "mos-"

/-- The key of a metric's marker. -/
def markerKey (name : String) : String := markerStart ++ name

/-- The key of a metric's gauge identities. -/
def relatedKey (name : String) : String := relatedStart ++ name

/-- Decode a stored text. -/
def decode {Value : Type} (key : String) (value? : Option Value) : Access Value :=
  match value? with
  | some value => return value
  | none => throw (.corrupt key "malformed value")

/-- The definitions in their order; none if there is no list. -/
def listMetrics : Access (List Metric) := do
  match ← call (.get metricsKey) with
  | some text => decode metricsKey (Metric.ofListText? text)
  | none => return []

/-- Store the list of definitions. -/
def saveMetrics (metrics : List Metric) : Access Unit :=
  call (.set metricsKey (Metric.listText metrics))

/-- The time in a stored marker; "never" if there is none or it is no time. -/
def markerTime (text? : Option String) : Timestamp :=
  (text?.bind fun text => Timestamp.ofDecimal? (Text.trim text.toList)).getD Timestamp.epoch

/-- The names paired with the times of their markers; names without an answer
were never processed. -/
def pairTimes : List String → List (Option String) → List (String × Timestamp)
  | [], _ => []
  | name :: names, [] => (name, Timestamp.epoch) :: pairTimes names []
  | name :: names, text? :: texts => (name, markerTime text?) :: pairTimes names texts

/-- The markers of some names. -/
def lastProcessedTimes (names : List String) : Access (Text.Map Timestamp) := do
  let texts ← call (.getMany (names.map markerKey))
  return Text.Map.ofList (pairTimes names texts)

/-- Store a metric's marker. -/
def markProcessed (name : String) (time : Timestamp) : Access Unit :=
  call (.set (markerKey name) time.decimal)

/-- The stored text of a set of gauge identities. -/
def idsText (ids : Text.Set) : String :=
  Json.compact (.array (ids.toList.map .string))

/-- Decode the stored text of a set of gauge identities. -/
def ofIdsText? (text : String) : Option Text.Set := do
  let value ← Json.ofString? text
  let ids ← Metric.strings? value
  return Text.Set.ofList ids

/-- The identities of a metric's published gauges. -/
def relatedIds (name : String) : Access Text.Set := do
  match ← call (.get (relatedKey name)) with
  | some text => decode (relatedKey name) (ofIdsText? text)
  | none => return Text.Set.empty

/-- Store the identities of a metric's published gauges. -/
def saveRelatedIds (name : String) (ids : Text.Set) : Access Unit :=
  call (.set (relatedKey name) (idsText ids))

/-- Remove what is kept about a metric. -/
def deleteBookkeeping (name : String) : Access Unit :=
  call (.delete [markerKey name, relatedKey name])

/-- The name in the key of a marker. -/
def markerName? (key : String) : Option String :=
  (Text.dropStart? markerStart.toList key.toList).map String.ofList

/-- The names that have a marker. -/
def processedNames : Access Text.Set := do
  let keys ← call (.scan markerStart)
  return Text.Set.ofList (keys.filterMap markerName?)

end Store
end InventoryGauges
