import InventoryGauges.Proofs.Json.ReadBack
import InventoryGauges.Store.Bookkeeping
import InventoryGauges.Store.Memory

/-!
# Stored values and their keys

What is stored as text is read back as it was: lists of definitions and sets of
gauge identities.  Keys of different names, and of different kinds, differ, so
that markers are found by their names.
-/

namespace InventoryGauges
namespace Metric

open Json

/-- Decoding one by one what was encoded one by one. -/
theorem mapM_map_eq_some {Value Code : Type} {encode : Value → Code}
    {decode : Code → Option Value} (decodes : ∀ value, decode (encode value) = some value)
    (values : List Value) : (values.map encode).mapM decode = some values := by
  induction values with
  | nil => rfl
  | cons value values hypothesis =>
      rw [List.map_cons, List.mapM_cons, decodes, hypothesis]
      rfl

@[simp] theorem strings?_array_map_string (texts : List String) :
    strings? (.array (texts.map .string)) = some texts := by
  have decodes (text : String) : Json.asString? (.string text) = some text := rfl
  exact mapM_map_eq_some decodes texts

@[simp] theorem unsigned?_toNat (number : UInt64) :
    unsigned? (.number (.integer number.toNat)) = some number := by
  have bound : (number.toNat : Int) < Int.pow 2 64 := by
    have greatest : Int.pow 2 64 = 18446744073709551616 := rfl
    have := number.toNat_lt
    omega
  simp only [unsigned?, JsonNumber.unsigned?, bound]
  simp

/-- A definition is what its document stands for. -/
@[simp] theorem ofStored?_toJson (metric : Metric) : ofStored? metric.toJson = some metric := by
  simp [ofStored?, toJson, Field.all, Field.label, onlyMember?, ofValues?, Json.asString?]

theorem fits_toJson (metric : Metric) (depth : Nat) : Fits (depth + 2) metric.toJson := by
  have least : Int.pow 2 63 = 9223372036854775808 := rfl
  have greatest : Int.pow 2 64 = 18446744073709551616 := rfl
  have bound := metric.interval.toNat_lt
  simp only [toJson, Fits, List.mem_cons, List.not_mem_nil, or_false]
  rintro entry (rfl | rfl | rfl | rfl | rfl)
  · trivial
  · trivial
  · intro item member
    obtain ⟨text, -, rfl⟩ := List.mem_map.mp member
    cases depth <;> trivial
  · trivial
  · simp only [Fits, JsonNumber.IsWhole]
    omega

/-- A stored list of definitions is read back in its order. -/
@[simp] theorem ofListText?_listText (metrics : List Metric) :
    ofListText? (listText metrics) = some metrics := by
  have fits : Fits depthLimit (.array (metrics.map toJson)) := by
    intro item member
    obtain ⟨metric, -, rfl⟩ := List.mem_map.mp member
    exact metric.fits_toJson 124
  rw [ofListText?, listText, ofString?_compact fits]
  exact mapM_map_eq_some ofStored?_toJson metrics

end Metric

namespace Text.Set

@[simp] theorem ofList_toList (set : Text.Set) : ofList set.toList = set := by
  apply Set.ext
  intro member
  rw [mem_ofList, mem_def]

end Text.Set

namespace Store

/-- A stored set of gauge identities is read back. -/
@[simp] theorem ofIdsText?_idsText (ids : Text.Set) : ofIdsText? (idsText ids) = some ids := by
  have fits : Json.Fits Json.depthLimit (.array (ids.toList.map .string)) := by
    intro item member
    obtain ⟨text, -, rfl⟩ := List.mem_map.mp member
    trivial
  simp [ofIdsText?, idsText, Json.ofString?_compact fits]

theorem markerKey_injective {left right : String} (equal : markerKey left = markerKey right) :
    left = right := by
  simpa [markerKey] using equal

theorem relatedKey_injective {left right : String} (equal : relatedKey left = relatedKey right) :
    left = right := by
  simpa [relatedKey] using equal

@[simp] theorem markerKey_inj {left right : String} :
    markerKey left = markerKey right ↔ left = right :=
  ⟨markerKey_injective, congrArg markerKey⟩

@[simp] theorem relatedKey_inj {left right : String} :
    relatedKey left = relatedKey right ↔ left = right :=
  ⟨relatedKey_injective, congrArg relatedKey⟩

@[simp] theorem markerKey_ne_relatedKey (left right : String) :
    markerKey left ≠ relatedKey right := by
  intro equal
  have chars := congrArg String.toList equal
  simp [markerKey, relatedKey, markerStart, relatedStart] at chars

@[simp] theorem relatedKey_ne_markerKey (left right : String) :
    relatedKey left ≠ markerKey right :=
  (markerKey_ne_relatedKey right left).symm

@[simp] theorem markerKey_ne_metricsKey (name : String) : markerKey name ≠ metricsKey := by
  intro equal
  have chars := congrArg String.toList equal
  simp [markerKey, markerStart, metricsKey] at chars

@[simp] theorem metricsKey_ne_markerKey (name : String) : metricsKey ≠ markerKey name :=
  (markerKey_ne_metricsKey name).symm

@[simp] theorem relatedKey_ne_metricsKey (name : String) : relatedKey name ≠ metricsKey := by
  intro equal
  have chars := congrArg String.toList equal
  simp [relatedKey, relatedStart, metricsKey] at chars

@[simp] theorem metricsKey_ne_relatedKey (name : String) : metricsKey ≠ relatedKey name :=
  (relatedKey_ne_metricsKey name).symm

/-- The name in a marker's key is the name that the key is of. -/
theorem markerName?_eq_some_iff {key name : String} :
    markerName? key = some name ↔ key = markerKey name := by
  rw [markerName?, Option.map_eq_some_iff]
  constructor
  · rintro ⟨rest, dropped, rfl⟩
    rw [Text.dropStart?_eq_some_iff] at dropped
    apply String.toList_injective
    simp [markerKey, dropped]
  · rintro rfl
    refine ⟨name.toList, ?_, String.ofList_toList⟩
    rw [Text.dropStart?_eq_some_iff]
    simp [markerKey]

/-- Markers are found by their keys. -/
theorem mem_names_of_scan {name : String} (contents : Contents) :
    name ∈ (perform (.scan markerStart) contents).1.filterMap markerName? ↔
      (contents.get? (markerKey name)).isSome := by
  have starts : markerStart.toList.isPrefixOf (markerKey name).toList = true := by
    rw [markerKey, String.toList_append, List.isPrefixOf_iff_prefix]
    exact List.prefix_append _ _
  rw [List.mem_filterMap]
  simp only [markerName?_eq_some_iff]
  constructor
  · rintro ⟨key, member, rfl⟩
    exact Text.Map.mem_keys.mp (List.mem_filter.mp member).1
  · intro marked
    exact ⟨_, List.mem_filter.mpr ⟨Text.Map.mem_keys.mpr marked, starts⟩, rfl⟩

/-- Names are looked up under their markers, in any order and however often. -/
theorem get?_ofList_pairTimes_eq (names : List String) (name : String)
    (text? : String → Option String) :
    (Text.Map.ofList (pairTimes names (names.map text?))).get? name =
      if name ∈ names then some (markerTime (text? name)) else none := by
  have paired (names : List String) : pairTimes names (names.map text?) =
      names.map fun name => (name, markerTime (text? name)) := by
    induction names with
    | nil => rfl
    | cons first names hypothesis => rw [List.map_cons, pairTimes, hypothesis, List.map_cons]
  rw [paired, Text.Map.get?_ofList_map]

theorem get?_ofList_pairTimes {names : List String} {name : String} (listed : name ∈ names)
    (text? : String → Option String) :
    (Text.Map.ofList (pairTimes names (names.map text?))).get? name =
      some (markerTime (text? name)) := by
  rw [get?_ofList_pairTimes_eq, if_pos listed]

end Store
end InventoryGauges
