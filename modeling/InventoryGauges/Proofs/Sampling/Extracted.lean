import InventoryGauges.Proofs.Sampling.Footprint
import Mathlib.Data.Finset.Card
import Mathlib.Data.List.Dedup

/-!
# What is extracted

An answer that can be used gives one sample for each attribute of each object,
in their order and with all repetitions.
-/

namespace InventoryGauges

namespace Text
namespace Set

theorem nodup_toList (set : Set) : set.toList.Nodup := by
  refine List.Pairwise.imp (fun {first second} less => ?_) set.increasing
  rintro rfl
  exact String.lt_irrefl first less

/-- A set has as many members as the list that it was made of has different ones. -/
theorem size_ofList (members : List String) : (ofList members).size = members.toFinset.card := by
  have same : (ofList members).toList.toFinset = members.toFinset := by
    ext member
    rw [List.mem_toFinset, List.mem_toFinset, ← mem_def, mem_ofList]
  rw [← same, List.toFinset_card_of_nodup (nodup_toList _)]
  rfl

end Set
end Text

/-- The object and the attribute that a sample is of. -/
def Gauge.Sample.source (sample : Gauge.Sample) : String × String :=
  (sample.dn, sample.attributeName)

namespace Inventory

/-- An object gives a sample for each attribute. -/
theorem exists_of_samples {object : Object} {metric : Metric} {samples : List Gauge.Sample}
    (sampled : object.samples metric = .ok samples) :
    ∃ dn, object.identifier metric.className = .ok dn ∧
      samples.map Gauge.Sample.source = metric.attributes.map (Prod.mk dn) := by
  obtain ⟨dn, identified, each⟩ := exists_of_bind_eq_ok sampled
  refine ⟨dn, identified, ?_⟩
  clear sampled
  generalize metric.attributes = attributes at each ⊢
  induction attributes generalizing samples with
  | nil =>
      obtain rfl := Except.ok.inj each
      rfl
  | cons attributeName attributes hypothesis =>
      obtain ⟨first, rest, own, others, rfl⟩ := mapM_cons_eq_ok_iff.mp each
      obtain ⟨value, -, made⟩ := exists_of_bind_eq_ok own
      obtain rfl := Except.ok.inj made
      rw [List.map_cons, List.map_cons]
      exact congrArg _ (hypothesis others)

/-- What is extracted are samples of all attributes of all objects. -/
theorem exists_of_extract {metric : Metric} {objects : List Object}
    {samples : List Gauge.Sample} (extracts : extract metric objects = .ok samples) :
    ∃ dns, objects.mapM (fun object => object.identifier metric.className) = .ok dns ∧
      samples.map Gauge.Sample.source =
        dns.flatMap fun dn => metric.attributes.map (Prod.mk dn) := by
  obtain ⟨nested, each, flat⟩ := exists_of_bind_eq_ok extracts
  obtain rfl := Except.ok.inj flat
  clear extracts flat
  induction objects generalizing nested with
  | nil =>
      obtain rfl := Except.ok.inj each
      exact ⟨[], rfl, rfl⟩
  | cons object objects hypothesis =>
      obtain ⟨first, rest, own, others, rfl⟩ := mapM_cons_eq_ok_iff.mp each
      obtain ⟨dn, identified, sources⟩ := exists_of_samples own
      obtain ⟨dns, identifiedOthers, sourcesOthers⟩ := hypothesis rest others
      refine ⟨dn :: dns, mapM_cons_eq_ok_iff.mpr ⟨dn, dns, identified, identifiedOthers, rfl⟩, ?_⟩
      rw [List.flatten_cons, List.map_append, sources, sourcesOthers, List.flatMap_cons]

theorem length_of_mapM {Value Result Failure : Type} {f : Value → Except Failure Result}
    {values : List Value} {results : List Result} (succeeds : values.mapM f = .ok results) :
    results.length = values.length := by
  induction values generalizing results with
  | nil =>
      obtain rfl := Except.ok.inj succeeds
      rfl
  | cons value values hypothesis =>
      obtain ⟨first, rest, -, others, rfl⟩ := mapM_cons_eq_ok_iff.mp succeeds
      rw [List.length_cons, List.length_cons, hypothesis others]

/-- There are as many samples as pairs of an object and an attribute. -/
theorem length_of_extract {metric : Metric} {objects : List Object}
    {samples : List Gauge.Sample} (extracts : extract metric objects = .ok samples) :
    samples.length = objects.length * metric.attributes.length := by
  obtain ⟨dns, identified, sources⟩ := exists_of_extract extracts
  have lengths := congrArg List.length sources
  simpa [List.length_flatMap, length_of_mapM identified] using lengths

end Inventory
end InventoryGauges
