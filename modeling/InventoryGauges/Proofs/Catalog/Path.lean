import InventoryGauges.Proofs.Catalog.Acknowledged
import InventoryGauges.Proofs.Metric.Name
import InventoryGauges.Proofs.Url.Encoding

/-!
# Paths of definitions

Valid names consist of characters that stand for themselves in a path, so that a
definition is found under its name as it is written.
-/

namespace InventoryGauges
namespace Url

theorem decodedText?_of_plain {text : String} (plain : 0x25 ∉ bytesOf text.toList) :
    decodedText? text = some text := by
  rw [decodedText?, percentDecode_of_plain plain, bytesOf_toList]
  exact Api.Example.fromUTF8?_toUTF8 text

end Url

namespace Metric

theorem plain_of_nameIsValid {name : String} (valid : nameIsValid name) :
    0x25 ∉ Url.bytesOf name.toList :=
  not_mem_bytesOf_of_nameIsValid valid '%' (by decide) rfl

end Metric

namespace Api

theorem barePath_of_nameIsValid {name : String} (valid : Metric.nameIsValid name) :
    Resource.barePath ("/metrics/" ++ name) = "/metrics/".toList ++ name.toList := by
  have fixed : ∀ character ∈ "/metrics/".toList,
      (character != '?' && character != '#') = true := List.all_eq_true.mp rfl
  have own : ∀ character ∈ name.toList, (character != '?' && character != '#') = true := by
    intro character member
    have named := (Metric.ne_nil_and_forall_of_nameIsValid valid).2 character member
    rw [Bool.and_eq_true, bne_iff_ne, bne_iff_ne]
    exact ⟨Metric.ne_of_isNameCharacter named rfl, Metric.ne_of_isNameCharacter named rfl⟩
  have kept := fun character member =>
    (List.mem_append.mp member).elim (fixed character) (own character)
  have all : (("/metrics/".toList ++ name.toList) ++ []).takeWhile
      (fun character => character != '?' && character != '#') = _ :=
    List.takeWhile_append_of_pos kept
  rw [List.append_nil, List.takeWhile_nil, List.append_nil] at all
  rw [Resource.barePath, String.toList_append, all]

/-- The path of a valid name leads to its definition. -/
theorem ofPath?_of_nameIsValid {name : String} (valid : Metric.nameIsValid name) :
    Resource.ofPath? ("/metrics/" ++ name) = some (.metric name) := by
  obtain ⟨filled, named⟩ := Metric.ne_nil_and_forall_of_nameIsValid valid
  have whole : Text.dropStart? "/metrics/".toList ("/metrics/".toList ++ name.toList) =
      some name.toList := (Text.dropStart?_eq_some_iff _ _ _).mpr rfl
  have undivided : '/' ∉ name.toList :=
    fun member => Metric.ne_of_isNameCharacter (named _ member) rfl rfl
  rw [Resource.ofPath?, barePath_of_nameIsValid valid, whole]
  simp [filled, undivided]

end Api
end InventoryGauges
