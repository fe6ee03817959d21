import InventoryGauges.Metric
import InventoryGauges.Proofs.Url.Bytes

/-!
# Names of metrics

A valid name consists of letters, digits and underscores.  So no other character,
and no byte of one, is found in it.
-/

namespace InventoryGauges
namespace Metric

/-- A character that may stand in a name. -/
def isNameCharacter (character : Char) : Bool :=
  character.isAlphanum || character == '_'

theorem ne_nil_and_forall_of_nameIsValid {name : String} (valid : nameIsValid name) :
    name.toList ≠ [] ∧ ∀ character ∈ name.toList, isNameCharacter character := by
  unfold nameIsValid at valid
  split at valid
  · cases valid
  · rename_i first rest chars
    rw [Bool.and_eq_true, List.all_eq_true] at valid
    rw [chars]
    refine ⟨List.cons_ne_nil _ _, ?_⟩
    intro character member
    rcases List.mem_cons.mp member with rfl | member
    · simp [isNameCharacter, valid.1]
    · exact valid.2 character member

theorem ne_of_isNameCharacter {character mark : Char} (named : isNameCharacter character)
    (foreign : isNameCharacter mark = false) : character ≠ mark := by
  rintro rfl
  cases named.symm.trans foreign

/-- The byte of a foreign character is not found in a valid name. -/
theorem not_mem_bytesOf_of_nameIsValid {name : String} (valid : nameIsValid name) (mark : Char)
    (small : mark.toNat < 0x80) (foreign : isNameCharacter mark = false) :
    UInt8.ofNat mark.toNat ∉ Url.bytesOf name.toList := by
  rw [Url.mem_bytesOf_iff mark small]
  intro member
  have named := (ne_nil_and_forall_of_nameIsValid valid).2 mark member
  exact ne_of_isNameCharacter named foreign rfl

end Metric
end InventoryGauges
