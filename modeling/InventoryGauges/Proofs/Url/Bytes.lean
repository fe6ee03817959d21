import InventoryGauges.Text.Blank
import InventoryGauges.Url.Percent

/-!
# Bytes of texts

A character below 0x80 is its own byte, and no byte of another character is
below 0x80.  So the bytes of such characters are found without decoding.
-/

namespace InventoryGauges
namespace Url

open Text

theorem bytesOf_cons (character : Char) (text : List Char) :
    bytesOf (character :: text) = String.utf8EncodeChar character ++ bytesOf text :=
  List.flatMap_cons

theorem bytesOf_append (left right : List Char) :
    bytesOf (left ++ right) = bytesOf left ++ bytesOf right :=
  List.flatMap_append

theorem bytesOf_toList (text : String) : bytesOf text.toList = text.toUTF8.data.toList := by
  have encoded := text.utf8Encode_toList
  rw [List.utf8Encode] at encoded
  rw [bytesOf, String.toUTF8, ← encoded, List.data_toByteArray]

theorem bytesOf_injective {text other : String}
    (same : bytesOf text.toList = bytesOf other.toList) : text = other := by
  rw [bytesOf_toList, bytesOf_toList] at same
  exact String.toByteArray_inj.mp (ByteArray.ext (Array.toList_inj.mp same))

theorem length_bytesOf (text : List Char) : (bytesOf text).length = byteLength text := by
  induction text with
  | nil => rfl
  | cons character text hypothesis =>
      rw [bytesOf_cons, List.length_append, String.length_utf8EncodeChar, hypothesis,
        byteLength_cons]

theorem utf8EncodeChar_of_lt (character : Char) (small : character.toNat < 0x80) :
    String.utf8EncodeChar character = [UInt8.ofNat character.toNat] := by
  rw [Char.toNat] at small ⊢
  rw [String.utf8EncodeChar, if_pos (Nat.le_of_lt_succ small)]

theorem le_of_mem_utf8EncodeChar {character : Char} (great : 0x80 ≤ character.toNat)
    {byte : UInt8} (member : byte ∈ String.utf8EncodeChar character) : 0x80 ≤ byte := by
  rw [Char.toNat] at great
  rw [UInt8.le_iff_toNat_le]
  rw [String.utf8EncodeChar, if_neg (by omega)] at member
  split at member
  · simp only [List.mem_cons, List.not_mem_nil, or_false] at member
    rcases member with rfl | rfl <;> simp only [UInt8.toNat_ofNat', UInt8.reduceToNat] <;> omega
  · split at member
    · simp only [List.mem_cons, List.not_mem_nil, or_false] at member
      rcases member with rfl | rfl | rfl <;>
        simp only [UInt8.toNat_ofNat', UInt8.reduceToNat] <;> omega
    · simp only [List.mem_cons, List.not_mem_nil, or_false] at member
      rcases member with rfl | rfl | rfl | rfl <;>
        simp only [UInt8.toNat_ofNat', UInt8.reduceToNat] <;> omega

theorem toNat_ofNat_of_lt {code : Nat} (small : code < 0x80) : (UInt8.ofNat code).toNat = code :=
  UInt8.toNat_ofNat_of_lt' (Nat.lt_trans small (by decide))

/-- A byte below 0x80 is found in a character only if it is the character. -/
theorem mem_utf8EncodeChar_iff {character : Char} (sign : Char) (small : sign.toNat < 0x80) :
    UInt8.ofNat sign.toNat ∈ String.utf8EncodeChar character ↔ character = sign := by
  constructor
  · intro member
    rcases Nat.lt_or_ge character.toNat 0x80 with ascii | great
    · rw [utf8EncodeChar_of_lt _ ascii, List.mem_singleton] at member
      have equal := congrArg UInt8.toNat member
      rw [toNat_ofNat_of_lt small, toNat_ofNat_of_lt ascii] at equal
      exact (Char.toNat_inj.mp equal).symm
    · have least := UInt8.le_iff_toNat_le.mp (le_of_mem_utf8EncodeChar great member)
      rw [toNat_ofNat_of_lt small] at least
      exact absurd small (Nat.not_lt.mpr least)
  · rintro rfl
    rw [utf8EncodeChar_of_lt _ small]
    exact List.mem_singleton_self _

theorem mem_bytesOf_iff {text : List Char} (sign : Char) (small : sign.toNat < 0x80) :
    UInt8.ofNat sign.toNat ∈ bytesOf text ↔ sign ∈ text := by
  simp only [bytesOf, List.mem_flatMap, mem_utf8EncodeChar_iff sign small, exists_eq_right]

theorem getLast?_utf8EncodeChar_eq_iff {character : Char} (sign : Char)
    (small : sign.toNat < 0x80) :
    (String.utf8EncodeChar character).getLast? = some (UInt8.ofNat sign.toNat) ↔
      character = sign := by
  constructor
  · exact fun last => (mem_utf8EncodeChar_iff sign small).mp (List.mem_of_getLast? last)
  · rintro rfl
    rw [utf8EncodeChar_of_lt _ small]
    rfl

/-- Characters below 0x80 are taken off the front of a text as bytes. -/
theorem takeWhile_bytesOf {holds : Char → Bool} {holdsByte : UInt8 → Bool}
    (below : ∀ character, holds character → character.toNat < 0x80)
    (belowByte : ∀ byte, holdsByte byte → byte < 0x80)
    (same : ∀ character, character.toNat < 0x80 →
      holdsByte (UInt8.ofNat character.toNat) = holds character) (text : List Char) :
    (bytesOf text).takeWhile holdsByte = bytesOf (text.takeWhile holds) := by
  induction text with
  | nil => rfl
  | cons character text hypothesis =>
      rw [bytesOf_cons, List.takeWhile_cons]
      rcases Nat.lt_or_ge character.toNat 0x80 with ascii | great
      · rw [utf8EncodeChar_of_lt _ ascii, List.singleton_append, List.takeWhile_cons,
          same character ascii]
        split
        · rw [hypothesis, bytesOf_cons, utf8EncodeChar_of_lt _ ascii, List.singleton_append]
        · rfl
      · rw [if_neg fun held => absurd (below character held) (Nat.not_lt.mpr great)]
        obtain ⟨first, others, shape⟩ := List.exists_cons_of_length_pos
          (String.length_utf8EncodeChar character ▸ character.utf8Size_pos)
        have least : 0x80 ≤ first :=
          le_of_mem_utf8EncodeChar great (shape ▸ List.mem_cons_self)
        rw [shape, List.cons_append, List.takeWhile_cons,
          if_neg fun held => absurd (belowByte first held) (UInt8.not_lt.mpr least)]
        rfl

end Url
end InventoryGauges
