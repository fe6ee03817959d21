import InventoryGauges.Proofs.Url.Bytes
import InventoryGauges.Url

/-!
# Texts in percent triples

What is written in percent triples is read back byte for byte, as long as the percent
sign is not kept itself.  A text that consists of kept characters is left as it is.
-/

namespace InventoryGauges
namespace Url

variable {keep : Char → Bool}

/-- The digits of percent triples. -/
def upperHexDigits : List Char :=
  "0123456789ABCDEF".toList

/-- A text consists of characters that stand for themselves and of percent triples. -/
inductive IsEncoded (stands : Char → Prop) : List Char → Prop
  | nil : IsEncoded stands []
  | kept {character : Char} {text : List Char} (own : stands character)
      (rest : IsEncoded stands text) : IsEncoded stands (character :: text)
  | triple {high low : Char} {text : List Char} (high_mem : high ∈ upperHexDigits)
      (low_mem : low ∈ upperHexDigits) (rest : IsEncoded stands text) :
      IsEncoded stands ('%' :: high :: low :: text)

theorem upperHexDigit_mem {value : Nat} (bound : value < 16) :
    upperHexDigit value ∈ upperHexDigits := by
  revert bound
  revert value
  decide

/-- A byte is written as the character that it is, if that is kept, or as a percent
triple. -/
theorem encodeByte_eq (keep : Char → Bool) (byte : UInt8) :
    (∃ character : Char, character.toNat < 0x80 ∧ byte = UInt8.ofNat character.toNat ∧
      keep character ∧ encodeByte keep byte = [character]) ∨
    encodeByte keep byte = triple byte := by
  rw [encodeByte]
  split
  · rename_i kept
    rw [Bool.and_eq_true, decide_eq_true_eq] at kept
    have small : byte.toNat < 0x80 := UInt8.lt_iff_toNat_lt.mp kept.1
    have each : ∀ code < 0x80, (Char.ofNat code).toNat = code := by decide
    refine Or.inl ⟨Char.ofNat byte.toNat, ?_, ?_, kept.2, rfl⟩
    · rw [each _ small]
      exact small
    · rw [each _ small, UInt8.ofNat_toNat]
  · exact Or.inr rfl

theorem isEncoded_percentEncode {stands : Char → Prop}
    (kept : ∀ character, keep character → stands character) (bytes : List UInt8) :
    IsEncoded stands (percentEncode keep bytes) := by
  induction bytes with
  | nil => exact .nil
  | cons byte bytes hypothesis =>
      have bound := byte.toNat_lt
      rw [percentEncode, List.flatMap_cons]
      rcases encodeByte_eq keep byte with ⟨character, -, -, keeps, written⟩ | written
      · rw [written]
        exact .kept (kept _ keeps) hypothesis
      · rw [written]
        exact .triple (upperHexDigit_mem (by omega)) (upperHexDigit_mem (by omega)) hypothesis

/-- What holds of the characters below 0x80 that are kept, and of those of percent
triples, holds of all that is written. -/
theorem forall_mem_percentEncode {holds : Char → Prop}
    (kept : ∀ code < 0x80, keep (Char.ofNat code) → holds (Char.ofNat code))
    (percent : holds '%') (digits : ∀ value < 16, holds (upperHexDigit value))
    (bytes : List UInt8) :
    ∀ character ∈ percentEncode keep bytes, holds character := by
  intro character member
  obtain ⟨byte, -, written⟩ := List.mem_flatMap.mp member
  have bound := byte.toNat_lt
  rcases encodeByte_eq keep byte with ⟨own, small, -, keeps, writes⟩ | writes
  · rw [writes, List.mem_singleton] at written
    rw [written, ← Char.ofNat_toNat own]
    exact kept own.toNat small (by rwa [Char.ofNat_toNat])
  · simp only [writes, triple, List.mem_cons, List.not_mem_nil, or_false] at written
    rcases written with rfl | rfl | rfl
    · exact percent
    · exact digits _ (by omega)
    · exact digits _ (by omega)

/-! ## Reading back -/

theorem hexByteValue?_upperHexDigit {value : Nat} (bound : value < 16) :
    hexByteValue? (UInt8.ofNat (upperHexDigit value).toNat) = some (UInt8.ofNat value) := by
  revert bound
  revert value
  decide

theorem percentDecode_cons_of_ne {byte : UInt8} (plain : byte ≠ 0x25) (bytes : List UInt8) :
    percentDecode (byte :: bytes) = byte :: percentDecode bytes := by
  rw [percentDecode]
  intro _ _ _ percent _
  exact plain percent

/-- Bytes without percent signs stand for themselves. -/
theorem percentDecode_of_plain {bytes : List UInt8} (plain : 0x25 ∉ bytes) :
    percentDecode bytes = bytes := by
  induction bytes with
  | nil => rfl
  | cons byte bytes hypothesis =>
      obtain ⟨own, others⟩ := not_or.mp (mt List.mem_cons.mpr plain)
      rw [percentDecode_cons_of_ne (Ne.symm own), hypothesis others]

theorem bytesOf_triple (byte : UInt8) :
    bytesOf (triple byte) =
      [0x25, UInt8.ofNat (upperHexDigit (byte.toNat / 16)).toNat,
        UInt8.ofNat (upperHexDigit (byte.toNat % 16)).toNat] := by
  have bound := byte.toNat_lt
  have small (value : Nat) (less : value < 16) : (upperHexDigit value).toNat < 0x80 := by
    revert less
    revert value
    decide
  rw [triple, bytesOf_cons, bytesOf_cons, bytesOf_cons, utf8EncodeChar_of_lt '%' (by decide),
    utf8EncodeChar_of_lt _ (small _ (by omega)), utf8EncodeChar_of_lt _ (small _ (by omega))]
  rfl

theorem percentDecode_triple_append (byte : UInt8) (bytes : List UInt8) :
    percentDecode (bytesOf (triple byte) ++ bytes) = byte :: percentDecode bytes := by
  have bound := byte.toNat_lt
  have joined : UInt8.ofNat (byte.toNat / 16) * 16 + UInt8.ofNat (byte.toNat % 16) = byte := by
    apply UInt8.toNat_inj.mp
    simp only [UInt8.toNat_add, UInt8.toNat_mul, UInt8.toNat_ofNat', UInt8.reduceToNat]
    omega
  rw [bytesOf_triple, List.cons_append, List.cons_append, List.cons_append, List.nil_append,
    percentDecode, hexByteValue?_upperHexDigit (by omega), hexByteValue?_upperHexDigit (by omega)]
  dsimp only
  rw [joined]

/-- What is written is read back byte for byte. -/
theorem percentDecode_percentEncode (unkept : keep '%' = false) (bytes : List UInt8) :
    percentDecode (bytesOf (percentEncode keep bytes)) = bytes := by
  induction bytes with
  | nil => rfl
  | cons byte bytes hypothesis =>
      rw [percentEncode, List.flatMap_cons, bytesOf_append]
      rcases encodeByte_eq keep byte with ⟨character, small, rfl, keeps, written⟩ | written
      · have plain : UInt8.ofNat character.toNat ≠ 0x25 := by
          intro percent
          have codes := congrArg UInt8.toNat percent
          rw [toNat_ofNat_of_lt small] at codes
          have same : character = '%' := Char.toNat_inj.mp codes
          rw [same, unkept] at keeps
          cases keeps
        rw [written, bytesOf_cons, utf8EncodeChar_of_lt _ small]
        exact (percentDecode_cons_of_ne plain _).trans (congrArg _ hypothesis)
      · rw [written, percentDecode_triple_append]
        exact congrArg _ hypothesis

/-! ## Texts that need no triples -/

theorem encodeByte_of_kept {character : Char} (small : character.toNat < 0x80)
    (kept : keep character) :
    encodeByte keep (UInt8.ofNat character.toNat) = [character] := by
  rw [encodeByte, toNat_ofNat_of_lt small, Char.ofNat_toNat, if_pos]
  rw [Bool.and_eq_true, decide_eq_true_eq, UInt8.lt_iff_toNat_lt, toNat_ofNat_of_lt small]
  exact ⟨small, kept⟩

/-- A text of characters that are kept is left as it is. -/
theorem encoded_eq_self {text : List Char}
    (kept : ∀ character ∈ text, character.toNat < 0x80 ∧ keep character) :
    encoded keep text = text := by
  induction text with
  | nil => rfl
  | cons character text hypothesis =>
      obtain ⟨⟨small, own⟩, others⟩ := List.forall_mem_cons.mp kept
      rw [encoded, percentEncode, bytesOf_cons, utf8EncodeChar_of_lt _ small, List.flatMap_append,
        List.flatMap_singleton, encodeByte_of_kept small own]
      exact congrArg _ (hypothesis others)

end Url
end InventoryGauges
