import InventoryGauges.Proofs.Url.Bytes
import InventoryGauges.Store.Remote

/-!
# The pattern of the keys with a start

Main statement: the pattern made of an escaped text and an asterisk selects
exactly the keys that begin with the text, whatever characters the text has, and
whether keys are compared by their characters or by their bytes.
-/

namespace InventoryGauges
namespace Store
namespace Glob

theorem isMeta_iff {character : Char} :
    isMeta character = true ↔
      character = '*' ∨ character = '?' ∨ character = '[' ∨ character = ']' ∨
        character = '\\' := by
  simp [isMeta]

theorem escape_append (left right : List Char) :
    escape (left ++ right) = escape left ++ escape right :=
  List.flatMap_append

theorem escape_singleton (character : Char) :
    escape [character] = if isMeta character then ['\\', character] else [character] :=
  List.flatMap_singleton _ _

/-- A text without characters that mean something is its own pattern. -/
theorem escape_eq_self {text : List Char}
    (plain : ∀ character ∈ text, isMeta character = false) : escape text = text := by
  induction text with
  | nil => rfl
  | cons character text hypothesis =>
      rw [List.forall_mem_cons] at plain
      rw [← List.singleton_append, escape_append, escape_singleton, hypothesis plain.2, plain.1]
      rfl

/-- An escaped character stands for itself. -/
theorem pieces_escape_singleton_append (character : Char) (rest : List Char) :
    pieces (escape [character] ++ rest) = .exact character :: pieces rest := by
  rw [escape_singleton]
  cases special : isMeta character with
  | true => rw [if_pos rfl, List.cons_append, List.singleton_append, pieces]
  | false =>
      have ordinary := mt isMeta_iff.mpr (ne_true_of_eq_false special)
      simp only [not_or] at ordinary
      rw [if_neg Bool.false_ne_true, List.singleton_append, pieces]
      all_goals simp_all

/-- An escaped text stands for its own characters. -/
theorem pieces_escape_append (text rest : List Char) :
    pieces (escape text ++ rest) = text.map .exact ++ pieces rest := by
  induction text with
  | nil => rfl
  | cons character text hypothesis =>
      rw [← List.singleton_append, escape_append, List.append_assoc,
        pieces_escape_singleton_append, hypothesis]
      rfl

/-- What fits exact characters begins with them. -/
theorem fits_map_exact_append {start : List Char} {rest : List Piece} {text : List Char} :
    fits (start.map .exact ++ rest) text = true ↔
      ∃ ending, text = start ++ ending ∧ fits rest ending = true := by
  induction start generalizing text with
  | nil => simp
  | cons character start hypothesis =>
      cases text with
      | nil => simp [fits]
      | cons first text =>
          simp only [List.map_cons, List.cons_append, fits, Piece.accepts, Bool.and_eq_true,
            beq_iff_eq, hypothesis, List.cons.injEq]
          grind

/-- An asterisk at the end fits everything. -/
theorem fits_text (text : List Char) : fits [.text] text = true := by
  rw [fits]
  induction text with
  | nil => rfl
  | cons character text hypothesis =>
      rw [fitsSomeEnd, hypothesis, Bool.or_true]

/-- The pattern of a start selects the texts that begin with it. -/
theorem selects_startingWith {start text : List Char} :
    selects (startingWith start) text = true ↔ start <+: text := by
  have asterisk : pieces ['*'] = [.text] := by rw [pieces, pieces]
  rw [selects, startingWith, pieces_escape_append, asterisk, fits_map_exact_append]
  constructor
  · rintro ⟨ending, rfl, -⟩
    exact List.prefix_append start ending
  · rintro ⟨ending, rfl⟩
    exact ⟨ending, rfl, fits_text ending⟩

example : startingWith "a*b?[c]\\".toList = "a\\*b\\?\\[c\\]\\\\*".toList := by
  decide

/-- What a server takes for the single characters of a text. -/
inductive Units
  | characters
  | bytes
  deriving DecidableEq, Repr

/-- A byte as the character of its code. -/
def ofByte (byte : UInt8) : Char :=
  Char.ofUInt8 byte

/-- The units of a text. -/
def Units.split : Units → String → List Char
  | characters, text => text.toList
  | bytes, text => (Url.bytesOf text.toList).map ofByte

/-- Whether a key fits a pattern, compared unit by unit. -/
def Units.selects (units : Units) (pattern key : String) : Bool :=
  Glob.selects (units.split pattern) (units.split key)

theorem ofNat_toNat_ofByte (byte : UInt8) : UInt8.ofNat (ofByte byte).toNat = byte := by
  have code : (ofByte byte).toNat = byte.toNat := UInt8.toNat_toUInt32 byte
  rw [code, UInt8.ofNat_toNat]

theorem ofByte_injective : Function.Injective ofByte := by
  intro byte other same
  rw [← ofNat_toNat_ofByte byte, same, ofNat_toNat_ofByte]

/-- Only a character that means something has a byte that does. -/
theorem isMeta_of_mem_utf8EncodeChar {character : Char} {byte : UInt8}
    (member : byte ∈ String.utf8EncodeChar character) (special : isMeta (ofByte byte) = true) :
    isMeta character = true := by
  have small : (ofByte byte).toNat < 0x80 := by
    rcases isMeta_iff.mp special with sign | sign | sign | sign | sign <;> rw [sign] <;> decide
  rw [← ofNat_toNat_ofByte byte, Url.mem_utf8EncodeChar_iff _ small] at member
  rw [member, special]

theorem map_ofByte_escape_singleton (character : Char) :
    (Url.bytesOf (escape [character])).map ofByte =
      escape ((Url.bytesOf [character]).map ofByte) := by
  cases special : isMeta character with
  | true =>
      rcases isMeta_iff.mp special with rfl | rfl | rfl | rfl | rfl <;> decide
  | false =>
      rw [escape_singleton, special, if_neg Bool.false_ne_true]
      refine (escape_eq_self ?_).symm
      intro unit member
      rw [Url.bytesOf, List.flatMap_singleton] at member
      obtain ⟨byte, inside, rfl⟩ := List.mem_map.mp member
      cases found : isMeta (ofByte byte) with
      | false => rfl
      | true => rw [← special, isMeta_of_mem_utf8EncodeChar inside found]

/-- The bytes of an escaped text are the escaped bytes of the text. -/
theorem map_ofByte_escape (text : List Char) :
    (Url.bytesOf (escape text)).map ofByte = escape ((Url.bytesOf text).map ofByte) := by
  induction text with
  | nil => rfl
  | cons character text hypothesis =>
      rw [← List.singleton_append, escape_append, Url.bytesOf_append, List.map_append,
        map_ofByte_escape_singleton, hypothesis, ← escape_append, ← List.map_append,
        ← Url.bytesOf_append]

theorem Units.split_scanPattern (units : Units) (start : String) :
    units.split (Remote.scanPattern start) = startingWith (units.split start) := by
  cases units with
  | characters => exact String.toList_ofList
  | bytes =>
      rw [split, Remote.scanPattern, String.toList_ofList, startingWith, Url.bytesOf_append,
        List.map_append, map_ofByte_escape]
      rfl

theorem Units.split_prefix_iff (units : Units) {start key : String} :
    units.split start <+: units.split key ↔ start.toList <+: key.toList := by
  cases units with
  | characters => exact Iff.rfl
  | bytes =>
      rw [split, split, List.prefix_map_iff_of_injective ofByte_injective]
      constructor
      · rintro ⟨rest, whole⟩
        apply List.isPrefix_of_utf8Encode_append_eq_utf8Encode rest.toByteArray
        rw [List.utf8Encode, List.utf8Encode, ← List.toByteArray_append]
        exact congrArg List.toByteArray whole
      · rintro ⟨rest, whole⟩
        exact ⟨Url.bytesOf rest, by rw [← whole, Url.bytesOf_append]⟩

/-- The pattern of a scan selects the keys with its start. -/
theorem Units.selects_scanPattern (units : Units) {start key : String} :
    units.selects (Remote.scanPattern start) key = true ↔ start.toList <+: key.toList := by
  rw [selects, split_scanPattern, selects_startingWith, split_prefix_iff]

end Glob
end Store
end InventoryGauges
