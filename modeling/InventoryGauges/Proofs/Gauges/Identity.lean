import InventoryGauges.Gauge
import InventoryGauges.Proofs.Metric.Name
import Mathlib.Data.Nat.Digits.Defs

/-!
# Identities of gauges

The bytes that identify a gauge are its three names with a mark between them.  The
mark may stand in the name of the object, but not in that of the metric, which ends
at the first mark, nor in that of the attribute, which begins after the last one.
So different gauges have different bytes, and an identity shows the whole digest of
these bytes.
-/

namespace InventoryGauges

/-! ## Digests in hexadecimal digits -/

namespace Digest
namespace Xxh3

/-- The digits in which digests are written. -/
def hexDigits : List Char :=
  "0123456789abcdef".toList

/-- The number that a text of hexadecimal digits stands for; its last digit counts
least. -/
def hexNumber (digits : List Char) : Nat :=
  Nat.ofDigits 16 (digits.reverse.map fun digit => hexDigits.idxOf digit)

/-- The number of 128 bits that a digest is. -/
def Digest128.number (digest : Digest128) : Nat :=
  digest.high.toNat * 2 ^ 64 + digest.low.toNat

theorem hexDigit_mem {value : Nat} (bound : value < 16) : hexDigit value ∈ hexDigits := by
  revert bound
  revert value
  decide

theorem idxOf_hexDigit {value : Nat} (bound : value < 16) :
    hexDigits.idxOf (hexDigit value) = value := by
  revert bound
  revert value
  decide

/-- The digits of a number, from the least one on, stand for what of it they reach. -/
theorem ofDigits_range (number count : Nat) :
    Nat.ofDigits 16 ((List.range count).map fun place => number / 16 ^ place % 16) =
      number % 16 ^ count := by
  induction count with
  | zero => simp [Nat.mod_one]
  | succ count hypothesis =>
      rw [List.range_succ, List.map_append, Nat.ofDigits_append, hypothesis, List.length_map,
        List.length_range, List.map_singleton, Nat.ofDigits_singleton, Nat.mod_pow_succ]

theorem ofDigits_wordHex (value : UInt64) :
    Nat.ofDigits 16 ((wordHex value).reverse.map fun digit => hexDigits.idxOf digit) =
      value.toNat := by
  have read (place : Nat) :
      hexDigits.idxOf (hexDigit (value.toNat / Nat.pow 16 place % 16)) =
        value.toNat / 16 ^ place % 16 :=
    idxOf_hexDigit (Nat.mod_lt _ (by decide))
  have bound : value.toNat < 16 ^ 16 := value.toNat_lt
  simp only [wordHex, List.map_reverse, List.reverse_reverse, List.map_map, Function.comp_def, read]
  rw [ofDigits_range, Nat.mod_eq_of_lt bound]

theorem length_wordHex (value : UInt64) : (wordHex value).length = 16 := by
  simp [wordHex]

theorem mem_hexDigits_of_mem_wordHex {value : UInt64} {digit : Char}
    (member : digit ∈ wordHex value) : digit ∈ hexDigits := by
  obtain ⟨place, -, rfl⟩ := List.mem_map.mp member
  exact hexDigit_mem (Nat.mod_lt _ (by decide))

namespace Digest128

variable {left right : Digest128}

/-- A digest is read back from its digits. -/
theorem hexNumber_hex (digest : Digest128) : hexNumber digest.hex.toList = digest.number := by
  rw [hexNumber, hex, String.toList_ofList, List.reverse_append, List.map_append,
    Nat.ofDigits_append, ofDigits_wordHex, ofDigits_wordHex, List.length_map, List.length_reverse,
    length_wordHex, number]
  omega

theorem number_injective (same : left.number = right.number) : left = right := by
  obtain ⟨leftHigh, leftLow⟩ := left
  obtain ⟨rightHigh, rightLow⟩ := right
  have leftBound := leftLow.toNat_lt
  have rightBound := rightLow.toNat_lt
  simp only [number] at same
  have high : leftHigh.toNat = rightHigh.toNat := by omega
  have low : leftLow.toNat = rightLow.toNat := by omega
  rw [UInt64.toNat_inj.mp high, UInt64.toNat_inj.mp low]

theorem hex_inj : left.hex = right.hex ↔ left = right := by
  constructor
  · intro same
    apply number_injective
    rw [← hexNumber_hex, ← hexNumber_hex, same]
  · rintro rfl
    rfl

theorem length_hex (digest : Digest128) : digest.hex.length = 32 := by
  rw [← String.length_toList, hex, String.toList_ofList, List.length_append, length_wordHex,
    length_wordHex]

theorem mem_hexDigits_of_mem_hex {digest : Digest128} {digit : Char}
    (member : digit ∈ digest.hex.toList) : digit ∈ hexDigits := by
  rw [hex, String.toList_ofList, List.mem_append] at member
  exact member.elim mem_hexDigits_of_mem_wordHex mem_hexDigits_of_mem_wordHex

end Digest128
end Xxh3
end Digest

/-! ## Texts with marks between them -/

section Marks

variable {Value : Type} {mark : Value} {first rest other others : List Value}

/-- What comes before the first mark is found. -/
theorem eq_of_append_first (unmarked : mark ∉ first) (otherUnmarked : mark ∉ other)
    (same : first ++ mark :: rest = other ++ mark :: others) : first = other ∧ rest = others := by
  induction first generalizing other with
  | nil =>
      cases other with
      | nil => exact ⟨rfl, (List.cons.inj same).2⟩
      | cons head tail => exact absurd ((List.cons.inj same).1 ▸ List.mem_cons_self) otherUnmarked
  | cons value values hypothesis =>
      cases other with
      | nil => exact absurd ((List.cons.inj same).1 ▸ List.mem_cons_self) unmarked
      | cons head tail =>
          obtain ⟨rfl, further⟩ := List.cons.inj same
          obtain ⟨rfl, ends⟩ := hypothesis (fun member => unmarked (List.mem_cons_of_mem _ member))
            (fun member => otherUnmarked (List.mem_cons_of_mem _ member)) further
          exact ⟨rfl, ends⟩

/-- What comes after the last mark is found, as what comes before the first one is in
the reversed texts. -/
theorem eq_of_append_last (unmarked : mark ∉ rest) (otherUnmarked : mark ∉ others)
    (same : first ++ mark :: rest = other ++ mark :: others) : first = other ∧ rest = others := by
  have reversed : rest.reverse ++ mark :: first.reverse =
      others.reverse ++ mark :: other.reverse := by
    simpa using congrArg List.reverse same
  obtain ⟨after, before⟩ := eq_of_append_first (mt List.mem_reverse.mp unmarked)
    (mt List.mem_reverse.mp otherUnmarked) reversed
  exact ⟨List.reverse_inj.mp before, List.reverse_inj.mp after⟩

end Marks

/-! ## Identities -/

namespace Gauge

/-- The names that identify a gauge. -/
structure Parts where
  /-- Name of the metric. -/
  metric : String
  /-- Distinguished name of the object. -/
  dn : String
  /-- The attribute. -/
  attributeName : String
  deriving DecidableEq

namespace Parts

/-- The bytes that are digested. -/
def bytes (parts : Parts) : ByteArray :=
  identityBytes parts.metric parts.dn parts.attributeName

/-- The identity of the gauge. -/
def id (parts : Parts) : String :=
  identity parts.metric parts.dn parts.attributeName

/-- The metric has a valid name, and no byte of the attribute is the one between the
parts.  The name of the object may be any text. -/
structure IsProper (parts : Parts) : Prop where
  named : Metric.nameIsValid parts.metric
  unmarked : separator ∉ parts.attributeName.toUTF8.data

variable {parts other : Parts}

theorem toList_bytes (parts : Parts) :
    parts.bytes.data.toList =
      Url.bytesOf parts.metric.toList ++ separator ::
        (Url.bytesOf parts.dn.toList ++ separator :: Url.bytesOf parts.attributeName.toList) := by
  simp [bytes, identityBytes, Url.bytesOf_toList]

theorem IsProper.separator_not_mem_metric (proper : parts.IsProper) :
    separator ∉ Url.bytesOf parts.metric.toList :=
  Metric.not_mem_bytesOf_of_nameIsValid proper.named '\x1f' (by decide) rfl

theorem IsProper.separator_not_mem_attributeName (proper : parts.IsProper) :
    separator ∉ Url.bytesOf parts.attributeName.toList := by
  rw [Url.bytesOf_toList, Array.mem_toList_iff]
  exact proper.unmarked

/-- The first mark ends the metric and the last one begins the attribute, whatever
marks are between them. -/
theorem IsProper.eq_of_bytes_eq (proper : parts.IsProper) (otherProper : other.IsProper)
    (same : parts.bytes = other.bytes) : parts = other := by
  have lists := congrArg (fun bytes => bytes.data.toList) same
  simp only [toList_bytes] at lists
  obtain ⟨metrics, further⟩ := eq_of_append_first proper.separator_not_mem_metric
    otherProper.separator_not_mem_metric lists
  obtain ⟨dns, attributeNames⟩ := eq_of_append_last proper.separator_not_mem_attributeName
    otherProper.separator_not_mem_attributeName further
  cases parts
  cases other
  rw [Parts.mk.injEq]
  exact ⟨Url.bytesOf_injective metrics, Url.bytesOf_injective dns,
    Url.bytesOf_injective attributeNames⟩

end Parts

/-- Different bytes have the same digest. -/
def Collide (left right : ByteArray) : Prop :=
  left ≠ right ∧ Digest.Xxh3.digest left = Digest.Xxh3.digest right

open Digest.Xxh3 in
/-- An identity has 32 hexadecimal digits, which show the whole digest.  The digested
bytes of proper parts are different for different parts, so that their identities are
the same only where the digests of different bytes are. -/
theorem identity_separates_parts (parts other : Parts) :
    (parts.id.length = 32 ∧ (∀ digit ∈ parts.id.toList, digit ∈ hexDigits) ∧
      hexNumber parts.id.toList = (digest parts.bytes).number ∧
      (parts.id = other.id ↔ digest parts.bytes = digest other.bytes)) ∧
    (parts.IsProper → other.IsProper →
      (parts.bytes = other.bytes → parts = other) ∧
      (parts.id = other.id ↔ parts = other ∨ Collide parts.bytes other.bytes)) := by
  have shows : parts.id = other.id ↔ digest parts.bytes = digest other.bytes :=
    Digest128.hex_inj
  refine ⟨⟨Digest128.length_hex _, fun _ => Digest128.mem_hexDigits_of_mem_hex,
    Digest128.hexNumber_hex _, shows⟩, ?_⟩
  intro proper otherProper
  have separates : parts.bytes = other.bytes → parts = other :=
    proper.eq_of_bytes_eq otherProper
  refine ⟨separates, ?_⟩
  rw [shows]
  constructor
  · intro same
    by_cases equal : parts.bytes = other.bytes
    · exact Or.inl (separates equal)
    · exact Or.inr ⟨equal, same⟩
  · rintro (rfl | collide)
    · rfl
    · exact collide.2

/-- Marks at the ends of the object's name are told apart from those between the
parts. -/
theorem identity_separates_marked :
    Parts.IsProper ⟨"a", "\x1fb\x1f", "c"⟩ ∧ Parts.IsProper ⟨"a", "\x1fb", "c"⟩ ∧
      Parts.bytes ⟨"a", "\x1fb\x1f", "c"⟩ ≠ Parts.bytes ⟨"a", "\x1fb", "c"⟩ := by
  have first : Parts.IsProper ⟨"a", "\x1fb\x1f", "c"⟩ := ⟨by decide, by decide +kernel⟩
  have second : Parts.IsProper ⟨"a", "\x1fb", "c"⟩ := ⟨by decide, by decide +kernel⟩
  refine ⟨first, second, fun same => ?_⟩
  have equal := ((identity_separates_parts _ _).2 first second).1 same
  exact absurd (congrArg Parts.dn equal) (by decide)

/-- A mark in the attribute would not be told apart. -/
example : Parts.bytes ⟨"a", "b\x1fc", "d"⟩ = Parts.bytes ⟨"a", "b", "c\x1fd"⟩ := by
  decide +kernel

end Gauge
end InventoryGauges
