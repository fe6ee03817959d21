import InventoryGauges.Json.Number

/-!
# Whole numbers in JSON texts

Main statement: a whole number within 64 bits is what its digits are read as,
whatever ends the number.
-/

namespace InventoryGauges
namespace Decimal

theorem isDigit_eq (character : Char) : isDigit character = character.isDigit := by
  simp [isDigit, Char.isDigit, Char.le_def]

theorem isDigit_of_mem_digitsOf {number : Nat} {character : Char}
    (member : character ∈ digitsOf number) : isDigit character = true := by
  rw [isDigit_eq]
  exact Nat.isDigit_of_mem_toDigits (by decide) (by decide) member

theorem value_digitsOf (number : Nat) : value (digitsOf number) = number := by
  exact Nat.ofDigitChars_ten_toDigits

theorem digitsOf_ne_nil (number : Nat) : digitsOf number ≠ [] :=
  Nat.toDigits_ne_nil

theorem natural?_digitsOf (number : Nat) : natural? (digitsOf number) = some number := by
  have nonempty : (digitsOf number).isEmpty = false := by
    simpa using digitsOf_ne_nil number
  have digits : (digitsOf number).any (!isDigit ·) = false := by
    simpa using fun character member => isDigit_of_mem_digitsOf member
  rw [natural?, nonempty, digits, value_digitsOf]
  rfl

theorem valueFrom_ge (start : Nat) (digits : List Char) : start ≤ valueFrom start digits := by
  induction digits generalizing start with
  | nil => simp [valueFrom]
  | cons digit digits hypothesis =>
      have bound := hypothesis (10 * start + digitValue digit)
      simp only [valueFrom, List.foldl_cons] at bound ⊢
      omega

/-- A number greater than zero is not written with a leading zero. -/
theorem head_digitsOf {number : Nat} (positive : 0 < number) {rest : List Char} :
    digitsOf number ≠ '0' :: rest := by
  induction number using Nat.strongRecOn generalizing rest with
  | ind number hypothesis =>
      unfold digitsOf at *
      rw [Nat.toDigits_eq_if (by decide)]
      split
      · intro equal
        simp only [List.cons.injEq, Nat.digitChar_eq_zero] at equal
        omega
      · intro equal
        cases digits : Nat.toDigits 10 (number / 10) with
        | nil => exact Nat.toDigits_ne_nil digits
        | cons first others =>
            rw [digits, List.cons_append] at equal
            injection equal with firstEqual _
            subst firstEqual
            exact hypothesis (number / 10) (by omega) (by omega) digits

end Decimal

namespace JsonNumber
open Decimal

theorem takeDigits_append {digits rest : List Char} {start : Nat}
    (allDigits : ∀ character ∈ digits, isDigit character = true)
    (bounded : valueFrom start digits < keptLimit)
    (ends : ∀ character ∈ rest.head?, isDigit character = false) :
    takeDigits start (digits ++ rest) = (valueFrom start digits, digits.length, rest) := by
  induction digits generalizing start with
  | nil =>
      cases rest with
      | nil => rfl
      | cons character rest => simp [takeDigits, ends character rfl, valueFrom]
  | cons digit digits hypothesis =>
      have isDigitHead : isDigit digit = true := allDigits digit (by simp)
      have stepBound : 10 * start + digitValue digit < keptLimit :=
        Nat.lt_of_le_of_lt (valueFrom_ge _ digits) bounded
      have tail : takeDigits (10 * start + digitValue digit) (digits ++ rest) =
          (valueFrom (10 * start + digitValue digit) digits, digits.length, rest) :=
        hypothesis (fun character member => allDigits character (by simp [member])) bounded
      simp only [List.cons_append, takeDigits, isDigitHead, stepBound, decide_true, Bool.and_self,
        if_true, tail]
      rfl

/-- A text that ends a value: nothing, a comma or a closing bracket or brace. -/
def EndsValue (rest : List Char) : Prop :=
  ∀ character ∈ rest.head?, character = ',' ∨ character = ']' ∨ character = '}'

theorem spanDigits_append {digits rest : List Char}
    (allDigits : ∀ character ∈ digits, isDigit character = true)
    (ends : ∀ character ∈ rest.head?, isDigit character = false) :
    spanDigits (digits ++ rest) = (digits, rest) := by
  induction digits with
  | nil =>
      cases rest with
      | nil => rfl
      | cons character rest => simp [spanDigits, ends character rfl]
  | cons digit digits hypothesis =>
      have tail := hypothesis fun character member => allDigits character (by simp [member])
      simp only [spanDigits, Prod.mk.injEq] at tail ⊢
      simp [allDigits digit (by simp), tail]

theorem EndsValue.not_digit {rest : List Char} (ends : EndsValue rest) :
    ∀ character ∈ rest.head?, isDigit character = false := by
  intro character member
  rcases ends character member with rfl | rfl | rfl <;> decide

theorem spanDigits_digitsOf (number : Nat) {rest : List Char} (ends : EndsValue rest) :
    spanDigits (digitsOf number ++ rest) = (digitsOf number, rest) :=
  spanDigits_append (fun _ member => isDigit_of_mem_digitsOf member) ends.not_digit

theorem spanDigits_of_ends {rest : List Char} (ends : EndsValue rest) :
    spanDigits rest = ([], rest) := by
  have noDigits : ∀ character ∈ ([] : List Char), isDigit character = true := by simp
  exact spanDigits_append noDigits ends.not_digit

theorem readAfterWhole?_of_ends {negative : Bool} {kept : Nat} {rest : List Char}
    (ends : EndsValue rest) :
    readAfterWhole? negative kept 0 rest =
      if !negative then some (integer kept, rest)
      else if kept = 0 || Nat.pow 2 63 < kept then
        some (real (Binary64.ofNat kept).neg, rest)
      else some (integer (-kept), rest) := by
  unfold readAfterWhole?
  split
  · rename_i first
    rcases ends '.' rfl with h | h | h <;> exact absurd h (by decide)
  · rename_i first
    rcases ends 'e' rfl with h | h | h <;> exact absurd h (by decide)
  · rename_i first
    rcases ends 'E' rfl with h | h | h <;> exact absurd h (by decide)
  · simp

theorem readMagnitude?_digitsOf {negative : Bool} {number : Nat} {rest : List Char}
    (bounded : number < keptLimit) (ends : EndsValue rest) :
    readMagnitude? negative (digitsOf number ++ rest) =
      readAfterWhole? negative number 0 rest := by
  rcases Nat.eq_zero_or_pos number with rfl | positive
  · have zero : digitsOf 0 = ['0'] := Nat.toDigits_zero 10
    simp [readMagnitude?, zero, spanDigits_of_ends ends]
  · have taken : takeDigits 0 (digitsOf number ++ rest) =
        (valueFrom 0 (digitsOf number), (digitsOf number).length, rest) :=
      takeDigits_append (fun _ member => isDigit_of_mem_digitsOf member)
        (by rw [← value, value_digitsOf]; exact bounded) ends.not_digit
    unfold readMagnitude?
    split
    · rename_i tail equal
      cases digits : digitsOf number with
      | nil => exact absurd digits (digitsOf_ne_nil number)
      | cons first others =>
          rw [digits, List.cons_append] at equal
          injection equal with firstEqual _
          subst firstEqual
          exact absurd digits (head_digitsOf positive)
    · rw [spanDigits_digitsOf number ends, taken]
      simp only [List.isEmpty_iff, digitsOf_ne_nil, if_false, spanDigits_of_ends ends]
      rw [← value, value_digitsOf]
      rfl

/-- A whole number within 64 bits, signed or unsigned. -/
def IsWhole : JsonNumber → Prop
  | integer value => -Int.pow 2 63 ≤ value ∧ value < Int.pow 2 64
  | real _ => False

theorem read?_integerText {value : Int} {rest : List Char}
    (whole : (integer value).IsWhole) (ends : EndsValue rest) :
    read? (integerText value ++ rest) = some (integer value, rest) := by
  obtain ⟨lower, upper⟩ := whole
  have least : Int.pow 2 63 = 9223372036854775808 := rfl
  have greatest : Int.pow 2 64 = 18446744073709551616 := rfl
  have limit : keptLimit = 18446744073709551616 := rfl
  unfold integerText
  split
  · rename_i negative
    rw [List.cons_append, read?, readMagnitude?_digitsOf (by omega) ends,
      readAfterWhole?_of_ends ends]
    have kept : ¬ (value.natAbs = 0 || Nat.pow 2 63 < value.natAbs) = true := by
      have bound : Nat.pow 2 63 = 9223372036854775808 := rfl
      simp only [Bool.or_eq_true, decide_eq_true_eq]
      omega
    have back : -(value.natAbs : Int) = value := by omega
    simp only [Bool.not_true, Bool.false_eq_true, if_false, kept, back]
  · rename_i positive
    have notMinus : ∀ tail, digitsOf value.natAbs ++ rest ≠ '-' :: tail := by
      intro tail equal
      cases digits : digitsOf value.natAbs with
      | nil => exact digitsOf_ne_nil _ digits
      | cons first others =>
          rw [digits, List.cons_append] at equal
          injection equal with firstEqual _
          have isDigit : isDigit first = true :=
            isDigit_of_mem_digitsOf (by rw [digits]; simp)
          subst firstEqual
          exact absurd isDigit (by decide)
    have back : (value.natAbs : Int) = value := by omega
    unfold read?
    split
    · rename_i tail equal
      exact absurd equal (notMinus tail)
    · rw [readMagnitude?_digitsOf (by omega) ends, readAfterWhole?_of_ends ends]
      simp [back]

end JsonNumber
end InventoryGauges
