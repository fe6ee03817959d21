import InventoryGauges.Proofs.Decimal.Shortest

/-!
# Decimals are read as the nearest number

Main statement: the digits and the point that are written for a decimal in the interval
of a number are read as that number.
-/

namespace InventoryGauges
namespace Decimal

open Binary64 (Encloses IsRegular unitsPerOne)

/-! ## The range of numbers -/

section Range

variable {number : Binary64} {places : Nat} {amount : ℚ}

/-- What lies in the interval of a number is not too great. -/
theorem lt_of_encloses (wide : 2 ^ 53 * 2 ^ number.exponent ≤ 10 ^ places * unitsPerOne)
    (encloses : number.Encloses (amount * unitsPerOne)) : amount < 10 ^ places := by
  by_contra above
  have units : (0 : ℚ) ≤ unitsPerOne := Nat.cast_nonneg _
  have place : (0 : ℚ) < 2 ^ number.exponent := by positivity
  have greater : (2 : ℚ) ^ 53 * 2 ^ number.exponent ≤ amount * unitsPerOne := by
    calc (2 : ℚ) ^ 53 * 2 ^ number.exponent ≤ 10 ^ places * unitsPerOne := by exact_mod_cast wide
      _ ≤ amount * unitsPerOne := mul_le_mul_of_nonneg_right (not_lt.mp above) units
  have mantissa : ((number.mantissa : ℚ) + 1) * 2 ^ number.exponent ≤
      2 ^ 53 * 2 ^ number.exponent :=
    mul_le_mul_of_nonneg_right (by exact_mod_cast number.mantissa_lt) place.le
  have upper := encloses.upper
  linarith

/-- Nor is it too small. -/
theorem one_lt_of_encloses (regular : number.IsRegular) (narrow : 2 * unitsPerOne < 10 ^ places)
    (encloses : number.Encloses (amount * unitsPerOne)) : 1 < amount * 10 ^ places := by
  have units : (0 : ℚ) < unitsPerOne := by exact_mod_cast Binary64.unitsPerOne_pos
  have mantissa : (1 : ℚ) ≤ number.mantissa := by exact_mod_cast regular.mantissa_pos
  have quarters : (number.quartersBelow : ℚ) ≤ 2 := by exact_mod_cast number.quartersBelow_le
  have least : (2 : ℚ) ≤ 4 * (amount * unitsPerOne) := by
    calc (2 : ℚ) ≤ 4 * number.mantissa - number.quartersBelow := by linarith
      _ ≤ (4 * number.mantissa - number.quartersBelow) * 2 ^ number.exponent :=
          le_mul_of_one_le_right (by linarith) (one_le_pow₀ one_le_two)
      _ ≤ 4 * (amount * unitsPerOne) := encloses.lower
  have positive : 0 < amount := (mul_pos_iff_of_pos_right units).mp (by linarith)
  calc (1 : ℚ) ≤ amount * (2 * unitsPerOne) := by linarith
    _ < amount * 10 ^ places := mul_lt_mul_of_pos_left (by exact_mod_cast narrow) positive

/-- The bounds of an amount bound its leading digit. -/
theorem abs_leading_le {digits : Nat} {exponent : Int} (positive : 0 < digits)
    (upper : (digits : ℚ) * 10 ^ exponent < 10 ^ places)
    (lower : 1 < (digits : ℚ) * 10 ^ exponent * 10 ^ places) :
    exponent + (digitsOf digits).length ≤ places ∧
      -places ≤ exponent + (digitsOf digits).length := by
  have ten : (1 : ℚ) < 10 := by norm_num
  have scale : (0 : ℚ) < 10 ^ exponent := zpow_pos (by norm_num) _
  rw [length_digitsOf]
  constructor
  · have least : (10 : ℚ) ^ (Nat.log 10 digits : Int) ≤ digits := by
      rw [zpow_natCast]
      exact_mod_cast Nat.pow_log_le_self 10 positive.ne'
    have below : (10 : ℚ) ^ (Nat.log 10 digits + exponent) < 10 ^ (places : Int) := by
      rw [zpow_add₀ (by norm_num), zpow_natCast _ places]
      exact (mul_le_mul_of_nonneg_right least scale.le).trans_lt upper
    have bounded := (zpow_lt_zpow_iff_right₀ ten).mp below
    omega
  · have most : (digits : ℚ) < 10 ^ (Nat.log 10 digits + 1 : Int) := by
      rw [← Nat.cast_succ, zpow_natCast]
      exact_mod_cast Nat.lt_pow_succ_log_self (by decide) digits
    have above : (10 : ℚ) ^ (0 : Int) <
        10 ^ ((Nat.log 10 digits + 1 : Int) + exponent + places) := by
      rw [zpow_add₀ (by norm_num), zpow_add₀ (by norm_num), zpow_natCast _ places, zpow_zero]
      exact lower.trans (mul_lt_mul_of_pos_right (mul_lt_mul_of_pos_right most scale)
        (by positivity))
    have bounded := (zpow_lt_zpow_iff_right₀ ten).mp above
    omega

/-- A decimal in the interval of a number is read as that number. -/
theorem nearest_eq (regular : number.IsRegular) {digits : Nat} {exponent : Int}
    (positive : 0 < digits)
    (encloses : number.Encloses (digits * 10 ^ exponent * unitsPerOne)) (negative : Bool) :
    nearest negative digits exponent = Binary64.ofMagnitude negative number.magnitude := by
  have wide : 2 ^ 53 * 2 ^ number.exponent ≤ 10 ^ 400 * unitsPerOne :=
    (Nat.mul_le_mul_left _ (Nat.pow_le_pow_right (by decide) regular.exponent_le)).trans
      (by decide +kernel)
  have narrow : 2 * unitsPerOne < 10 ^ 400 := by decide +kernel
  obtain ⟨most, least⟩ := abs_leading_le positive (lt_of_encloses wide encloses)
    (one_lt_of_encloses regular narrow encloses)
  rw [Nat.cast_ofNat] at most least
  have ratio : nearest negative digits exponent =
      Binary64.ofRatio negative (scaleRatio (digits, 1) exponent).1
        (scaleRatio (digits, 1) exponent).2 := by
    rw [nearest, if_neg positive.ne']
    dsimp only
    rw [if_neg (not_lt.mpr most), if_neg (not_lt.mpr least), scaleRatio]
    split
    · rfl
    · rw [Nat.one_mul]
  have value := scaleRatio_eq (digits, 1) exponent
  rw [Nat.cast_one, div_one] at value
  rw [ratio, Binary64.ofRatio]
  refine Binary64.ofUnits_eq regular (scaleRatio_pos (digits, 1) Nat.one_pos _) ?_ negative
  rw [Nat.cast_mul, mul_div_right_comm, value]
  exact encloses

end Range

/-! ## Digits and a point -/

theorem valueFrom_append (start : Nat) (digits rest : List Char) :
    valueFrom start (digits ++ rest) = valueFrom (valueFrom start digits) rest :=
  List.foldl_append

theorem valueFrom_zeros (start count : Nat) :
    valueFrom start (List.replicate count '0') = start * 10 ^ count := by
  induction count generalizing start with
  | zero => exact (Nat.mul_one start).symm
  | succ count hypothesis =>
      have zero : digitValue '0' = 0 := rfl
      have step : valueFrom start ('0' :: List.replicate count '0') =
          valueFrom (10 * start + digitValue '0') (List.replicate count '0') := rfl
      rw [List.replicate_succ, step, hypothesis, zero, Nat.pow_succ]
      ring

/-- A run of digits. -/
def AreDigits (text : List Char) : Prop :=
  ∀ character ∈ text, isDigit character

theorem areDigits_digitsOf (number : Nat) : AreDigits (digitsOf number) :=
  fun _ => isDigit_of_mem_digitsOf

theorem areDigits_zeros (count : Nat) : AreDigits (List.replicate count '0') := by
  intro character member
  rw [List.eq_of_mem_replicate member]
  rfl

theorem AreDigits.append {first last : List Char} (digits : AreDigits first)
    (others : AreDigits last) : AreDigits (first ++ last) := by
  intro character member
  exact (List.mem_append.mp member).elim (digits character) (others character)

/-- Digits without a point. -/
theorem unsigned?_digits {text : List Char} (digits : AreDigits text) (some : text ≠ [])
    (negative : Bool) : unsigned? negative text = .some (nearest negative (value text) 0) := by
  have whole : spanDigits (text ++ []) = (text, []) :=
    JsonNumber.spanDigits_append digits (by simp)
  rw [List.append_nil] at whole
  simp [unsigned?, whole, some, exponentPart?]

/-- Digits around a point. -/
theorem unsigned?_point {whole fraction : List Char} (digits : AreDigits whole)
    (others : AreDigits fraction) (some : whole ≠ []) (negative : Bool) :
    unsigned? negative (whole ++ '.' :: fraction) =
      .some (nearest negative (value (whole ++ fraction)) (-fraction.length)) := by
  have point : spanDigits (whole ++ '.' :: fraction) = (whole, '.' :: fraction) := by
    refine JsonNumber.spanDigits_append digits fun character member => ?_
    cases Option.mem_some_iff.mp member
    rfl
  have after : spanDigits (fraction ++ []) = (fraction, []) :=
    JsonNumber.spanDigits_append others (by simp)
  rw [List.append_nil] at after
  simp [unsigned?, point, after, some, exponentPart?]

/-- The text of a decimal is digits, or digits around a point. -/
theorem exists_positional_eq (decimal : Scaled) : ∃ whole fraction : List Char,
    (decimal.positional = whole ∧ fraction = [] ∨
      decimal.positional = whole ++ '.' :: fraction) ∧
    whole ≠ [] ∧ AreDigits whole ∧ AreDigits fraction ∧
    (value (whole ++ fraction) : ℚ) * 10 ^ (-fraction.length : Int) = decimal.toRat := by
  rw [Scaled.positional]
  split
  · rename_i above
    obtain ⟨count, same⟩ := Int.eq_ofNat_of_zero_le above
    refine ⟨_, [], Or.inl ⟨rfl, rfl⟩, List.append_ne_nil_of_left_ne_nil (digitsOf_ne_nil _) _,
      (areDigits_digitsOf _).append (areDigits_zeros _), List.forall_mem_nil _, ?_⟩
    rw [List.append_nil, value, valueFrom_append, ← value, value_digitsOf, valueFrom_zeros,
      Scaled.toRat, same]
    simp
  · have places : -((-decimal.exponent).toNat : Int) = decimal.exponent := by omega
    generalize (-decimal.exponent).toNat = count at places ⊢
    have padded : AreDigits (List.replicate (count + 1 - (digitsOf decimal.digits).length) '0' ++
        digitsOf decimal.digits) := (areDigits_zeros _).append (areDigits_digitsOf _)
    have total : value (List.replicate (count + 1 - (digitsOf decimal.digits).length) '0' ++
        digitsOf decimal.digits) = decimal.digits := by
      rw [value, valueFrom_append, valueFrom_zeros, Nat.zero_mul]
      exact value_digitsOf _
    have long : count + 1 ≤ (List.replicate (count + 1 - (digitsOf decimal.digits).length) '0' ++
        digitsOf decimal.digits).length := by
      rw [List.length_append, List.length_replicate]
      omega
    dsimp only
    generalize List.replicate (count + 1 - (digitsOf decimal.digits).length) '0' ++
      digitsOf decimal.digits = text at padded total long ⊢
    have nonempty : text.take (text.length - count) ≠ [] := by
      rw [List.ne_nil_iff_length_pos, List.length_take]
      omega
    have fraction : (text.drop (text.length - count)).length = count := by
      rw [List.length_drop]
      omega
    refine ⟨_, _, Or.inr rfl, nonempty, fun _ member => padded _ (List.mem_of_mem_take member),
      fun _ member => padded _ (List.mem_of_mem_drop member), ?_⟩
    rw [List.take_append_drop, total, fraction, places, Scaled.toRat]

/-- The value of a decimal is read as written. -/
theorem unsigned?_positional (decimal : Scaled) (negative : Bool) :
    ∃ digits : Nat, ∃ exponent : Int,
      unsigned? negative decimal.positional = some (nearest negative digits exponent) ∧
        (digits : ℚ) * 10 ^ exponent = decimal.toRat := by
  obtain ⟨whole, fraction, shape, some, digits, others, same⟩ := exists_positional_eq decimal
  refine ⟨_, _, ?_, same⟩
  rcases shape with ⟨text, rfl⟩ | text
  · rw [text, unsigned?_digits digits some, List.append_nil]
    rfl
  · rw [text, unsigned?_point digits others some]

/-- The shortest decimal of a number is read as its magnitude. -/
theorem unsigned?_positional_shortest {number : Binary64} (regular : number.IsRegular)
    (negative : Bool) :
    unsigned? negative (shortest number).positional =
      some (Binary64.ofMagnitude negative number.magnitude) := by
  obtain ⟨encloses, positive⟩ := encloses_shortest regular
  obtain ⟨digits, exponent, reads, same⟩ := unsigned?_positional (shortest number) negative
  have above : 0 < digits := by
    have whole : (0 : ℚ) < (shortest number).toRat :=
      mul_pos (by exact_mod_cast positive) (zpow_pos (by norm_num) _)
    rw [← same] at whole
    exact_mod_cast (mul_pos_iff_of_pos_right (zpow_pos (by norm_num) _)).mp whole
  rw [← same] at encloses
  rw [reads, nearest_eq regular above encloses]

end Decimal
end InventoryGauges
