import InventoryGauges.Decimal.Reading
import InventoryGauges.Decimal.Shortest
import InventoryGauges.Proofs.Decimal.Rounding
import InventoryGauges.Proofs.Json.Number
import Mathlib.Algebra.Order.Field.Power
import Mathlib.Data.Nat.Cast.Order.Field
import Mathlib.Data.Nat.Log
import Mathlib.Tactic.FieldSimp
import Mathlib.Tactic.Positivity
import Mathlib.Tactic.Ring

/-!
# Shortest decimals are read back

Main statement: the shortest decimal of a number lies in its interval, so that it is
read as that number.
-/

namespace InventoryGauges
namespace Decimal

open Binary64 (Encloses IsRegular unitsPerOne)

/-! ## Values of decimals -/

/-- The value of a decimal. -/
def Scaled.toRat (decimal : Scaled) : ℚ :=
  decimal.digits * 10 ^ decimal.exponent

theorem scaleRatio_eq (ratio : Nat × Nat) (power : Int) :
    ((scaleRatio ratio power).1 : ℚ) / (scaleRatio ratio power).2 =
      ratio.1 / ratio.2 * 10 ^ power := by
  rw [scaleRatio]
  split
  · obtain ⟨count, rfl⟩ := Int.eq_ofNat_of_zero_le ‹0 ≤ power›
    simp only [Int.toNat_natCast, Nat.pow_eq, Nat.cast_mul, Nat.cast_pow, Nat.cast_ofNat,
      zpow_natCast]
    ring
  · obtain ⟨count, rfl⟩ : ∃ count : Nat, power = -(count : Int) := ⟨(-power).toNat, by omega⟩
    simp only [neg_neg, Int.toNat_natCast, Nat.pow_eq, Nat.cast_mul, Nat.cast_pow, Nat.cast_ofNat,
      zpow_neg, zpow_natCast]
    rw [div_mul_eq_div_div, div_eq_mul_inv]

theorem scaleRatio_pos (ratio : Nat × Nat) (positive : 0 < ratio.2) (power : Int) :
    0 < (scaleRatio ratio power).2 := by
  rw [scaleRatio]
  split
  · exact positive
  · exact Nat.mul_pos positive (Nat.pow_pos (by decide))

theorem length_digitsOf (number : Nat) : (digitsOf number).length = Nat.log 10 number + 1 := by
  induction number using Nat.strongRecOn with
  | ind number hypothesis =>
      unfold digitsOf at *
      rw [Nat.toDigits_eq_if (by decide)]
      split
      · rw [Nat.log_of_lt ‹number < 10›]
        rfl
      · have further : Nat.log 10 number = Nat.log 10 (number / 10) + 1 :=
          Nat.log_of_one_lt_of_le (by decide) (by omega)
        rw [List.length_append, hypothesis (number / 10) (by omega), List.length_singleton,
          further]

/-- The leading exponent of a ratio is not too great. -/
theorem zpow_leadingExponent_le (ratio : Nat × Nat) (above : 0 < ratio.1) (below : 0 < ratio.2) :
    (10 : ℚ) ^ leadingExponent ratio ≤ ratio.1 / ratio.2 := by
  have ten : (0 : ℚ) < 10 := by norm_num
  rw [leadingExponent]
  split
  · rename_i guessed
    have whole : (0 : ℚ) < (scaleRatio ratio (-((digitsOf ratio.1).length -
        (digitsOf ratio.2).length : Int))).2 := by
      exact_mod_cast scaleRatio_pos ratio below _
    have one : (1 : ℚ) ≤ ratio.1 / ratio.2 *
        10 ^ (-((digitsOf ratio.1).length - (digitsOf ratio.2).length : Int)) := by
      rw [← scaleRatio_eq, one_le_div whole]
      exact_mod_cast guessed
    rwa [zpow_neg, ← div_eq_mul_inv, one_le_div (zpow_pos ten _)] at one
  · have denominator : (0 : ℚ) < ratio.2 := by exact_mod_cast below
    have least : (10 : ℚ) ^ Nat.log 10 ratio.1 ≤ ratio.1 := by
      exact_mod_cast Nat.pow_log_le_self 10 above.ne'
    have most : (ratio.2 : ℚ) ≤ 10 ^ (Nat.log 10 ratio.2 + 1) := by
      exact_mod_cast (Nat.lt_pow_succ_log_self (by decide) ratio.2).le
    have exponent : ((digitsOf ratio.1).length : Int) - (digitsOf ratio.2).length - 1 =
        (Nat.log 10 ratio.1 : Int) - (Nat.log 10 ratio.2 + 1 : Nat) := by
      rw [length_digitsOf, length_digitsOf]
      omega
    rw [exponent, zpow_sub₀ ten.ne', zpow_natCast, zpow_natCast]
    exact div_le_div₀ (by positivity) least denominator most

/-! ## The interval of a number -/

section Interval

variable {number : Binary64}

/-- One of two powers of two makes the ends of an interval whole numbers. -/
theorem exists_scale (exponent : Nat) {unit units : Nat} (whole : units = Nat.pow 2 unit) :
    ∃ scale : ℚ, 0 < scale ∧ (2 : ℚ) ^ (exponent - unit) = 2 ^ exponent * scale ∧
      (2 : ℚ) ^ (unit - exponent) = units * scale := by
  have two : (2 : ℚ) ^ min exponent unit ≠ 0 := by positivity
  refine ⟨((2 : ℚ) ^ min exponent unit)⁻¹, by positivity, ?_, ?_⟩
  · rw [eq_mul_inv_iff_mul_eq₀ two, ← pow_add]
    congr 1
    omega
  · rw [eq_mul_inv_iff_mul_eq₀ two, ← pow_add, whole, Nat.pow_eq, Nat.cast_pow, Nat.cast_ofNat]
    congr 1
    omega

/-- The parts of the interval of a number, each by the same scale. -/
structure RoundingInterval.Measures (interval : RoundingInterval) (number : Binary64)
    (scale : ℚ) : Prop where
  pos : 0 < scale
  lower : (interval.lower : ℚ) =
    (4 * number.mantissa - number.quartersBelow) * 2 ^ number.exponent * scale
  upper : (interval.upper : ℚ) = (4 * number.mantissa + 2) * 2 ^ number.exponent * scale
  centre : (interval.centre : ℚ) = 4 * number.mantissa * 2 ^ number.exponent * scale
  denominator : (interval.denominator : ℚ) = 4 * unitsPerOne * scale

theorem exists_measures (regular : number.IsRegular) :
    ∃ scale, (RoundingInterval.of number).Measures number scale := by
  have whole : unitsPerOne = Nat.pow 2 1074 := by decide +kernel
  obtain ⟨scale, positive, low, high⟩ := exists_scale number.exponent whole
  have quarters : (if (number.mantissa = Nat.pow 2 52 && decide (0 < number.exponent)) = true
      then 1 else 2) = number.quartersBelow := by
    simp [Binary64.quartersBelow]
  have few : number.quartersBelow ≤ 4 * number.mantissa := by
    have positive := regular.mantissa_pos
    have most := number.quartersBelow_le
    omega
  refine ⟨scale, positive, ?_, ?_, ?_, ?_⟩ <;> rw [RoundingInterval.of]
  · rw [quarters, Nat.cast_mul, Nat.cast_sub few]
    push_cast [Nat.pow_eq]
    rw [low, mul_assoc]
  · push_cast [Nat.pow_eq]
    rw [low, mul_assoc]
  · push_cast [Nat.pow_eq]
    rw [low]
    ring
  · simp only [Nat.cast_mul, Nat.pow_eq, Nat.cast_pow, Nat.cast_ofNat]
    rw [high, mul_assoc]

/-- Natural numbers are compared by what they measure. -/
theorem le_iff_and_lt_iff {left right : Nat} {low high scale : ℚ} (positive : 0 < scale)
    (leftEq : (left : ℚ) = low * scale) (rightEq : (right : ℚ) = high * scale) :
    (left ≤ right ↔ low ≤ high) ∧ (left < right ↔ low < high) := by
  rw [← Nat.cast_le (α := ℚ), ← Nat.cast_lt (α := ℚ), leftEq, rightEq,
    mul_le_mul_iff_of_pos_right positive, mul_lt_mul_iff_of_pos_right positive]
  exact ⟨Iff.rfl, Iff.rfl⟩

/-- The test whether a point of a grid lies in an interval is exact. -/
theorem holds_iff (regular : number.IsRegular) (count : Nat) (power : Int) :
    (RoundingInterval.of number).holds count power ↔
      number.Encloses (count * 10 ^ power * unitsPerOne) := by
  obtain ⟨scale, measures⟩ := exists_measures regular
  have closed : (RoundingInterval.of number).closed = (number.mantissa % 2 == 0) := rfl
  have whole : (0 : ℚ) < (scaleRatio (count, 1) power).2 := by
    exact_mod_cast scaleRatio_pos (count, 1) Nat.one_pos power
  have point : ((scaleRatio (count, 1) power).1 : ℚ) =
      count * 10 ^ power * (scaleRatio (count, 1) power).2 := by
    rw [← div_eq_iff whole.ne', scaleRatio_eq]
    simp
  rw [RoundingInterval.holds]
  generalize scaleRatio (count, 1) power = ratio at whole point ⊢
  generalize RoundingInterval.of number = interval at measures closed ⊢
  have positive : 0 < scale * ratio.2 := mul_pos measures.pos whole
  have scaled : ((ratio.1 * interval.denominator : Nat) : ℚ) =
      4 * (count * 10 ^ power * unitsPerOne) * (scale * ratio.2) := by
    rw [Nat.cast_mul, point, measures.denominator]
    ring
  have lower : ((interval.lower * ratio.2 : Nat) : ℚ) =
      (4 * number.mantissa - number.quartersBelow) * 2 ^ number.exponent * (scale * ratio.2) := by
    rw [Nat.cast_mul, measures.lower, mul_assoc]
  have upper : ((interval.upper * ratio.2 : Nat) : ℚ) =
      (4 * number.mantissa + 2) * 2 ^ number.exponent * (scale * ratio.2) := by
    rw [Nat.cast_mul, measures.upper, mul_assoc]
  obtain ⟨least, more⟩ := le_iff_and_lt_iff positive lower scaled
  obtain ⟨most, less⟩ := le_iff_and_lt_iff positive scaled upper
  simp only [closed, beq_iff_eq]
  split
  · rename_i even
    simp only [Bool.and_eq_true, decide_eq_true_eq, least, most]
    exact ⟨fun ⟨lower, upper⟩ => ⟨lower, upper, by omega⟩,
      fun encloses => ⟨encloses.lower, encloses.upper⟩⟩
  · rename_i odd
    simp only [Bool.and_eq_true, decide_eq_true_eq, more, less]
    exact ⟨fun ⟨lower, upper⟩ => .of_lt lower upper, fun encloses => encloses.odd (by omega)⟩

theorem holds_of_neighbour? {interval : RoundingInterval} {digits : Nat} {power : Int}
    (found : interval.neighbour? power = some digits) :
    interval.holds digits power ∧ 0 < digits := by
  rw [RoundingInterval.neighbour?] at found
  split at found
  · rename_i both beyond
    rw [Bool.and_eq_true, bne_iff_ne] at both
    split at found
    · obtain rfl := Option.some.inj found
      exact ⟨both.1, Nat.pos_of_ne_zero both.2⟩
    · obtain rfl := Option.some.inj found
      exact ⟨beyond, Nat.succ_pos _⟩
  · rename_i below _
    rw [Bool.and_eq_true, bne_iff_ne] at below
    obtain rfl := Option.some.inj found
    exact ⟨below.1, Nat.pos_of_ne_zero below.2⟩
  · rename_i beyond
    obtain rfl := Option.some.inj found
    exact ⟨beyond, Nat.succ_pos _⟩
  · cases found

/-- There is a neighbour if the point of the grid below the number is one. -/
theorem isSome_neighbour?_of_floor {interval : RoundingInterval} {power : Int} {ratio : Nat × Nat}
    (scaled : scaleRatio (interval.centre, interval.denominator) (-power) = ratio)
    (inside : interval.holds (ratio.1 / ratio.2) power) (nonzero : ratio.1 / ratio.2 ≠ 0) :
    (interval.neighbour? power).isSome := by
  rw [RoundingInterval.neighbour?, scaled]
  simp only [inside, bne_iff_ne.mpr nonzero, Bool.and_self]
  cases interval.holds (ratio.1 / ratio.2 + 1) power with
  | true =>
      dsimp only
      split
      all_goals rfl
  | false => rfl

/-- The number itself, from the parts of its interval. -/
theorem centre_div_denominator (regular : number.IsRegular) :
    ((RoundingInterval.of number).centre : ℚ) / (RoundingInterval.of number).denominator *
      unitsPerOne = number.mantissa * 2 ^ number.exponent := by
  obtain ⟨scale, measures⟩ := exists_measures regular
  have positive := measures.pos
  have units : (0 : ℚ) < unitsPerOne := by exact_mod_cast Binary64.unitsPerOne_pos
  rw [measures.centre, measures.denominator]
  field_simp

/-- Seventeen places below the leading one, the point of the grid below a number lies in
its interval. -/
theorem encloses_floor {step value floor : ℚ}
    (same : value * unitsPerOne = number.mantissa * 2 ^ number.exponent)
    (wide : step * 10 ^ 17 ≤ value) (below : floor * step ≤ value)
    (above : value < (floor + 1) * step) :
    number.Encloses (floor * step * unitsPerOne) := by
  have units : (0 : ℚ) < unitsPerOne := by exact_mod_cast Binary64.unitsPerOne_pos
  have place : (0 : ℚ) < 2 ^ number.exponent := by positivity
  have mantissa : (number.mantissa : ℚ) * 2 ^ number.exponent ≤ 2 ^ 53 * 2 ^ number.exponent :=
    mul_le_mul_of_nonneg_right (by exact_mod_cast number.mantissa_lt.le) place.le
  have quarters : (1 : ℚ) * 2 ^ number.exponent ≤ number.quartersBelow * 2 ^ number.exponent :=
    mul_le_mul_of_nonneg_right (by exact_mod_cast number.quartersBelow_pos) place.le
  have least : step * unitsPerOne * 10 ^ 17 ≤ value * unitsPerOne := by
    calc step * unitsPerOne * 10 ^ 17 = step * 10 ^ 17 * unitsPerOne := by ring
      _ ≤ value * unitsPerOne := mul_le_mul_of_nonneg_right wide units.le
  have under : floor * step * unitsPerOne ≤ value * unitsPerOne :=
    mul_le_mul_of_nonneg_right below units.le
  have beyond : value * unitsPerOne < floor * step * unitsPerOne + step * unitsPerOne := by
    calc value * unitsPerOne < (floor + 1) * step * unitsPerOne :=
          mul_lt_mul_of_pos_right above units
      _ = floor * step * unitsPerOne + step * unitsPerOne := by ring
  rw [same] at least under beyond
  have narrow : 4 * (step * unitsPerOne) < number.quartersBelow * 2 ^ number.exponent := by
    linarith
  refine .of_lt ?_ ?_
  · linarith
  · linarith

/-- The grid of the eighteenth digit is finer than the interval, so that it has a point
there. -/
theorem isSome_neighbour? (regular : number.IsRegular) :
    ((RoundingInterval.of number).neighbour? (leadingExponent
      ((RoundingInterval.of number).centre, (RoundingInterval.of number).denominator) -
        17)).isSome := by
  have exact := holds_iff regular
  have same := centre_div_denominator regular
  have above : 0 < (RoundingInterval.of number).centre :=
    Nat.mul_pos (Nat.mul_pos (by decide) regular.mantissa_pos) (Nat.pow_pos (by decide))
  have below : 0 < (RoundingInterval.of number).denominator :=
    Nat.mul_pos (by decide) (Nat.pow_pos (by decide))
  generalize RoundingInterval.of number = interval at exact same above below ⊢
  have leading := zpow_leadingExponent_le (interval.centre, interval.denominator) above below
  generalize leadingExponent (interval.centre, interval.denominator) = exponent at leading ⊢
  have fine : (0 : ℚ) < 10 ^ (exponent - 17) := zpow_pos (by norm_num) _
  have wide : (10 : ℚ) ^ (exponent - 17) * 10 ^ 17 ≤ interval.centre / interval.denominator := by
    rw [← zpow_natCast, ← zpow_add₀ (by norm_num)]
    simpa using leading
  have places := scaleRatio_eq (interval.centre, interval.denominator) (-(exponent - 17))
  have whole := scaleRatio_pos (interval.centre, interval.denominator) below (-(exponent - 17))
  generalize scaled : scaleRatio (interval.centre, interval.denominator) (-(exponent - 17)) = ratio
    at places whole
  rw [zpow_neg, ← div_eq_mul_inv, eq_div_iff fine.ne'] at places
  have under : ((ratio.1 / ratio.2 : Nat) : ℚ) ≤ ratio.1 / ratio.2 := Nat.cast_div_le
  have beyond : (ratio.1 / ratio.2 : ℚ) < (ratio.1 / ratio.2 : Nat) + 1 := by
    rw [div_lt_iff₀ (by exact_mod_cast whole)]
    exact_mod_cast Nat.lt_mul_of_div_lt (Nat.lt_succ_self (ratio.1 / ratio.2)) whole
  refine isSome_neighbour?_of_floor scaled ((exact _ _).mpr ?_) fun zero => ?_
  · exact encloses_floor same wide (places ▸ mul_le_mul_of_nonneg_right under fine.le)
      (places ▸ mul_lt_mul_of_pos_right beyond fine)
  · -- Eighteen digits before the point are more than none.
    rw [zero, Nat.cast_zero, zero_add] at beyond
    rw [← places, mul_comm] at wide
    have least := le_of_mul_le_mul_right wide fine
    linarith

end Interval

/-! ## Trailing zeros -/

theorem toRat_trim (fuel : Nat) (decimal : Scaled) :
    (decimal.trim fuel).toRat = decimal.toRat ∧
      (0 < decimal.digits → 0 < (decimal.trim fuel).digits) := by
  induction fuel generalizing decimal with
  | zero => exact ⟨rfl, id⟩
  | succ fuel hypothesis =>
      rw [Scaled.trim]
      split
      · rename_i trailing
        rw [Bool.and_eq_true, decide_eq_true_eq, bne_iff_ne] at trailing
        obtain ⟨divides, nonzero⟩ := trailing
        obtain ⟨same, positive⟩ := hypothesis ⟨decimal.digits / 10, decimal.exponent + 1⟩
        refine ⟨same.trans ?_, fun _ => positive (by dsimp only; omega)⟩
        have split : (decimal.digits : ℚ) = (decimal.digits / 10 : Nat) * 10 := by
          exact_mod_cast (Nat.div_mul_cancel (Nat.dvd_of_mod_eq_zero divides)).symm
        rw [Scaled.toRat, Scaled.toRat, split, zpow_add₀ (by norm_num), zpow_one]
        ring
      · exact ⟨rfl, id⟩

/-- The shortest decimal of a number lies in its interval. -/
theorem encloses_shortest {number : Binary64} (regular : number.IsRegular) :
    number.Encloses ((shortest number).toRat * unitsPerOne) ∧ 0 < (shortest number).digits := by
  unfold shortest
  dsimp only
  cases found : (List.range 18).findSome? ((RoundingInterval.of number).candidate? (leadingExponent
      ((RoundingInterval.of number).centre, (RoundingInterval.of number).denominator))) with
  | some decimal =>
      obtain ⟨count, -, taken⟩ := List.exists_of_findSome?_eq_some found
      obtain ⟨digits, neighbour, rfl⟩ := Option.map_eq_some_iff.mp taken
      obtain ⟨holds, positive⟩ := holds_of_neighbour? neighbour
      obtain ⟨same, kept⟩ := toRat_trim 18 ⟨digits, _⟩
      rw [Option.elim_some, same]
      exact ⟨(holds_iff regular _ _).mp holds, kept positive⟩
  | none =>
      have missing := List.findSome?_eq_none_iff.mp found 17 (by decide)
      rw [RoundingInterval.candidate?, Option.map_eq_none_iff] at missing
      have within := isSome_neighbour? regular
      rw [Nat.cast_ofNat] at missing
      rw [missing] at within
      cases within

end Decimal
end InventoryGauges
