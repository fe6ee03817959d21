import InventoryGauges.Binary64
import Mathlib.Algebra.Order.Field.Basic
import Mathlib.Data.Rat.Cast.Order
import Mathlib.Tactic.Linarith
import Mathlib.Tactic.NormNum

/-!
# Rounding to binary64 numbers

Each number has an interval of values around it, its ends included if its mantissa
is even.  Main statement: what lies in the interval of a number is rounded to it.
-/

namespace InventoryGauges
namespace Binary64

theorem unitsPerOne_pos : 0 < unitsPerOne := by
  decide +kernel

/-! ## The parts of a number -/

/-- A number that is neither zero nor an infinity. -/
structure IsRegular (number : Binary64) : Prop where
  pos : 0 < number.magnitude
  lt : number.magnitude < infinityMagnitude

theorem ofMagnitude_self (number : Binary64) :
    ofMagnitude number.isNegative number.magnitude = number := by
  obtain ⟨bits⟩ := number
  have bounded := bits.toNat_lt
  have weight : signWeight = 9223372036854775808 := rfl
  have same : (if Binary64.isNegative ⟨bits⟩ then signWeight else 0) +
      Binary64.magnitude ⟨bits⟩ = bits.toNat := by
    simp only [isNegative, magnitude, decide_eq_true_eq, weight]
    split <;> omega
  rw [ofMagnitude, same, UInt64.ofNat_toNat]

variable {number : Binary64}

theorem magnitude_eq (number : Binary64) :
    number.exponent * 2 ^ 52 + number.mantissa = number.magnitude := by
  have power : Nat.pow 2 52 = 2 ^ 52 := rfl
  simp only [mantissa, exponent, power]
  omega

theorem IsRegular.mantissa_pos (regular : number.IsRegular) : 0 < number.mantissa := by
  have power : Nat.pow 2 52 = 2 ^ 52 := rfl
  have positive := regular.pos
  simp only [mantissa, exponent, power]
  omega

theorem mantissa_lt (number : Binary64) : number.mantissa < 2 ^ 53 := by
  have power : Nat.pow 2 52 = 2 ^ 52 := rfl
  simp only [mantissa, exponent, power]
  omega

/-- Only the numbers nearest to zero have a small mantissa. -/
theorem le_mantissa (positive : 0 < number.exponent) : 2 ^ 52 ≤ number.mantissa := by
  have power : Nat.pow 2 52 = 2 ^ 52 := rfl
  simp only [mantissa, exponent, power] at positive ⊢
  omega

theorem IsRegular.exponent_le (regular : number.IsRegular) : number.exponent ≤ 2045 := by
  have power : Nat.pow 2 52 = 2 ^ 52 := rfl
  have bounded := regular.lt
  simp only [infinityMagnitude, power] at bounded
  simp only [exponent, power]
  omega

/-! ## Intervals -/

/-- How far the interval of a number reaches below it, in quarters of the last place.
Below a power of two, the next number is half as far away. -/
def quartersBelow (number : Binary64) : Nat :=
  if number.mantissa = 2 ^ 52 ∧ 0 < number.exponent then 1 else 2

theorem quartersBelow_le (number : Binary64) : number.quartersBelow ≤ 2 := by
  rw [quartersBelow]
  split <;> omega

theorem quartersBelow_pos (number : Binary64) : 0 < number.quartersBelow := by
  rw [quartersBelow]
  split <;> omega

/-- A value, in units of the least positive number, lies in the interval of a number. -/
structure Encloses (number : Binary64) (units : ℚ) : Prop where
  lower : (4 * number.mantissa - number.quartersBelow) * 2 ^ number.exponent ≤ 4 * units
  upper : 4 * units ≤ (4 * number.mantissa + 2) * 2 ^ number.exponent
  /-- Where the mantissa is odd, the ends belong to the neighbours. -/
  odd : number.mantissa % 2 = 1 →
    (4 * number.mantissa - number.quartersBelow) * 2 ^ number.exponent < 4 * units ∧
      4 * units < (4 * number.mantissa + 2) * 2 ^ number.exponent

/-- What lies strictly between the ends lies in the interval. -/
theorem Encloses.of_lt {units : ℚ}
    (lower : (4 * number.mantissa - number.quartersBelow) * 2 ^ number.exponent < 4 * units)
    (upper : 4 * units < (4 * number.mantissa + 2) * 2 ^ number.exponent) :
    number.Encloses units :=
  ⟨lower.le, upper.le, fun _ => ⟨lower, upper⟩⟩

/-- The interval, for a ratio of natural numbers. -/
theorem Encloses.of_ratio {numerator denominator : Nat} (positive : 0 < denominator)
    (encloses : number.Encloses (numerator / denominator)) :
    4 * (number.mantissa * (2 ^ number.exponent * denominator)) ≤
        4 * numerator + number.quartersBelow * (2 ^ number.exponent * denominator) ∧
      4 * numerator ≤ 4 * (number.mantissa * (2 ^ number.exponent * denominator)) +
        2 * (2 ^ number.exponent * denominator) ∧
      (number.mantissa % 2 = 1 →
        4 * (number.mantissa * (2 ^ number.exponent * denominator)) <
            4 * numerator + number.quartersBelow * (2 ^ number.exponent * denominator) ∧
          4 * numerator < 4 * (number.mantissa * (2 ^ number.exponent * denominator)) +
            2 * (2 ^ number.exponent * denominator)) := by
  have above : (0 : ℚ) < denominator := by exact_mod_cast positive
  obtain ⟨lower, upper, odd⟩ := encloses
  rw [← mul_div_assoc] at lower upper odd
  rw [le_div_iff₀ above] at lower
  rw [div_le_iff₀ above] at upper
  rw [lt_div_iff₀ above, div_lt_iff₀ above] at odd
  refine ⟨?_, ?_, fun isOdd => ?_⟩
  · rw [← Nat.cast_le (α := ℚ)]
    push_cast
    linarith
  · rw [← Nat.cast_le (α := ℚ)]
    push_cast
    linarith
  · obtain ⟨lower, upper⟩ := odd isOdd
    constructor
    · rw [← Nat.cast_lt (α := ℚ)]
      push_cast
      linarith
    · rw [← Nat.cast_lt (α := ℚ)]
      push_cast
      linarith

/-! ## Rounding -/

/-- A ratio is rounded to a number no farther away than a half, which is even if it is
just as far away. -/
theorem roundDivide_eq {numerator denominator result : Nat} (positive : 0 < denominator)
    (lower : 2 * (result * denominator) ≤ 2 * numerator + denominator)
    (upper : 2 * numerator ≤ 2 * (result * denominator) + denominator)
    (odd : result % 2 = 1 → 2 * (result * denominator) < 2 * numerator + denominator ∧
      2 * numerator < 2 * (result * denominator) + denominator) :
    roundDivide numerator denominator = result := by
  have split := Nat.div_add_mod numerator denominator
  have small := Nat.mod_lt numerator positive
  rw [roundDivide]
  generalize numerator / denominator = quotient at split ⊢
  generalize numerator % denominator = remainder at split small ⊢
  rw [Nat.mul_comm] at split
  have least : quotient ≤ result := by
    by_contra above
    have further : (result + 1) * denominator ≤ quotient * denominator :=
      Nat.mul_le_mul_right denominator (by omega)
    rw [Nat.add_mul] at further
    omega
  have most : result ≤ quotient + 1 := by
    by_contra above
    have further : (quotient + 2) * denominator ≤ result * denominator :=
      Nat.mul_le_mul_right denominator (by omega)
    rw [Nat.add_mul] at further
    omega
  rcases Nat.lt_or_eq_of_le least with above | rfl
  · obtain rfl : result = quotient + 1 := by omega
    rw [Nat.add_mul] at lower upper odd
    have beyond : ¬ ((2 * remainder < denominator ||
        (2 * remainder == denominator && quotient % 2 == 0)) = true) := by
      simp only [Bool.or_eq_true, decide_eq_true_eq, Bool.and_eq_true, beq_iff_eq]
      omega
    rw [if_neg beyond]
  · have within : (2 * remainder < denominator ||
        (2 * remainder == denominator && quotient % 2 == 0)) = true := by
      simp only [Bool.or_eq_true, decide_eq_true_eq, Bool.and_eq_true, beq_iff_eq]
      omega
    rw [if_pos within]

/-- The exponent of what a ratio is rounded to, for a ratio between two powers of two. -/
theorem log2_sub_eq {numerator denominator exponent : Nat} (positive : 0 < denominator)
    (lower : exponent = 0 ∨ 2 ^ 52 * (2 ^ exponent * denominator) ≤ numerator)
    (upper : numerator < 2 ^ 53 * (2 ^ exponent * denominator)) :
    Nat.log2 (numerator / denominator) + 1 - 53 = exponent := by
  rw [← Nat.mul_assoc, ← Nat.pow_add] at lower upper
  have most : numerator / denominator < 2 ^ (53 + exponent) :=
    (Nat.div_lt_iff_lt_mul positive).mpr upper
  by_cases zero : numerator / denominator = 0
  · rcases lower with rfl | lower
    · rw [zero]
      rfl
    · have least := (Nat.le_div_iff_mul_le positive).mpr lower
      have above := Nat.two_pow_pos (52 + exponent)
      omega
  · have bounded := (Nat.log2_lt zero).mpr most
    rcases lower with rfl | lower
    · omega
    · have least := (Nat.le_log2 zero).mpr ((Nat.le_div_iff_mul_le positive).mpr lower)
      omega

/-- What lies in the interval of a number is rounded to it. -/
theorem ofUnits_eq (regular : number.IsRegular) {numerator denominator : Nat}
    (positive : 0 < denominator) (encloses : number.Encloses (numerator / denominator))
    (negative : Bool) :
    ofUnits negative numerator denominator = ofMagnitude negative number.magnitude := by
  have rounds {exponent mantissa : Nat}
      (lower : exponent = 0 ∨ 2 ^ 52 * (2 ^ exponent * denominator) ≤ numerator)
      (upper : numerator < 2 ^ 53 * (2 ^ exponent * denominator))
      (rounded : roundDivide numerator (2 ^ exponent * denominator) = mantissa)
      (total : exponent * 2 ^ 52 + mantissa = number.magnitude) :
      ofUnits negative numerator denominator = ofMagnitude negative number.magnitude := by
    have power : Nat.pow 2 52 = 2 ^ 52 := rfl
    have scale : Nat.pow 2 exponent = 2 ^ exponent := rfl
    simp only [ofUnits, log2_sub_eq positive lower upper, scale, Nat.mul_comm denominator, rounded,
      power, total, Nat.min_eq_left regular.lt.le]
  obtain ⟨lower, upper, odd⟩ := encloses.of_ratio positive
  have quarters := number.quartersBelow_le
  have whole : 0 < 2 ^ number.exponent * denominator :=
    Nat.mul_pos (Nat.two_pow_pos _) positive
  have bounded : (number.mantissa + 1) * (2 ^ number.exponent * denominator) ≤
      2 ^ 53 * (2 ^ number.exponent * denominator) :=
    Nat.mul_le_mul_right _ number.mantissa_lt
  rw [Nat.add_mul] at bounded
  have reach : number.quartersBelow * (2 ^ number.exponent * denominator) ≤
      2 * (2 ^ number.exponent * denominator) :=
    Nat.mul_le_mul_right _ quarters
  by_cases near : number.exponent = 0 ∨
      2 ^ 52 * (2 ^ number.exponent * denominator) ≤ numerator
  · refine rounds near (by omega) (roundDivide_eq whole ?_ ?_ ?_) number.magnitude_eq
    all_goals omega
  · -- Below a power of two, the last place is half as wide.
    obtain ⟨above, below⟩ := not_or.mp near
    have least := le_mantissa (Nat.pos_of_ne_zero above)
    have power : number.mantissa = 2 ^ 52 := by
      by_contra different
      have further : (2 ^ 52 + 1) * (2 ^ number.exponent * denominator) ≤
          number.mantissa * (2 ^ number.exponent * denominator) :=
        Nat.mul_le_mul_right _ (by omega)
      rw [Nat.add_mul] at further
      omega
    have quarter : number.quartersBelow = 1 := if_pos ⟨power, Nat.pos_of_ne_zero above⟩
    have total := number.magnitude_eq
    rw [power] at lower upper total
    rw [quarter] at lower
    obtain ⟨exponent, same⟩ := Nat.exists_eq_succ_of_ne_zero above
    have double : 2 ^ number.exponent * denominator = 2 * (2 ^ exponent * denominator) := by
      rw [same, Nat.pow_succ', Nat.mul_assoc]
    rw [double] at lower upper below whole
    have rounded : roundDivide numerator (2 ^ exponent * denominator) = 2 ^ 53 := by
      refine roundDivide_eq (by omega) ?_ ?_ fun odd => ?_
      all_goals omega
    have carried : exponent * 2 ^ 52 + 2 ^ 53 = number.magnitude := by
      rw [← total, same, Nat.succ_mul, Nat.add_assoc]
      norm_num
    exact rounds (Or.inr (by omega)) (by omega) rounded carried

end Binary64
end InventoryGauges
