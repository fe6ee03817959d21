import InventoryGauges.Proofs.Json.Number
import InventoryGauges.Schedule
import InventoryGauges.Store.Bookkeeping

/-!
# Markers and when metrics are due

The text of a marker is read back as the time that was written.  What the 64-bit
arithmetic of markers comes to is told in integers; as long as the clock is past the
interval, nothing of it is lost.
-/

namespace InventoryGauges
namespace Decimal

/-- An integer is what its text is read as. -/
theorem signed?_integerText (number : Int) : signed? (integerText number) = some number := by
  rw [integerText]
  split
  · have negated : -(number.natAbs : Int) = number := by omega
    rw [signed?, natural?_digitsOf]
    exact congrArg some negated
  · have digits (character : Char) (member : character ∈ digitsOf number.natAbs) :=
      isDigit_of_mem_digitsOf member
    unfold signed?
    split
    · rename_i equal
      exact absurd (digits '-' (by simp [equal])) (by decide)
    · rename_i equal
      exact absurd (digits '+' (by simp [equal])) (by decide)
    · have same : (number.natAbs : Int) = number := by omega
      rw [natural?_digitsOf]
      exact congrArg some same

theorem isBlank_of_mem_integerText {number : Int} {character : Char}
    (member : character ∈ integerText number) : Text.isBlank character = false := by
  have blank {digit : Char} (found : digit ∈ digitsOf number.natAbs) :
      Text.isBlank digit = false := by
    have bounds := isDigit_of_mem_digitsOf found
    simp only [isDigit, Bool.and_eq_true, decide_eq_true_eq, Char.le_def, UInt32.le_iff_toNat_le]
      at bounds
    have least : '0'.val.toNat = 48 := rfl
    have greatest : '9'.val.toNat = 57 := rfl
    simp only [Text.isBlank, Char.toNat, Bool.or_eq_false_iff, Bool.and_eq_false_iff,
      decide_eq_false_iff_not, beq_eq_false_iff_ne]
    omega
  rw [integerText] at member
  split at member
  · rcases List.mem_cons.mp member with rfl | later
    · rfl
    · exact blank later
  · exact blank member

end Decimal

namespace Text

/-- A text without blanks is not trimmed. -/
theorem trim_eq_self {text : List Char} (solid : ∀ character ∈ text, isBlank character = false) :
    trim text = text := by
  have skips {text : List Char} (solid : ∀ character ∈ text, isBlank character = false) :
      skipBlanks text = text := by
    cases text with
    | nil => rfl
    | cons character text =>
        rw [skipBlanks, List.dropWhile_cons_of_neg]
        simp [solid character List.mem_cons_self]
  rw [trim, skips solid, skips fun character member => solid character (List.mem_reverse.mp member),
    List.reverse_reverse]

end Text

theorem toInt_saturate {value : Int} (least : Int64.minValue.toInt ≤ value)
    (greatest : value ≤ Int64.maxValue.toInt) : (saturate value).toInt = value := by
  rw [saturate, if_neg (Int.not_lt.mpr least), if_neg (Int.not_lt.mpr greatest)]
  rw [Int64.toInt_minValue] at least
  rw [Int64.toInt_maxValue] at greatest
  exact Int64.toInt_ofInt_of_le least (by omega)

/-- No number above the greatest one is left of what saturates. -/
theorem toInt_saturate_of_nonneg {value : Int} (nonneg : 0 ≤ value) :
    (saturate value).toInt = min value Int64.maxValue.toInt := by
  have least := Int64.toInt_minValue
  have greatest := Int64.toInt_maxValue
  by_cases high : Int64.maxValue.toInt < value
  · rw [saturate, if_neg (by omega), if_pos high]
    omega
  · rw [toInt_saturate (by omega) (by omega)]
    omega

theorem toInt_saturate_le {left right : Int} (order : left ≤ right) :
    (saturate left).toInt ≤ (saturate right).toInt := by
  have least := (saturate right).le_toInt
  have greatest := (saturate left).toInt_le
  rw [Int64.toInt_maxValue] at greatest
  by_cases low : left < Int64.minValue.toInt
  · rw [saturate, if_pos low, Int64.toInt_minValue]
    exact least
  · by_cases high : Int64.maxValue.toInt < right
    · have top : saturate right = Int64.maxValue := by
        rw [saturate, if_neg (by omega), if_pos high]
      rw [top, Int64.toInt_maxValue]
      exact greatest
    · rw [toInt_saturate (by omega) (by omega), toInt_saturate (by omega) (by omega)]
      exact order

namespace Timestamp

/-- A time is what its text is read as. -/
theorem ofDecimal?_decimal (time : Timestamp) :
    ofDecimal? time.decimal.toList = some time := by
  have least := time.millis.le_toInt
  have greatest := time.millis.toInt_lt
  rw [decimal, String.toList_ofList, ofDecimal?, Decimal.signed?_integerText, Option.bind_some,
    Int64.toInt_minValue, Int64.toInt_maxValue, if_pos (by simp; omega), Int64.ofInt_toInt]

end Timestamp

namespace Store

/-- A marker is read back. -/
theorem markerTime_decimal (time : Timestamp) : markerTime (some time.decimal) = time := by
  have solid : Text.trim time.decimal.toList = time.decimal.toList := by
    rw [Timestamp.decimal, String.toList_ofList]
    exact Text.trim_eq_self fun character => Decimal.isBlank_of_mem_integerText
  rw [markerTime, Option.bind_some, solid, Timestamp.ofDecimal?_decimal]
  rfl

end Store

namespace Schedule

variable {last now later : Timestamp} {interval : UInt64} {backoff : Duration}

/-- The milliseconds that are asked for between a failed pass and the next one. -/
def pause (interval : UInt64) (backoff : Duration) : Nat :=
  min backoff.millis interval.toNat

/-- What is kept of them.  Only the low 64 bits of the backoff count, and what the
interval exceeds the longest one by is taken off. -/
def keptPause (interval : UInt64) (backoff : Duration) : Nat :=
  min (backoff.millis % UInt64.size) interval.toNat -
    (interval.toNat - longestInterval.toNat)

theorem toInt_longestInterval : (longestInterval.toNat : Int) = Int64.maxValue.toInt := rfl

/-- A metric is due when it was never processed or its interval has passed, where
intervals beyond the longest one count as that. -/
theorem isDue_iff_of_le (order : last.millis.toInt ≤ now.millis.toInt) :
    isDue last interval now ↔
      last = Timestamp.epoch ∨
        (min interval.toNat longestInterval.toNat : Int) ≤
          now.millis.toInt - last.millis.toInt := by
  have since : (now.since last).toInt =
      min (now.millis.toInt - last.millis.toInt) Int64.maxValue.toInt :=
    toInt_saturate_of_nonneg (by omega)
  have clamped : ((if interval ≤ longestInterval then interval else longestInterval).toNat : Int) =
      min interval.toNat longestInterval.toNat := by
    simp only [UInt64.le_iff_toNat_le]
    split <;> omega
  have greatest := toInt_longestInterval
  simp only [isDue, since, clamped, Bool.or_eq_true, beq_iff_eq, decide_eq_true_eq]
  refine or_congr_right ⟨fun passed => ?_, fun passed => ?_⟩ <;> omega

theorem toNat_backoff :
    (if UInt64.ofNat backoff.millis ≤ interval then UInt64.ofNat backoff.millis
      else interval).toNat = min (backoff.millis % UInt64.size) interval.toNat := by
  have low : (UInt64.ofNat backoff.millis).toNat = backoff.millis % UInt64.size :=
    UInt64.toNat_ofNat'
  simp only [UInt64.le_iff_toNat_le, low]
  split <;> omega

/-- The marker lies back by what the interval exceeds the kept pause. -/
theorem toInt_failureMarker (past : 0 ≤ now.millis.toInt) :
    (failureMarker now interval backoff).millis.toInt =
      now.millis.toInt -
        (min interval.toNat longestInterval.toNat - keptPause interval backoff : Int) := by
  have bound := now.millis.toInt_le
  have least := Int64.toInt_minValue
  have greatest := Int64.toInt_maxValue
  have longest := toInt_longestInterval
  have paused := @toNat_backoff interval backoff
  rw [failureMarker]
  generalize (if UInt64.ofNat backoff.millis ≤ interval then UInt64.ofNat backoff.millis
    else interval) = pause at paused ⊢
  have less : pause ≤ interval := by
    rw [UInt64.le_iff_toNat_le]
    omega
  rw [Timestamp.back, UInt64.toNat_sub_of_le interval pause less,
    toInt_saturate (by omega) (by omega), keptPause]
  omega

/-- After a failed pass a metric is due once the kept pause is over, or at once if
the marker is the one that stands for "never". -/
theorem isDue_failureMarker_iff_kept (past : 0 ≤ now.millis.toInt)
    (order : now.millis.toInt ≤ later.millis.toInt) :
    isDue (failureMarker now interval backoff) interval later ↔
      failureMarker now interval backoff = Timestamp.epoch ∨
        (keptPause interval backoff : Int) ≤ later.millis.toInt - now.millis.toInt := by
  have marker : (failureMarker now interval backoff).millis.toInt = _ := toInt_failureMarker past
  have less : keptPause interval backoff ≤ min interval.toNat longestInterval.toNat := by
    rw [keptPause]
    omega
  rw [isDue_iff_of_le (by omega), marker]
  refine or_congr_right ⟨fun passed => ?_, fun passed => ?_⟩ <;> omega

/-- Within the clock's readings an interval counts in full. -/
theorem isDue_iff (order : last.millis.toInt ≤ now.millis.toInt)
    (short : (interval.toNat : Int) ≤ now.millis.toInt) :
    isDue last interval now ↔
      last = Timestamp.epoch ∨ (interval.toNat : Int) ≤ now.millis.toInt - last.millis.toInt := by
  have bound := now.millis.toInt_le
  have longest := toInt_longestInterval
  have same : (min interval.toNat longestInterval.toNat : Int) = interval.toNat := by omega
  rw [isDue_iff_of_le order, same]

/-- A metric that is due stays due. -/
theorem isDue_of_le (due : isDue last interval now)
    (order : now.millis.toInt ≤ later.millis.toInt) : isDue last interval later := by
  have since : (now.since last).toInt ≤ (later.since last).toInt :=
    toInt_saturate_le (by omega)
  simp only [isDue, Bool.or_eq_true, decide_eq_true_eq] at due ⊢
  exact due.imp_right fun passed => Int.le_trans passed since

/-- After a failed pass a metric is due when the backoff or the interval has
passed, whichever is less. -/
theorem isDue_failureMarker_iff (order : last.millis.toInt ≤ now.millis.toInt)
    (short : (interval.toNat : Int) ≤ last.millis.toInt) (fits : backoff.millis < UInt64.size) :
    isDue (failureMarker last interval backoff) interval now ↔
      (min backoff.millis interval.toNat : Int) ≤ now.millis.toInt - last.millis.toInt := by
  have bound := last.millis.toInt_le
  have longest := toInt_longestInterval
  have kept : keptPause interval backoff = min backoff.millis interval.toNat := by
    rw [keptPause, Nat.mod_eq_of_lt fits]
    omega
  have marker : (failureMarker last interval backoff).millis.toInt = _ :=
    toInt_failureMarker (by omega)
  rw [isDue_failureMarker_iff_kept (by omega) order]
  constructor
  · rintro (never | passed)
    · rw [never] at marker
      have epoch : Timestamp.epoch.millis.toInt = 0 := rfl
      omega
    · omega
  · intro passed
    right
    omega

end Schedule
end InventoryGauges
