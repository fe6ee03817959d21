import InventoryGauges.Proofs.Schedule.Due

/-!
# The definitions that are due

The clock, the markers and the intervals are 64-bit numbers, and what is compared
is a saturated difference with a clamped interval.  For markers that are not
negative, and for intervals that need no clamping, this selects the definitions
that the integers select.
-/

namespace InventoryGauges
namespace Schedule

variable {marker now later : Timestamp} {interval : UInt64}

/-- A definition with a marker ahead of the clock is not due. -/
theorem isDue_iff_of_lt (ahead : now.millis.toInt < marker.millis.toInt) :
    isDue marker interval now ↔ marker = Timestamp.epoch := by
  have negative : (now.since marker).toInt ≤ (saturate (-1)).toInt :=
    toInt_saturate_le (by omega)
  have least : (saturate (-1)).toInt = -1 := rfl
  simp only [isDue, Bool.or_eq_true, beq_iff_eq, decide_eq_true_eq]
  refine or_iff_left ?_
  omega

/-- Whatever the marker is, the difference counts in integers; only the interval is
clamped. -/
theorem isDue_iff_min_le :
    isDue marker interval now ↔
      marker = Timestamp.epoch ∨
        (min interval.toNat longestInterval.toNat : Int) ≤
          now.millis.toInt - marker.millis.toInt := by
  rcases Int.lt_or_le now.millis.toInt marker.millis.toInt with ahead | order
  · rw [isDue_iff_of_lt ahead, or_iff_left]
    omega
  · exact isDue_iff_of_le order

/-- No interval beyond the longest one passes between two readings of the clock after
the epoch, so that clamping makes no difference there. -/
theorem isDue_iff_le (fits : 0 ≤ marker.millis.toInt ∨
      (interval.toNat : Int) ≤ Int64.maxValue.toInt) :
    isDue marker interval now ↔
      marker = Timestamp.epoch ∨
        (interval.toNat : Int) ≤ now.millis.toInt - marker.millis.toInt := by
  have greatest := Int64.toInt_maxValue
  have longest := toInt_longestInterval
  have bound := now.millis.toInt_le
  have epoch : marker.millis.toInt = 0 → marker = Timestamp.epoch := by
    intro zero
    exact congrArg Timestamp.mk (Int64.toInt_inj.mp zero)
  rw [isDue_iff_min_le]
  constructor
  · rintro (never | passed)
    · exact Or.inl never
    · by_cases short : (interval.toNat : Int) ≤ Int64.maxValue.toInt
      · right
        omega
      · left
        exact epoch (by omega)
  · rintro (never | passed)
    · exact Or.inl never
    · right
      omega

/-- The interval has passed since the marker that a definition may have, as a
difference of integers. -/
def Elapsed (interval : UInt64) (now : Timestamp) : Option Timestamp → Prop
  | none => True
  | some marker => marker = Timestamp.epoch ∨
      (interval.toNat : Int) ≤ now.millis.toInt - marker.millis.toInt

instance (marker? : Option Timestamp) : Decidable (Elapsed interval now marker?) :=
  match marker? with
  | none => inferInstanceAs (Decidable True)
  | some _ => inferInstanceAs (Decidable (_ ∨ _))

theorem isDue_getD_iff {marker? : Option Timestamp}
    (fits : ∀ marker ∈ marker?,
      0 ≤ marker.millis.toInt ∨ (interval.toNat : Int) ≤ Int64.maxValue.toInt) :
    isDue (marker?.getD Timestamp.epoch) interval now ↔ Elapsed interval now marker? := by
  cases marker? with
  | none => exact iff_of_true (by simp [isDue]) trivial
  | some marker => exact isDue_iff_le (fits marker rfl)

theorem mem_dueMetrics_iff {metrics : List Metric} {markers : Text.Map Timestamp}
    {metric : Metric} :
    metric ∈ dueMetrics metrics markers now ↔ metric ∈ metrics ∧
      isDue ((markers.get? metric.name).getD Timestamp.epoch) metric.interval now :=
  List.mem_filter

/-- The definitions that are due are those whose interval has passed, in their order
and as often as they are listed.  A definition that is due stays so, in every list and
at every later reading of the clock, for as long as it has the same marker. -/
theorem selects_elapsed (metrics : List Metric) (markers : Text.Map Timestamp)
    (now : Timestamp) :
    ((∀ metric ∈ metrics, ∀ marker ∈ markers.get? metric.name,
        0 ≤ marker.millis.toInt ∨ (metric.interval.toNat : Int) ≤ Int64.maxValue.toInt) →
      dueMetrics metrics markers now =
        metrics.filter fun metric => Elapsed metric.interval now (markers.get? metric.name)) ∧
    ∀ metric ∈ dueMetrics metrics markers now, ∀ later : Timestamp,
      now.millis.toInt ≤ later.millis.toInt → ∀ others laterMarkers, metric ∈ others →
        laterMarkers.get? metric.name = markers.get? metric.name →
          metric ∈ dueMetrics others laterMarkers later := by
  constructor
  · intro fits
    refine List.filter_congr fun metric member => ?_
    rw [Bool.eq_iff_iff, decide_eq_true_iff]
    exact isDue_getD_iff (fits metric member)
  · intro metric selected later order others laterMarkers listed same
    have due := (mem_dueMetrics_iff.mp selected).2
    refine mem_dueMetrics_iff.mpr ⟨listed, ?_⟩
    rw [same]
    exact isDue_of_le due order

/-- A negative marker and an interval beyond the longest one are not compared as
integers: here the interval is one millisecond longer than what has passed. -/
example : isDue ⟨-1⟩ 9223372036854775808 ⟨9223372036854775806⟩ ∧
    ¬ Elapsed 9223372036854775808 ⟨9223372036854775806⟩ (some ⟨-1⟩) := by
  decide

section Extremes

/-- A definition with a name and an interval. -/
def paced (name : String) (interval : UInt64) : Metric :=
  { name, className := "fvTenant", attributes := ["healthScore"], queryFilter := "", interval }

/-- Definitions, one of which is listed twice. -/
def pacedMetrics : List Metric :=
  [paced "stale" 1000, paced "fresh" 1000, paced "new" 1000, paced "ahead" 500,
    paced "endless" 18446744073709551615, paced "stale" 1000]

/-- The least marker, a recent one, the greatest and the one next to the epoch. -/
def extremeMarkers : Text.Map Timestamp :=
  .ofList [("stale", ⟨-9223372036854775808⟩), ("fresh", ⟨9500⟩),
    ("ahead", ⟨9223372036854775807⟩), ("endless", ⟨1⟩)]

/-- Where differences leave the range and an interval exceeds it, the definitions are
selected all the same. -/
theorem selects_elapsed_of_extremes :
    (∀ metric ∈ pacedMetrics, ∀ marker ∈ extremeMarkers.get? metric.name,
      0 ≤ marker.millis.toInt ∨ (metric.interval.toNat : Int) ≤ Int64.maxValue.toInt) ∧
    dueMetrics pacedMetrics extremeMarkers ⟨10000⟩ =
      [paced "stale" 1000, paced "new" 1000, paced "stale" 1000] ∧
    paced "stale" 1000 ∈
      dueMetrics [paced "stale" 1000] extremeMarkers ⟨9223372036854775807⟩ := by
  have fits : ∀ metric ∈ pacedMetrics, ∀ marker ∈ extremeMarkers.get? metric.name,
      0 ≤ marker.millis.toInt ∨ (metric.interval.toNat : Int) ≤ Int64.maxValue.toInt := by
    decide
  obtain ⟨exact, stays⟩ := selects_elapsed pacedMetrics extremeMarkers ⟨10000⟩
  have selected : dueMetrics pacedMetrics extremeMarkers ⟨10000⟩ =
      [paced "stale" 1000, paced "new" 1000, paced "stale" 1000] :=
    (exact fits).trans (by decide)
  exact ⟨fits, selected, stays _ (by rw [selected]; decide) _ (by decide) _ _ (by decide) rfl⟩

end Extremes

end Schedule
end InventoryGauges
