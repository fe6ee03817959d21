import InventoryGauges.Proofs.Schedule.Due

/-!
# The pause after a failed pass

A failed pass leaves a marker in the past, so that the metric is due again after
its pause: the backoff or the interval, whichever is less.  For which clock
readings, intervals and backoffs this is so to the millisecond is told exactly.
-/

namespace InventoryGauges

namespace Schedule

variable {now later : Timestamp} {interval : UInt64} {backoff : Duration}

/-- All of the pause is kept if there is none, or if the interval is no longer than
the longest one and the low 64 bits of the backoff do as well as all of it. -/
theorem keptPause_eq_pause_iff :
    keptPause interval backoff = pause interval backoff ↔
      pause interval backoff = 0 ∨ interval ≤ longestInterval ∧
        (backoff.millis < UInt64.size ∨ interval.toNat ≤ backoff.millis % UInt64.size) := by
  have size : UInt64.size = 18446744073709551616 := rfl
  have longest : longestInterval.toNat = 9223372036854775807 := rfl
  have bound := interval.toNat_lt
  rw [keptPause, pause, UInt64.le_iff_toNat_le, size, longest]
  omega

/-- What it takes that a metric is due exactly once its pause is over. -/
structure KeepsPause (now : Timestamp) (interval : UInt64) (backoff : Duration) : Prop where
  /-- All of the pause is kept, unless the clock ends before any of it is over. -/
  full : (pause interval backoff = 0 ∨ interval ≤ longestInterval ∧
      (backoff.millis < UInt64.size ∨ interval.toNat ≤ backoff.millis % UInt64.size)) ∨
    Int64.maxValue.toInt <
      now.millis.toInt + min (keptPause interval backoff) (pause interval backoff)
  /-- The marker does not stand for "never", unless there is no pause. -/
  marked : failureMarker now interval backoff = Timestamp.epoch → pause interval backoff = 0

theorem exists_later {elapsed : Nat} (past : 0 ≤ now.millis.toInt)
    (fits : now.millis.toInt + elapsed ≤ Int64.maxValue.toInt) :
    ∃ later : Timestamp, later.millis.toInt = now.millis.toInt + elapsed := by
  have least := Int64.toInt_minValue
  exact ⟨.ofInt (now.millis.toInt + elapsed), toInt_saturate (by omega) fits⟩

section Exact

variable (past : 0 ≤ now.millis.toInt)
include past

/-- If the pause is kept, then the metric is due once it is over. -/
theorem KeepsPause.isDue_iff (keeps : KeepsPause now interval backoff)
    (order : now.millis.toInt ≤ later.millis.toInt) :
    isDue (failureMarker now interval backoff) interval later ↔
      (pause interval backoff : Int) ≤ later.millis.toInt - now.millis.toInt := by
  have bound := later.millis.toInt_le
  have greatest := Int64.toInt_maxValue
  have same : keptPause interval backoff = pause interval backoff ∨
      later.millis.toInt - now.millis.toInt <
        min (keptPause interval backoff) (pause interval backoff) := by
    refine keeps.full.imp keptPause_eq_pause_iff.mpr fun beyond => ?_
    omega
  rw [isDue_failureMarker_iff_kept past order]
  constructor
  · rintro (never | passed)
    · have none := keeps.marked never
      omega
    · omega
  · intro passed
    right
    omega

section Exactly

variable (exactly : ∀ later : Timestamp, now.millis.toInt ≤ later.millis.toInt →
  (isDue (failureMarker now interval backoff) interval later ↔
    (pause interval backoff : Int) ≤ later.millis.toInt - now.millis.toInt))
include exactly

theorem pause_eq_zero_of_never
    (never : failureMarker now interval backoff = Timestamp.epoch) :
    pause interval backoff = 0 := by
  have due := (isDue_failureMarker_iff_kept past (Int.le_refl _)).mpr (Or.inl never)
  have ended := (exactly now (Int.le_refl _)).mp due
  omega

/-- If a metric is due exactly once its pause is over, then the pause is kept: else
the metric would be due too early or too late when the lesser of the two pauses is
over. -/
theorem keepsPause_of_exactly : KeepsPause now interval backoff where
  full := by
    refine Classical.byContradiction fun lost => ?_
    obtain ⟨differs, early⟩ := not_or.mp lost
    rw [← keptPause_eq_pause_iff] at differs
    obtain ⟨later, passed⟩ := exists_later past (Int.not_lt.mp early)
    have order : now.millis.toInt ≤ later.millis.toInt := by omega
    have ends := exactly later order
    rw [isDue_failureMarker_iff_kept past order] at ends
    rcases Nat.lt_or_gt_of_ne differs with less | more
    · have ended := ends.mp (Or.inr (by omega))
      omega
    · rcases ends.mpr (by omega) with never | kept
      · exact differs (keptPause_eq_pause_iff.mpr
          (Or.inl (pause_eq_zero_of_never past exactly never)))
      · omega
  marked := pause_eq_zero_of_never past exactly

end Exactly

end Exact

/-- After a failed pass a metric is due once what is kept of its pause is over, or
at once if its marker stands for "never".  This is the pause that was asked for
exactly if that is kept. -/
theorem isDue_after_pause_iff (past : 0 ≤ now.millis.toInt) :
    (∀ later : Timestamp, now.millis.toInt ≤ later.millis.toInt →
      (isDue (failureMarker now interval backoff) interval later ↔
        failureMarker now interval backoff = Timestamp.epoch ∨
          (keptPause interval backoff : Int) ≤ later.millis.toInt - now.millis.toInt)) ∧
    ((∀ later : Timestamp, now.millis.toInt ≤ later.millis.toInt →
      (isDue (failureMarker now interval backoff) interval later ↔
        (pause interval backoff : Int) ≤ later.millis.toInt - now.millis.toInt)) ↔
      KeepsPause now interval backoff) :=
  ⟨fun _ order => isDue_failureMarker_iff_kept past order, keepsPause_of_exactly past,
    fun keeps _ order => keeps.isDue_iff past order⟩

/-- The backoff is kept to the millisecond. -/
theorem isDue_after_backoff :
    ¬ isDue (failureMarker ⟨100000⟩ 60000 (Duration.ofSeconds 5)) 60000 ⟨104999⟩ ∧
      isDue (failureMarker ⟨100000⟩ 60000 (Duration.ofSeconds 5)) 60000 ⟨105000⟩ := by
  have keeps : KeepsPause ⟨100000⟩ 60000 (Duration.ofSeconds 5) :=
    ⟨Or.inl (by decide), by decide⟩
  have exactly := (isDue_after_pause_iff (by decide)).2.mpr keeps
  exact ⟨fun early => absurd ((exactly ⟨104999⟩ (by decide)).mp early) (by decide),
    (exactly ⟨105000⟩ (by decide)).mpr (by decide)⟩

/-- A marker that stands for "never" by chance lets the metric be due at once. -/
example : isDue (failureMarker ⟨1000⟩ 1500 (Duration.ofMillis 500)) 1500 ⟨1000⟩ := by decide

/-- So does an interval that exceeds the longest one by more than the pause. -/
example : isDue (failureMarker ⟨1700000000000⟩ 18446744073709551615 (Duration.ofSeconds 5))
    18446744073709551615 ⟨1700000000000⟩ := by decide

/-- Of a backoff beyond 64 bits 384 milliseconds are left, and so the metric is due
before its interval of one second is over. -/
theorem isDue_before_interval :
    Metric.leastInterval ≤ 1000 ∧
      isDue (failureMarker ⟨100000⟩ 1000 (Duration.ofSeconds 18446744073709552)) 1000
        ⟨100384⟩ ∧
      ¬ (pause 1000 (Duration.ofSeconds 18446744073709552) : Int) ≤ 100384 - 100000 := by
  decide

end Schedule
end InventoryGauges
