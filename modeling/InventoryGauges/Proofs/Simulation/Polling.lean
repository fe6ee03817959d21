import InventoryGauges.Proofs.Simulation.Keeping
import InventoryGauges.Simulation.Loop
import Mathlib.Data.List.Chain

/-!
# Logins and cycles until a cancellation

Two loops race their pauses against a cancellation: logins come again after a
pause until one succeeds, and cycles come one after another, each after a pause.
How long a cycle takes and what it does is left open.
-/

namespace InventoryGauges
namespace Simulation

/-! ## Loops of any pace -/

/-- Whether an instant comes before a cancellation; it does if there is none. -/
def isBefore (cancel? : Option Nat) (instant : Nat) : Bool :=
  cancel?.all (instant < ·)

/-- Cycles of any duration, by their number; none turns the clock back. -/
structure Cycles where
  /-- What a cycle makes of a world. -/
  run : Nat → World → World
  /-- A cycle takes some time or none. -/
  forward : ∀ number world, world.elapsed ≤ (run number world).elapsed

/-- The cycles of a plan. -/
def Cycles.planned (plan : Plan) : Cycles where
  run := fun _ world => (Simulation.run (cycle plan) world).2
  forward := fun _ => elapsed_le_run_cycle plan

/-- A cycle that was run. -/
structure Span where
  /-- The world in which the cycle began. -/
  begun : World
  /-- The world in which it ended. -/
  ended : World

/-- What a loop of cycles did. -/
structure Course where
  /-- The cycles, in their order. -/
  spans : List Span
  /-- Whether the loop has returned. -/
  returned : Bool
  /-- The world in which it returned, or in which it goes on. -/
  final : World

/-- What a loop did that began with a cycle. -/
def Course.after (span : Span) (course : Course) : Course :=
  { course with spans := span :: course.spans }

/-- Run cycles from a number on until cancelled, at most `turns` of them. -/
def pollBy (debounce : Nat) (cancel? : Option Nat) (cycles : Cycles) :
    Nat → Nat → World → Course
  | 0, _, world => ⟨[], false, world⟩
  | turns + 1, number, world =>
      let (cancelled, world) := pauseOrCancel debounce cancel? world
      if cancelled then ⟨[], true, world⟩
      else
        let ended := cycles.run number world
        (pollBy debounce cancel? cycles turns (number + 1) ended).after ⟨world, ended⟩

section Pause

variable {pause : Nat} {cancel? : Option Nat} {world : World}

theorem isBefore_iff {instant : Nat} :
    isBefore cancel? instant ↔ ∀ cancel ∈ cancel?, instant < cancel := by
  cases cancel? <;> simp [isBefore]

/-- A pause that the cancellation does not come before goes on to its end. -/
theorem pauseOrCancel_of_le (reaches : ∀ cancel ∈ cancel?, world.elapsed + pause ≤ cancel) :
    pauseOrCancel pause cancel? world = (false, world.setClock (world.elapsed + pause)) := by
  cases cancel? with
  | none => rfl
  | some cancel => exact if_neg (Nat.not_lt.mpr (reaches cancel rfl))

/-- A pause during which the cancellation comes ends there. -/
theorem pauseOrCancel_of_lt {cancel : Nat} (earlier : cancel < world.elapsed + pause) :
    pauseOrCancel pause (some cancel) world = (true, world.setClock cancel) :=
  if_pos earlier

theorem elapsed_setClock_add : (world.setClock (world.elapsed + pause)).elapsed =
    world.elapsed + pause :=
  Nat.max_eq_right (Nat.le_add_right _ _)

theorem forall_le_or_exists_lt (cancel? : Option Nat) (instant : Nat) :
    (∀ cancel ∈ cancel?, instant ≤ cancel) ∨
      ∃ cancel, cancel? = some cancel ∧ cancel < instant := by
  cases cancel? with
  | none => exact Or.inl nofun
  | some cancel =>
      rcases Nat.lt_or_ge cancel instant with earlier | reaches
      · exact Or.inr ⟨cancel, rfl, earlier⟩
      · exact Or.inl fun _ same => Option.some.inj same ▸ reaches

end Pause

/-! ## Logins -/

/-- How logins end of which the first ones fail. -/
structure Acquires (retry failures : Nat) (cancel? : Option Nat) (before : World)
    (acquisition : Acquisition) (after : World) : Prop where
  /-- There is a session unless the cancellation comes before the last failure is over. -/
  session_iff : acquisition.session ↔
    failures = 0 ∨ isBefore cancel? (before.elapsed + failures * retry)
  /-- A session comes with one login more than there are failures. -/
  of_session : acquisition.session → acquisition.attempts = failures + 1 ∧
    after.elapsed = before.elapsed + failures * retry
  /-- Without a session, there was a login at the start and after each pause. -/
  of_cancelled : ¬ acquisition.session → ∃ cancel, cancel? = some cancel ∧
    acquisition.attempts = (cancel - before.elapsed) / retry + 1 ∧ after.elapsed = cancel
  /-- Each login is counted. -/
  counted : after.statistics.count .sessionAttempts =
    before.statistics.count .sessionAttempts + acquisition.attempts

theorem count_sessionAttempts (world : World) (amount : Nat) :
    (world.count .sessionAttempts amount).statistics.count .sessionAttempts =
      world.statistics.count .sessionAttempts + amount := by
  rw [World.count, Statistics.count_raise, if_pos rfl]

section Logins

variable {retry failures : Nat} {cancel? : Option Nat} {world : World}

theorem add_retry_add (elapsed retry count : Nat) :
    elapsed + retry + count * retry = elapsed + (count + 1) * retry := by
  rw [Nat.succ_mul, Nat.add_assoc, Nat.add_comm retry]

/-- After a first failure, logins end as they do from the end of the pause on. -/
theorem Acquires.next {next after : World} {acquisition : Acquisition} (positive : 0 < retry)
    (before : isBefore cancel? (world.elapsed + retry))
    (reached : next.elapsed = world.elapsed + retry)
    (counted : next.statistics.count .sessionAttempts =
      world.statistics.count .sessionAttempts + 1)
    (rest : Acquires retry failures cancel? next acquisition after) :
    Acquires retry (failures + 1) cancel? world
      { acquisition with attempts := acquisition.attempts + 1 } after where
  session_iff := by
    rw [← add_retry_add, ← reached]
    refine rest.session_iff.trans ⟨fun session => Or.inr ?_, fun session => ?_⟩
    · rcases session with rfl | session
      · rwa [Nat.zero_mul, Nat.add_zero, reached]
      · exact session
    · exact Or.inr (session.resolve_left (Nat.succ_ne_zero failures))
  of_session := by
    intro session
    obtain ⟨attempts, elapsed⟩ := rest.of_session session
    rw [← add_retry_add, ← reached]
    exact ⟨congrArg (· + 1) attempts, elapsed⟩
  of_cancelled := by
    intro none
    obtain ⟨cancel, rfl, attempts, elapsed⟩ := rest.of_cancelled none
    have later := isBefore_iff.mp before cancel rfl
    have quotient : (cancel - world.elapsed) / retry = (cancel - next.elapsed) / retry + 1 := by
      rw [reached, Nat.sub_add_eq, Nat.div_eq_sub_div positive (by omega)]
    refine ⟨cancel, rfl, ?_, elapsed⟩
    rw [quotient, ← attempts]
  counted := by
    rw [rest.counted, counted, Nat.add_assoc, Nat.add_comm 1]

/-- If the cancellation comes during the first pause, there is one login. -/
theorem Acquires.cancelled {cancel : Nat} (earlier : cancel < world.elapsed + retry)
    (later : world.elapsed ≤ cancel) :
    Acquires retry (failures + 1) (some cancel) world ⟨false, 1⟩
      ((world.count .sessionAttempts 1).setClock cancel) where
  session_iff := by
    refine iff_of_false Bool.false_ne_true ?_
    rintro (none | before)
    · cases none
    · have last := isBefore_iff.mp before cancel rfl
      have first : retry ≤ (failures + 1) * retry := Nat.le_mul_of_pos_left retry failures.succ_pos
      omega
  of_session := fun session => absurd session Bool.false_ne_true
  of_cancelled := by
    refine fun _ => ⟨cancel, rfl, ?_, Nat.max_eq_right later⟩
    rw [Nat.div_eq_of_lt (Nat.sub_lt_left_of_lt_add later earlier)]
  counted := count_sessionAttempts world 1

end Logins

/-! ## Cycles -/

/-- How cycles follow a world: each begins after a pause and runs to its end. -/
structure Paced (debounce : Nat) (cycles : Cycles) (number : Nat) (world : World)
    (spans : List Span) : Prop where
  /-- The first one begins after a pause. -/
  first : ∀ span ∈ spans.head?, span.begun.elapsed = world.elapsed + debounce
  /-- Each other one begins after a pause when the one before has ended. -/
  next : spans.IsChain fun earlier later => later.begun.elapsed = earlier.ended.elapsed + debounce
  /-- Each one runs to its end. -/
  whole : ∀ place span, spans[place]? = some span →
    span.ended = cycles.run (number + place) span.begun
  /-- No two run at once. -/
  alone : spans.Pairwise fun earlier later => earlier.ended.elapsed < later.begun.elapsed

section Polls

variable {debounce turns number : Nat} {cancel? : Option Nat} {cycles : Cycles} {world : World}

theorem pollBy_of_le (reaches : ∀ cancel ∈ cancel?, world.elapsed + debounce ≤ cancel) :
    pollBy debounce cancel? cycles (turns + 1) number world =
      let begun := world.setClock (world.elapsed + debounce)
      (pollBy debounce cancel? cycles turns (number + 1) (cycles.run number begun)).after
        ⟨begun, cycles.run number begun⟩ := by
  simp only [pollBy, pauseOrCancel_of_le reaches]
  rfl

theorem pollBy_of_lt {cancel : Nat} (earlier : cancel < world.elapsed + debounce) :
    pollBy debounce (some cancel) cycles (turns + 1) number world =
      ⟨[], true, world.setClock cancel⟩ := by
  simp only [pollBy, pauseOrCancel_of_lt earlier]
  rfl

/-- No cycle begins before the first pause is over. -/
theorem elapsed_add_le {span : Span}
    (member : span ∈ (pollBy debounce cancel? cycles turns number world).spans) :
    world.elapsed + debounce ≤ span.begun.elapsed := by
  induction turns generalizing number world with
  | zero => cases member
  | succ turns hypothesis =>
      rcases forall_le_or_exists_lt cancel? (world.elapsed + debounce) with
        reaches | ⟨cancel, rfl, earlier⟩
      · rw [pollBy_of_le reaches] at member
        have reached : (world.setClock (world.elapsed + debounce)).elapsed =
            world.elapsed + debounce := elapsed_setClock_add
        rcases List.mem_cons.mp member with rfl | member
        · exact reached.ge
        · have later := hypothesis member
          have forward := cycles.forward number (world.setClock (world.elapsed + debounce))
          omega
      · rw [pollBy_of_lt earlier] at member
        cases member

/-- Cycles come one after another, each after a pause. -/
theorem paced (positive : 0 < debounce) :
    Paced debounce cycles number world
      (pollBy debounce cancel? cycles turns number world).spans := by
  induction turns generalizing number world with
  | zero => exact ⟨nofun, .nil, nofun, .nil⟩
  | succ turns hypothesis =>
      rcases forall_le_or_exists_lt cancel? (world.elapsed + debounce) with
        reaches | ⟨cancel, rfl, earlier⟩
      · rw [pollBy_of_le reaches]
        have rest := @hypothesis (number + 1)
          (cycles.run number (world.setClock (world.elapsed + debounce)))
        constructor
        case first =>
          rintro span ⟨⟩
          exact elapsed_setClock_add
        case next => exact List.isChain_cons.mpr ⟨rest.first, rest.next⟩
        case whole =>
          intro place span found
          cases place with
          | zero =>
              cases found
              rfl
          | succ place =>
              rw [Nat.add_succ, ← Nat.succ_add]
              exact rest.whole place span found
        case alone =>
          refine List.pairwise_cons.mpr ⟨fun later member => ?_, rest.alone⟩
          exact (Nat.lt_add_of_pos_right positive).trans_le (elapsed_add_le member)
      · rw [pollBy_of_lt earlier]
        exact ⟨nofun, .nil, nofun, .nil⟩

end Polls

end Simulation
end InventoryGauges
