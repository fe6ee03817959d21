import InventoryGauges.Proofs.Cycle.Tallied
import InventoryGauges.Proofs.Simulation.Cycle
import Mathlib.Algebra.Order.BigOperators.Group.List
import Mathlib.Algebra.Order.Ring.Nat

/-!
# What simulated rounds tally

In a simulated world, the counters of published and of withdrawn gauges keep up
with the calls that the gateway accepted, as long as no pass is cut off.
-/

namespace InventoryGauges

theorem Event.countP_call? (counter : Counter) (events : List Event) :
    (events.filterMap call?).countP (fun call => counter.tallies call.1 && call.2) =
      totalAccepted counter events := by
  induction events with
  | nil => rfl
  | cons event events hypothesis =>
      rw [totalAccepted_cons, List.filterMap_cons, ← hypothesis]
      cases event with
      | gateway call answer => exact List.countP_cons.trans (Nat.add_comm _ _)
      | store _ _ | query _ _ _ | unanswered _ _ | wipe _ | clock _ | count _ _ | deadline =>
          exact (Nat.zero_add _).symm

namespace Simulation

namespace World

/-- The accepted calls of a world that a counter tallies. -/
def accepted (counter : Counter) (world : World) : Nat :=
  world.calls.countP fun call => counter.tallies call.1 && call.2

/-- A counter is the number of accepted calls that it tallies. -/
def Matches (counter : Counter) (world : World) : Prop :=
  world.statistics.count counter = world.accepted counter

/-- Whether events account for the calls to the gateway and for the counters,
whatever becomes of the store. -/
structure Seen (before : World) (events : List Event) (after : World) : Prop where
  /-- The events account for the calls to the gateway. -/
  calls : after.calls = before.calls ++ events.filterMap Event.call?
  /-- The events account for the counters. -/
  counts : ∀ counter, after.statistics.count counter =
    before.statistics.count counter + Event.totalRaised counter events

section Seen

variable {before middle after : World} {first last events : List Event}

theorem Tells.seen (tells : before.Tells events after) : before.Seen events after :=
  ⟨tells.calls, tells.counts⟩

theorem Seen.trans (early : before.Seen first middle) (late : middle.Seen last after) :
    before.Seen (first ++ last) after where
  calls := by
    rw [late.calls, early.calls, List.filterMap_append, List.append_assoc]
  counts := by
    intro counter
    rw [late.counts, early.counts, Event.totalRaised_append, Nat.add_assoc]

theorem Seen.accepted (seen : before.Seen events after) (counter : Counter) :
    after.accepted counter = before.accepted counter + Event.totalAccepted counter events := by
  rw [World.accepted, seen.calls, List.countP_append, Event.countP_call?]
  rfl

end Seen

end World

/-- Worlds that cycles and reaps lead to, each with its own plan.  In between,
anything may change but the calls to the gateway and the counters. -/
inductive Reached (first : World) : World → Prop
  | start : Reached first first
  | cycle {world : World} (plan : Plan) (reached : Reached first world) :
      Reached first (run (cycle plan) world).2
  | reap {world : World} (plan : Plan) (active : Text.Set) (reached : Reached first world) :
      Reached first (run (work plan (Cycle.reap plan.schedule active)) world).2
  | change {world other : World} (reached : Reached first world)
      (unseen : world.Seen [] other) : Reached first other

/-- A simulated reap is one of its runs. -/
theorem exists_run_of_reap (plan : Plan) (active : Text.Set) (world : World) :
    ∃ events count, Program.Finishes Work.Answered (Cycle.reap plan.schedule active) events count ∧
      world.Tells events (run (work plan (Cycle.reap plan.schedule active)) world).2 := by
  have asks := Cycle.asks_reap plan.schedule active
  obtain ⟨events, ends, tells⟩ := (follows_work plan
    (asks.mono fun _ => Work.Request.IsPlain.hasRoom)).exists_told_of_run world
  rw [List.map_id] at tells
  rw [List.nil_append] at ends
  rw [run]
  cases result : ((work plan (Cycle.reap plan.schedule active)).run World.setClock world).1 with
  | none =>
      rw [result] at ends
      exact absurd ends (Work.not_stalls_of_asks asks)
  | some count =>
      rw [result] at ends
      exact ⟨events, count, ends, tells⟩

/-- What happened up to some world is told by rounds. -/
theorem Reached.exists_rounds {first world : World} (reached : Reached first world) :
    ∃ rounds : List (List Moment), (∀ moments ∈ rounds, Cycle.Round moments) ∧
      first.Seen (rounds.flatten.map Moment.event) world := by
  have onward {before after : World} {rounds : List (List Moment)} {moments : List Moment}
      (all : ∀ moments ∈ rounds, Cycle.Round moments) (round : Cycle.Round moments)
      (early : first.Seen (rounds.flatten.map Moment.event) before)
      (late : before.Seen (moments.map Moment.event) after) :
      ∃ rounds : List (List Moment), (∀ moments ∈ rounds, Cycle.Round moments) ∧
        first.Seen (rounds.flatten.map Moment.event) after := by
    refine ⟨rounds ++ [moments], List.forall_mem_append.mpr
      ⟨all, List.forall_mem_singleton.mpr round⟩, ?_⟩
    rw [List.flatten_append, List.flatten_singleton, List.map_append]
    exact early.trans late
  induction reached with
  | start => exact ⟨[], List.forall_mem_nil _, (List.append_nil _).symm, fun _ => rfl⟩
  | cycle plan _ hypothesis =>
      obtain ⟨rounds, all, early⟩ := hypothesis
      obtain ⟨moments, finishes, tells⟩ := exists_run_of_cycle plan _
      exact onward all (.cycle finishes) early tells.seen
  | reap plan active _ hypothesis =>
      obtain ⟨rounds, all, early⟩ := hypothesis
      obtain ⟨events, count, finishes, tells⟩ := exists_run_of_reap plan active _
      refine onward all (.reap finishes) early ?_
      rw [Moment.map_event_ofMain]
      exact tells.seen
  | change _ unseen hypothesis =>
      obtain ⟨rounds, all, early⟩ := hypothesis
      have late := early.trans unseen
      rw [List.append_nil] at late
      exact ⟨rounds, all, late⟩

/-- Whenever no operation is in progress, the counters of published and of
withdrawn gauges match the gateway but for the calls that were missed: those
after which a pass was cut off before it counted them.  In particular, the
counters are never too high, and they match unless some pass was cut off. -/
theorem counters_match_unless_missed {counter : Counter} (isTally : counter.IsTally) :
    (∀ rounds : List (List Moment), (∀ moments ∈ rounds, Cycle.Round moments) →
      Event.totalAccepted counter (rounds.flatten.map Moment.event) =
        Event.totalRaised counter (rounds.flatten.map Moment.event) +
          (rounds.map (Moment.missed counter)).sum) ∧
      ∀ first world : World, Reached first world → first.Matches counter →
        (∃ rounds : List (List Moment), (∀ moments ∈ rounds, Cycle.Round moments) ∧
          first.Seen (rounds.flatten.map Moment.event) world ∧
          (world.Matches counter ↔ ∀ moments ∈ rounds, Moment.missed counter moments = 0)) ∧
        world.statistics.count counter ≤ world.accepted counter ∧
          (world.statistics.count (.samples .timeout) =
            first.statistics.count (.samples .timeout) → world.Matches counter) := by
  refine ⟨fun rounds all => Cycle.totalAccepted_of_rounds isTally all,
    fun first world reached start => ?_⟩
  obtain ⟨rounds, all, seen⟩ := reached.exists_rounds
  have total : world.statistics.count counter + (rounds.map (Moment.missed counter)).sum =
      world.accepted counter := by
    rw [seen.accepted, seen.counts, Cycle.totalAccepted_of_rounds isTally all, start, Nat.add_assoc]
  refine ⟨⟨rounds, all, seen, ?_⟩, total ▸ Nat.le_add_right _ _, fun same => ?_⟩
  · rw [World.Matches, ← total, Nat.left_eq_add, List.sum_eq_zero_iff, List.forall_mem_map]
  · have inTime : Event.totalRaised (.samples .timeout) (rounds.flatten.map Moment.event) = 0 :=
      Nat.left_eq_add.mp (same.symm.trans (seen.counts _))
    rw [Cycle.sum_missed_eq_zero isTally all inTime, Nat.add_zero] at total
    exact total

namespace Example

/-- A definition of one metric, which was not processed. -/
def unsampled : World :=
  { start := 1000000
    contents := Text.Map.ofList [(Store.metricsKey, "[[\"a\",\"c\",[\"x\"],\"\",9]]")] }

/-- Two objects for it, whose gauges are pushed one after another within a tenth
of a second. -/
def pushing (delay : Nat) : Plan :=
  { inventory := Text.Map.ofList [("c", ⟨0, .objects
      [⟨[("dn", .string "o"), ("x", .string "1")]⟩, ⟨[("dn", .string "p"), ("x", .string "2")]⟩]⟩)]
    gateway := { pushDelay := delay }
    schedule := { Schedule.standard with
      sampleTimeout := Duration.ofMillis 100, pushConcurrency := 1 } }

end Example

/-- If there is time for both gauges, then both are counted. -/
theorem counters_match_of_two :
    Counter.gaugesPushed.IsTally ∧ Reached Example.unsampled
        (run (cycle (Example.pushing 40)) Example.unsampled).2 ∧
      (run (cycle (Example.pushing 40)) Example.unsampled).2.accepted .gaugesPushed = 2 ∧
      (run (cycle (Example.pushing 40)) Example.unsampled).2.Matches .gaugesPushed := by
  have reached : Reached Example.unsampled (run (cycle (Example.pushing 40)) Example.unsampled).2 :=
    .cycle _ .start
  refine ⟨Or.inl rfl, reached, by decide +kernel, ?_⟩
  exact ((counters_match_unless_missed (Or.inl rfl)).2 _ _ reached rfl).2.2 (by decide +kernel)

/-- If there is time for only one of them, then it is not counted. -/
theorem not_matches_of_cutOff :
    Reached Example.unsampled (run (cycle (Example.pushing 60)) Example.unsampled).2 ∧
      Example.unsampled.Matches .gaugesPushed ∧
      (run (cycle (Example.pushing 60)) Example.unsampled).2.accepted .gaugesPushed = 1 ∧
      (run (cycle (Example.pushing 60)) Example.unsampled).2.statistics.count .gaugesPushed = 0 ∧
      ¬ (run (cycle (Example.pushing 60)) Example.unsampled).2.Matches .gaugesPushed := by
  have accepted :
      (run (cycle (Example.pushing 60)) Example.unsampled).2.accepted .gaugesPushed = 1 := by
    decide +kernel
  refine ⟨.cycle _ .start, rfl, accepted, by decide +kernel, ?_⟩
  rw [World.Matches, accepted]
  decide +kernel

end Simulation
end InventoryGauges
