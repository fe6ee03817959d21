import InventoryGauges.Proofs.Cycle.Accounting
import InventoryGauges.Proofs.Simulation.Cycle
import InventoryGauges.Proofs.Simulation.Keeping

/-!
# What simulated cycles count

The counters of a simulated world grow by what the report of a cycle says.
-/

namespace InventoryGauges
namespace Simulation

/-- A simulated cycle is one of the runs of a cycle.  It raises the counters as
far as that run does, and so it is itself counted once. -/
theorem exists_counted_of_cycle (plan : Plan) (world : World) :
    ∃ moments, Program.Finishes (Cycle.TimedAnswered plan.schedule) (Cycle.cycle plan.schedule)
        moments (run (cycle plan) world).1 ∧
      (∀ counter, (run (cycle plan) world).2.statistics.count counter =
        world.statistics.count counter +
          Event.totalRaised counter (moments.map Moment.event)) ∧
      (run (cycle plan) world).2.statistics.cycles = world.statistics.cycles + 1 := by
  obtain ⟨moments, finishes, tells⟩ := exists_run_of_cycle plan world
  obtain ⟨-, once, -⟩ := Cycle.accounts_of_finishes_cycle
    (finishes.mono fun _ _ _ => Cycle.TimedAnswered.fragile)
  exact ⟨moments, finishes, tells.counts, (tells.counts .cycles).trans (congrArg (_ + ·) once)⟩

/-- However its passes end, whatever fails and wherever a pass breaks down, a cycle
accounts for each pass that was due once, in its report as in the counters, and is
counted once itself.  If it cannot read the definitions or when they were processed, then
none is due and none is counted. -/
theorem accounted_once :
    (∀ (schedule : Schedule) (moments : List Moment) (report : Cycle.Report),
      Program.Finishes (Cycle.FragileAnswered schedule) (Cycle.cycle schedule) moments report →
        report.Accounts (Event.totalRaised · (moments.map Moment.event)) ∧
          Event.totalRaised .cycles (moments.map Moment.event) = 1 ∧
          (Cycle.Unread moments → report.due = 0 ∧
            ∀ outcome, Event.totalRaised (.samples outcome) (moments.map Moment.event) = 0)) ∧
      ∀ (plan : Plan) (world : World), ∃ moments,
        Program.Finishes (Cycle.TimedAnswered plan.schedule) (Cycle.cycle plan.schedule) moments
            (run (cycle plan) world).1 ∧
          (∀ counter, (run (cycle plan) world).2.statistics.count counter =
            world.statistics.count counter +
              Event.totalRaised counter (moments.map Moment.event)) ∧
          (run (cycle plan) world).2.statistics.cycles = world.statistics.cycles + 1 := by
  refine ⟨fun schedule moments report finishes => ?_, exists_counted_of_cycle⟩
  obtain ⟨accounts, once, none⟩ := Cycle.accounts_of_finishes_cycle finishes
  refine ⟨accounts, once, fun unread => ⟨none unread, fun outcome => ?_⟩⟩
  have due := none unread
  obtain ⟨total, -, succeeded, failed, aborted, -⟩ := accounts
  cases outcome <;> omega

namespace Example

/-- Definitions of four metrics, none of which was processed. -/
def world : World :=
  { start := 1000000
    contents := Text.Map.ofList [(Store.metricsKey,
      "[[\"a\",\"c\",[\"x\"],\"\",9],[\"b\",\"d\",[\"x\"],\"\",9]," ++
        "[\"c\",\"e\",[\"x\"],\"\",9],[\"d\",\"f\",[\"x\"],\"\",9]]")] }

/-- An inventory that answers one query in time, one much too late, one never
and one with an error. -/
def plan : Plan :=
  { inventory := Text.Map.ofList
      [("c", ⟨0, .objects []⟩), ("d", ⟨70000, .objects []⟩),
        ("e", ⟨0, .breaks⟩), ("f", ⟨0, .fails (.transport "")⟩)] }

end Example

/-- Of four passes that are due, one succeeds, one fails and two never end. -/
theorem accounted_once_of_four :
    ∃ moments, Program.Finishes (Cycle.TimedAnswered Example.plan.schedule)
        (Cycle.cycle Example.plan.schedule) moments ⟨4, 4, 1, 1, 2, 0⟩ ∧
      Event.totalRaised (.samples .success) (moments.map Moment.event) = 1 ∧
      Event.totalRaised (.samples .failure) (moments.map Moment.event) = 1 ∧
      Event.totalRaised (.samples .timeout) (moments.map Moment.event) +
        Event.totalRaised (.samples .panic) (moments.map Moment.event) = 2 := by
  have report : (run (cycle Example.plan) Example.world).1 = ⟨4, 4, 1, 1, 2, 0⟩ := by
    decide +kernel
  obtain ⟨moments, finishes, -⟩ := accounted_once.2 Example.plan Example.world
  rw [report] at finishes
  obtain ⟨accounts, -⟩ :=
    accounted_once.1 _ moments _ (finishes.mono fun _ _ _ => Cycle.TimedAnswered.fragile)
  exact ⟨moments, finishes, accounts.succeeded, accounts.failed, accounts.aborted⟩

end Simulation
end InventoryGauges
