import InventoryGauges.Proofs.Cycle.Accounting
import InventoryGauges.Proofs.Cycle.Trace
import InventoryGauges.Proofs.Execution.Tallying

/-!
# Gauges are tallied

The counters of published and of withdrawn gauges are raised by the calls that
the gateway accepted, except for those of passes that are cut off before they
come to count them.
-/

namespace InventoryGauges

open Work (Answered Interrupted Tallies)
open Program (Finishes)

namespace Sampling

/-! ## Publications and withdrawals -/

section Calls

variable {counter : Counter} {ended : List Gateway.Ended}

theorem totalAccepted_add_refusals (tallied : ∀ call ∈ ended, counter.tallies call.1) :
    Event.totalAccepted counter (ended.map Event.ofEnded) + refusals ended = ended.length := by
  induction ended with
  | nil => rfl
  | cons call ended hypothesis =>
      obtain ⟨own, others⟩ := List.forall_mem_cons.mp tallied
      have rest := hypothesis others
      rw [refusals] at rest ⊢
      rw [List.map_cons, Event.totalAccepted_cons, List.filter_cons, List.length_cons, ← rest]
      cases accepted : call.2.isAccepted <;>
        simp [Event.ofEnded, Event.accepted, own, accepted] <;> omega

theorem length_refusedIds (deletes : ∀ call ∈ ended, ∃ id, call.1 = .delete id) :
    (refusedIds ended).length = refusals ended := by
  induction ended with
  | nil => rfl
  | cons call ended hypothesis =>
      obtain ⟨⟨id, own⟩, others⟩ := List.forall_mem_cons.mp deletes
      obtain ⟨_, answer⟩ := call
      obtain rfl : _ = Gateway.Call.delete id := own
      have rest := hypothesis others
      rw [refusals] at rest ⊢
      cases answer with
      | ok _ => simpa [refusedIds, Gateway.Answer.isAccepted] using rest
      | error error => simpa [refusedIds, Gateway.Answer.isAccepted] using rest

theorem isAside_of_not_tallied (untallied : ∀ call ∈ ended, counter.tallies call.1 = false) :
    ∀ event ∈ ended.map Event.ofEnded, event.IsAside counter := by
  intro event member
  obtain ⟨call, found, rfl⟩ := List.mem_map.mp member
  refine ⟨?_, rfl⟩
  simp [Event.ofEnded, Event.accepted, untallied call found]

/-- Calls and their counts tally if the right counter is raised by the calls that
were accepted. -/
theorem tallied_of_counted {raised other : Counter} {amount rest : Nat}
    (different : counter ≠ other)
    (tallied : counter = raised → (∀ call ∈ ended, counter.tallies call.1) ∧
      amount + refusals ended = ended.length)
    (untallied : counter ≠ raised → ∀ call ∈ ended, counter.tallies call.1 = false) :
    let events := ended.map Event.ofEnded ++ [.count raised amount, .count other rest]
    Event.totalAccepted counter events = Event.totalRaised counter events ∧
      Event.IsTallied counter events := by
  intro events
  have last : ∀ event ∈ [Event.count other rest], event.IsAside counter :=
    List.forall_mem_singleton.mpr ⟨rfl, if_neg different⟩
  by_cases own : counter = raised
  · subst own
    obtain ⟨all, counted⟩ := tallied rfl
    have total := totalAccepted_add_refusals all
    refine ⟨?_, Event.isTallied_calls_append amount last⟩
    simp only [events, Event.totalAccepted_append, Event.totalRaised_append,
      Event.totalRaised_calls, Event.totalAccepted_cons, Event.totalRaised_cons,
      Event.totalAccepted_eq_zero last,
      Event.totalRaised_eq_zero fun event member => (last event member).2, Event.accepted,
      Event.raised, if_pos]
    omega
  · have counted : Event.IsAside counter (.count raised amount) := ⟨rfl, if_neg own⟩
    have aside := List.forall_mem_append.mpr
      ⟨isAside_of_not_tallied (untallied own), List.forall_mem_cons.mpr ⟨counted, last⟩⟩
    refine ⟨?_, Event.isTallied_of_aside aside⟩
    rw [Event.totalAccepted_eq_zero aside,
      Event.totalRaised_eq_zero fun event member => (aside event member).2]

end Calls

section Tally

variable {counter : Counter} (isTally : counter.IsTally)
include isTally

theorem tallies_publish (limit : Nat) (samples : List Gauge.Sample) :
    (publish limit samples).Tallies counter := by
  refine .of_gateway (fun {events result} finishes => ?_) fun ended events =>
    Work.not_interrupted_count_bind fun _ => Work.not_interrupted_count
  obtain ⟨ended, same, -, rfl⟩ := finishes_publish_iff.mp finishes
  have pushes : ∀ call ∈ ended, ∃ sample, call.1 = .push sample := by
    intro call member
    have asked := same.mem_iff.mp (List.mem_map_of_mem (f := Prod.fst) member)
    obtain ⟨sample, -, equal⟩ := List.mem_map.mp asked
    exact ⟨sample, equal.symm⟩
  refine tallied_of_counted (by rcases isTally with rfl | rfl <;> nofun) ?_ ?_
  · rintro rfl
    have all : ∀ call ∈ ended, Counter.gaugesPushed.tallies call.1 := by
      intro call member
      obtain ⟨sample, push⟩ := pushes call member
      rw [push]
      rfl
    have total := totalAccepted_add_refusals all
    exact ⟨all, by omega⟩
  · intro different call member
    obtain ⟨sample, push⟩ := pushes call member
    obtain rfl := isTally.resolve_left different
    rw [push]
    rfl

theorem tallies_withdraw (limit : Nat) (ids : List String) :
    (withdraw limit ids).Tallies counter := by
  refine .of_gateway (fun {events result} finishes => ?_) fun ended events =>
    Work.not_interrupted_count_bind fun _ => Work.not_interrupted_count
  obtain ⟨ended, same, -, rfl⟩ := finishes_withdraw_iff.mp finishes
  have deletes : ∀ call ∈ ended, ∃ id, call.1 = .delete id := by
    intro call member
    have asked := same.mem_iff.mp (List.mem_map_of_mem (f := Prod.fst) member)
    obtain ⟨id, -, equal⟩ := List.mem_map.mp asked
    exact ⟨id, equal.symm⟩
  refine tallied_of_counted (by rcases isTally with rfl | rfl <;> nofun) ?_ ?_
  · rintro rfl
    have all : ∀ call ∈ ended, Counter.gaugesDeleted.tallies call.1 := by
      intro call member
      obtain ⟨id, delete⟩ := deletes call member
      rw [delete]
      rfl
    have total := totalAccepted_add_refusals all
    exact ⟨all, by rw [length_refusedIds deletes]; omega⟩
  · intro different call member
    obtain ⟨id, delete⟩ := deletes call member
    obtain rfl := isTally.resolve_right different
    rw [delete]
    rfl

/-! ## Passes -/

variable (schedule : Schedule) (metric : Metric)

theorem tallies_withdrawPublished : (withdrawPublished schedule metric).Tallies counter := by
  refine (Work.tallies_access _).bind fun result => ?_
  cases result with
  | error error => exact .pure ()
  | ok ids => exact (tallies_withdraw isTally _ _).bind fun _ => .pure ()

theorem tallies_giveUp : (giveUp schedule metric).Tallies counter :=
  (tallies_withdrawPublished isTally schedule metric).bind fun _ =>
    Work.tallies_clock.bind fun _ => (Work.tallies_access _).bind fun _ => .pure ()

theorem tallies_reconcile (current : Text.Set) :
    (reconcile schedule metric current).Tallies counter := by
  refine (Work.tallies_access _).bind fun result => ?_
  cases result with
  | error error => exact .pure _
  | ok previous =>
      refine (tallies_withdraw isTally _ _).bind fun undeleted => ?_
      dsimp only
      split
      · exact .pure _
      · exact (Work.tallies_access _).bind fun _ => .pure _

theorem tallies_samples (outcome : Outcome) (amount : Nat) :
    (Work.count (.samples outcome) amount).Tallies counter :=
  Work.tallies_count (by rcases isTally with rfl | rfl <;> nofun) amount

theorem tallies_complete (samples : List Gauge.Sample) :
    (complete schedule metric samples).Tallies counter :=
  (tallies_publish isTally _ _).bind fun _ => Work.tallies_clock.bind fun _ =>
    (Work.tallies_access _).bind fun _ => (tallies_reconcile isTally schedule metric _).bind
      fun _ => (tallies_samples isTally _ _).bind fun _ => .pure _

/-- A pass tallies the gauges that it publishes and withdraws. -/
theorem tallies_pass : (pass schedule metric).Tallies counter := by
  have collects : (collect metric).Tallies counter := by
    refine (Work.tallies_query _ _).bind fun answer => ?_
    cases answer <;> exact .pure _
  refine collects.bind fun collected => ?_
  cases collected with
  | error error =>
      exact (tallies_giveUp isTally schedule metric).bind fun _ =>
        (tallies_samples isTally _ _).bind fun _ => .pure _
  | ok samples => exact (tallies_complete isTally schedule metric samples).bind fun _ => .pure _

end Tally

end Sampling

namespace Cycle

section Tally

variable {counter : Counter} (isTally : counter.IsTally)
include isTally

/-- Within a cycle, a pass tallies all accepted calls except for those that it misses. -/
theorem TimedPass.totalAccepted {schedule : Schedule} {metric : Metric} {events : List Event}
    {ending : Ending} (timed : TimedPass schedule metric events ending) :
    Event.totalAccepted counter events =
      Event.totalRaised counter events + Event.totalMissed counter events := by
  cases timed with
  | finished finishes =>
      obtain ⟨equal, tallied⟩ := (Sampling.tallies_pass isTally schedule metric).finished finishes
      rw [equal, tallied.totalMissed_eq_zero, Nat.add_zero]
  | broken stalls =>
      obtain rfl := Sampling.eq_unanswered_of_stalls stalls
      rfl
  | timedOut interrupted cleans =>
      obtain ⟨equal, tallied⟩ := (Sampling.tallies_giveUp isTally schedule metric).finished cleans
      have cutOff := (Sampling.tallies_pass isTally schedule metric).cutOff interrupted
      rw [Event.totalMissed_append_deadline, tallied.totalMissed_eq_zero,
        Event.totalAccepted_append, Event.totalAccepted_cons_of_none rfl,
        Event.totalRaised_append, Event.totalRaised_cons_of_none rfl, cutOff, equal]
      omega

/-! ## Reaping -/

variable (schedule : Schedule)

theorem tallies_reapMetric (name : String) : (reapMetric schedule name).Tallies counter := by
  have removes (ids : List String) : (reapMetric.remove schedule name ids).Tallies counter := by
    refine (Sampling.tallies_withdraw isTally _ _).bind fun undeleted => ?_
    split
    · exact (Work.tallies_access _).bind fun _ => .pure _
    · exact (Work.tallies_access _).bind fun _ => .pure _
  refine (Work.tallies_access _).bind fun result => ?_
  cases result with
  | error error =>
      dsimp only
      split
      · exact .pure _
      · exact removes []
  | ok ids => exact removes ids.toList

theorem tallies_reap (active : Text.Set) : (reap schedule active).Tallies counter := by
  have all (names : List String) : (reapAll schedule names).Tallies counter := by
    induction names with
    | nil => exact .pure 0
    | cons name names hypothesis =>
        refine (tallies_reapMetric isTally schedule name).bind fun removed => ?_
        split
        · exact (Work.tallies_count (by rcases isTally with rfl | rfl <;> nofun) 1).bind
            fun _ => hypothesis.bind fun _ => .pure _
        · exact hypothesis
  refine (Work.tallies_access _).bind fun processed => ?_
  cases processed with
  | error error => exact .pure 0
  | ok names => exact all _

/-! ## Cycles -/

theorem tallies_countLost (endings : List Ending) : (countLost endings).Tallies counter := by
  have lost (outcome : Outcome) : (Work.count (.samples outcome) 1).Tallies counter :=
    Sampling.tallies_samples isTally outcome 1
  induction endings with
  | nil => exact .pure ()
  | cons ending endings hypothesis =>
      cases ending with
      | finished result => exact hypothesis
      | timedOut => exact (lost .timeout).bind fun _ => hypothesis
      | broken => exact (lost .panic).bind fun _ => hypothesis

variable {schedule} {moments : List Moment}

theorem TimedPass.totalMissed_eq_zero {metric : Metric} {events : List Event} {ending : Ending}
    (timed : TimedPass schedule metric events ending) (inTime : ending ≠ .timedOut) :
    Event.totalMissed counter events = 0 := by
  cases timed with
  | finished finishes =>
      have tallied := ((Sampling.tallies_pass isTally schedule metric).finished finishes).2
      exact tallied.totalMissed_eq_zero
  | broken stalls =>
      obtain rfl := Sampling.eq_unanswered_of_stalls stalls
      rfl
  | timedOut interrupted cleans => exact absurd rfl inTime

section Passes

variable {metrics : List Metric} {endings : List Ending}
  (timed : TimedPasses schedule metrics endings moments)
include timed

omit isTally in
theorem TimedPasses.exists_timedPass {index : Nat} (bound : index < metrics.length) :
    ∃ metric, ∃ ending ∈ endings,
      TimedPass schedule metric (Moment.eventsOf (.pass index) moments) ending := by
  have bounded : index < endings.length := timed.lengths ▸ bound
  exact ⟨metrics[index], endings[index], List.getElem_mem bounded,
    timed.passes index metrics[index] endings[index] (List.getElem?_eq_getElem bound)
      (List.getElem?_eq_getElem bounded)⟩

theorem TimedPasses.totalAccepted : Event.totalAccepted counter (moments.map Moment.event) =
    Event.totalRaised counter (moments.map Moment.event) + Moment.missed counter moments := by
  refine Moment.totalAccepted_of_passes timed.actors fun index bound => ?_
  obtain ⟨metric, ending, -, pass⟩ := timed.exists_timedPass bound
  exact pass.totalAccepted isTally

theorem TimedPasses.missed_eq_zero (inTime : .timedOut ∉ endings) :
    Moment.missed counter moments = 0 := by
  rw [Moment.missed_eq_sum timed.actors]
  refine Finset.sum_eq_zero fun index member => ?_
  obtain ⟨metric, ending, among, pass⟩ := timed.exists_timedPass (Finset.mem_range.mp member)
  exact pass.totalMissed_eq_zero isTally fun equal => inTime (equal ▸ among)

end Passes

theorem tallied_of_finishes_sampleAll {due : List Metric} {endings : List Ending}
    (finishes : Finishes (TimedAnswered schedule) (sampleAll due) moments endings) :
    Moment.Tallied counter moments ∧ Moment.AcceptsInPasses counter moments := by
  have fragile := finishes.mono fun _ _ _ => TimedAnswered.fragile
  have counts := (totalRaised_of_finishes_sampleAll fragile).2 (.samples .timeout) id
  obtain ⟨passed, counted, timed, losses, rfl⟩ := finishes_sampleAll_iff.mp finishes
  have inPasses : Moment.AcceptsInPasses counter passed := by
    intro moment member
    obtain ⟨index, -, actor⟩ := timed.actors moment member
    exact Or.inr ⟨index, actor⟩
  obtain ⟨equal, tallied⟩ := (tallies_countLost isTally endings).finished losses
  refine ⟨⟨Moment.totalAccepted_append_ofMain inPasses tallied (timed.totalAccepted isTally) equal,
    fun none => ?_⟩, List.forall_mem_append.mpr ⟨inPasses, fun moment member => Or.inl ?_⟩⟩
  · rw [Moment.missed_append_of_isTallied inPasses tallied]
    refine timed.missed_eq_zero isTally fun lost => ?_
    have counted := List.countP_eq_zero.mp (counts.symm.trans none) .timedOut lost
    exact counted (decide_eq_true rfl)
  · obtain ⟨event, found, rfl⟩ := List.mem_map.mp member
    obtain ⟨other, amount, rfl⟩ := exists_count_of_finishes_countLost losses event found
    rfl

theorem tallied_of_samples {metrics : List Metric} {report : Report}
    (samples : SamplesBy (TimedPasses schedule) metrics moments report) :
    Moment.Tallied counter moments ∧ Moment.AcceptsInPasses counter moments := by
  obtain ⟨answer, others, rfl, continues⟩ := samples
  have later : Moment.Tallied counter others ∧ Moment.AcceptsInPasses counter others := by
    cases answer with
    | error error =>
        obtain ⟨rfl, -⟩ := continues
        exact ⟨Moment.tallied_nil, List.forall_mem_nil _⟩
    | ok texts =>
        obtain ⟨now, passed, endings, runs, rfl, -⟩ := continues
        obtain ⟨tallied, inPasses⟩ := tallied_of_finishes_sampleAll isTally runs
        exact ⟨tallied.cons ⟨rfl, rfl⟩, List.forall_mem_cons.mpr ⟨Or.inl rfl, inPasses⟩⟩
  exact ⟨later.1.cons ⟨rfl, rfl⟩, List.forall_mem_cons.mpr ⟨Or.inl rfl, later.2⟩⟩

/-- A cycle tallies all accepted calls except for those that its passes miss. -/
theorem tallied_of_finishes_cycle {report : Report}
    (finishes : Finishes (TimedAnswered schedule) (cycle schedule) moments report) :
    Moment.Tallied counter moments := by
  obtain ⟨done, does, rfl⟩ := finishes_cycle_iff.mp finishes
  obtain ⟨answer, others, rfl, continues⟩ := finishes_body_iff.mp does
  have aside : Event.IsAside counter (.count .cycles 1) := by
    rcases isTally with rfl | rfl
    · exact ⟨rfl, rfl⟩
    · exact ⟨rfl, rfl⟩
  rw [List.append_assoc]
  refine Moment.Tallied.cons ?_ ⟨rfl, rfl⟩
  cases read : Store.reading Store.metricsKey Store.metricsIn? answer with
  | error error =>
      rw [read] at continues
      obtain ⟨rfl, -⟩ := continues
      exact Moment.tallied_nil.cons aside
  | ok metrics =>
      rw [read] at continues
      obtain ⟨sampled, sampling, reaped, count, samples, reaps, rfl, -⟩ := continues
      obtain ⟨early, inPasses⟩ := tallied_of_samples isTally samples
      obtain ⟨equal, tallied⟩ := (tallies_reap isTally schedule _).finished reaps
      rw [List.append_assoc, ← Moment.ofMain_append]
      refine early.append_ofMain inPasses (tallied.append (Event.isTallied_of_aside
        (List.forall_mem_singleton.mpr aside))) ?_
      rw [Event.totalAccepted_append, Event.totalRaised_append, equal]
      exact congrArg (_ + ·) (aside.1.trans aside.2.symm)

end Tally

/-! ## Rounds -/

/-- What the poller does in a cycle, or when it only reaps. -/
inductive Round : List Moment → Prop
  | cycle {schedule : Schedule} {moments : List Moment} {report : Report}
      (finishes : Finishes (TimedAnswered schedule) (cycle schedule) moments report) :
      Round moments
  | reap {schedule : Schedule} {active : Text.Set} {events : List Event} {count : Nat}
      (finishes : Finishes Work.Answered (reap schedule active) events count) :
      Round (Moment.ofMain events)

section Rounds

variable {counter : Counter} (isTally : counter.IsTally)
include isTally

theorem Round.tallied {moments : List Moment} (round : Round moments) :
    Moment.Tallied counter moments := by
  cases round with
  | cycle finishes => exact tallied_of_finishes_cycle isTally finishes
  | @reap schedule active _ _ finishes =>
      obtain ⟨equal, tallied⟩ := (tallies_reap isTally schedule active).finished finishes
      exact Moment.tallied_ofMain equal tallied

variable {rounds : List (List Moment)} (all : ∀ moments ∈ rounds, Round moments)
include all

/-- Over rounds, a counter is raised by the accepted calls that it tallies but
for those that were missed in some round. -/
theorem totalAccepted_of_rounds :
    Event.totalAccepted counter (rounds.flatten.map Moment.event) =
      Event.totalRaised counter (rounds.flatten.map Moment.event) +
        (rounds.map (Moment.missed counter)).sum := by
  induction rounds with
  | nil => rfl
  | cons moments rounds hypothesis =>
      obtain ⟨first, others⟩ := List.forall_mem_cons.mp all
      rw [List.flatten_cons, List.map_append, Event.totalAccepted_append,
        Event.totalRaised_append, List.map_cons, List.sum_cons, hypothesis others,
        (first.tallied isTally).accepted]
      omega

/-- Over rounds in which no pass is counted that was cut off, none is missed. -/
theorem sum_missed_eq_zero
    (inTime : Event.totalRaised (.samples .timeout) (rounds.flatten.map Moment.event) = 0) :
    (rounds.map (Moment.missed counter)).sum = 0 := by
  induction rounds with
  | nil => rfl
  | cons moments rounds hypothesis =>
      obtain ⟨first, others⟩ := List.forall_mem_cons.mp all
      rw [List.flatten_cons, List.map_append, Event.totalRaised_append] at inTime
      rw [List.map_cons, List.sum_cons, hypothesis others (Nat.eq_zero_of_add_eq_zero_left inTime),
        (first.tallied isTally).inTime (Nat.eq_zero_of_add_eq_zero_right inTime)]

end Rounds

end Cycle
end InventoryGauges
