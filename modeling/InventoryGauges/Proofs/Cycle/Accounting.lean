import InventoryGauges.Proofs.Sampling.Counted
import InventoryGauges.Proofs.Sampling.Footprint
import Mathlib.Algebra.GroupWithZero.Nat

/-!
# Each pass is accounted for

The report of a cycle and the counters tell the same: each pass that was due
succeeded, failed or was aborted, and was counted as such once.
-/

namespace InventoryGauges
namespace Cycle

open Program (Finishes)

/-- The outcome of a pass within a cycle. -/
def Ending.outcome : Ending → Outcome
  | .finished result => Sampling.outcome result
  | .timedOut => .timeout
  | .broken => .panic

/-- How many passes had an outcome. -/
def tally (outcome : Outcome) (endings : List Ending) : Nat :=
  endings.countP (outcome = ·.outcome)

theorem tally_cons (outcome : Outcome) (ending : Ending) (endings : List Ending) :
    tally outcome (ending :: endings) =
      tally outcome endings + if outcome = ending.outcome then 1 else 0 := by
  simp only [tally, List.countP_cons, decide_eq_true_eq]

/-- Each pass has one outcome. -/
theorem length_eq_tally (endings : List Ending) :
    endings.length = tally .success endings + tally .failure endings +
      (tally .timeout endings + tally .panic endings) := by
  induction endings with
  | nil => rfl
  | cons ending endings hypothesis =>
      simp only [tally_cons, List.length_cons, hypothesis]
      cases ending.outcome <;> simp <;> omega

theorem foldl_add (report : Report) (endings : List Ending) :
    endings.foldl Report.add report =
      { report with
        succeeded := report.succeeded + tally .success endings
        failed := report.failed + tally .failure endings
        aborted := report.aborted + (tally .timeout endings + tally .panic endings) } := by
  induction endings generalizing report with
  | nil => rfl
  | cons ending endings hypothesis =>
      rw [List.foldl_cons, hypothesis]
      simp only [tally_cons]
      rcases ending with (_ | _) | _ | _ <;>
        simp [Report.add, Ending.outcome, Sampling.outcome] <;> omega

/-! ## What is counted -/

/-- How far a pass itself raises a counter. -/
def Ending.raisedWithin (counter : Counter) : Ending → Nat
  | .finished result => if counter = .samples (Sampling.outcome result) then 1 else 0
  | .timedOut | .broken => 0

/-- How far the cycle raises a counter for a pass that was lost. -/
def Ending.raisedAfter (counter : Counter) : Ending → Nat
  | .finished _ => 0
  | .timedOut => if counter = .samples .timeout then 1 else 0
  | .broken => if counter = .samples .panic then 1 else 0

/-- Within a pass or after it, its outcome is counted once. -/
theorem Ending.raised_add (counter : Counter) (ending : Ending) :
    ending.raisedWithin counter + ending.raisedAfter counter =
      if counter = .samples ending.outcome then 1 else 0 := by
  cases ending with
  | finished result => exact Nat.add_zero _
  | timedOut | broken => exact Nat.zero_add _

/-- A pass that breaks down while it awaits its query breaks down while it awaits
something. -/
theorem TimedPass.fragile {schedule : Schedule} {metric : Metric} {events : List Event}
    {ending : Ending} (timed : TimedPass schedule metric events ending) :
    FragilePass schedule metric events ending := by
  cases timed with
  | finished finishes => exact .finished finishes
  | broken stalls =>
      obtain rfl := Sampling.eq_unanswered_of_stalls stalls
      exact .broken (.unanswered _)
  | timedOut interrupted cleans => exact .timedOut interrupted cleans

theorem TimedAnswered.fragile {schedule : Schedule} {request : Request} {answer : request.Answer}
    {moments : List Moment} (timed : TimedAnswered schedule request answer moments) :
    FragileAnswered schedule request answer moments :=
  timed.mono fun _ _ _ aside => aside.mono fun _ _ _ => TimedPass.fragile

section Counting

variable {schedule : Schedule} {counter : Counter} (other : ¬ counter.IsOfGauges)
include other

/-- Wherever a pass breaks down or is cut off, it has not counted its outcome by then. -/
theorem FragilePass.totalRaised {metric : Metric} {events : List Event} {ending : Ending}
    (fragile : FragilePass schedule metric events ending) :
    Event.totalRaised counter events = ending.raisedWithin counter := by
  cases fragile with
  | finished finishes => exact Sampling.totalRaised_of_finishes_pass other finishes
  | broken interrupted => exact Sampling.totalRaised_of_interrupted_pass other interrupted
  | timedOut interrupted cleans =>
      rw [Event.totalRaised_append, Sampling.totalRaised_of_interrupted_pass other interrupted,
        Event.totalRaised_cons_of_none rfl, Sampling.totalRaised_of_finishes_giveUp other cleans]
      rfl
  | brokenLate interrupted breaks =>
      have cleaned := Work.totalRaised_of_interrupted other
        (Work.asks_countsGauges (Sampling.asks_giveUp schedule metric)) breaks
      rw [Event.totalRaised_append, Sampling.totalRaised_of_interrupted_pass other interrupted,
        Event.totalRaised_cons_of_none rfl, cleaned]
      rfl

omit other in
theorem totalRaised_of_finishes_countLost {endings : List Ending} {events : List Event}
    (finishes : Finishes Work.Answered (countLost endings) events ()) :
    Event.totalRaised counter events = (endings.map (·.raisedAfter counter)).sum := by
  induction endings generalizing events with
  | nil =>
      obtain ⟨rfl, -⟩ := Program.finishes_pure_iff.mp finishes
      rfl
  | cons ending endings hypothesis =>
      rw [List.map_cons, List.sum_cons]
      cases ending with
      | finished result => exact (hypothesis finishes).trans (Nat.zero_add _).symm
      | timedOut | broken =>
          obtain ⟨_, _, later, counts, continues, rfl⟩ := Program.finishes_bind_iff.mp finishes
          obtain rfl := Program.finishes_request_iff.mp counts
          rw [Event.totalRaised_append, Event.totalRaised_count, hypothesis continues]
          rfl

end Counting

/-- A sum over places is a sum over what is there. -/
theorem sum_range_eq {endings : List Ending} {atPlace : Nat → Nat} {of : Ending → Nat}
    (same : ∀ index ending, endings[index]? = some ending → atPlace index = of ending) :
    ∑ index ∈ Finset.range endings.length, atPlace index = (endings.map of).sum := by
  induction endings generalizing atPlace with
  | nil => rfl
  | cons ending endings hypothesis =>
      rw [List.length_cons, Finset.sum_range_succ', List.map_cons, List.sum_cons,
        same 0 ending rfl, hypothesis fun index ending found => same (index + 1) ending found,
        Nat.add_comm]

theorem sum_raised_eq_countP (counter : Counter) (endings : List Ending) :
    (endings.map (·.raisedWithin counter)).sum + (endings.map (·.raisedAfter counter)).sum =
      endings.countP (counter = .samples ·.outcome) := by
  induction endings with
  | nil => rfl
  | cons ending endings hypothesis =>
      have once := ending.raised_add counter
      simp only [List.map_cons, List.sum_cons, List.countP_cons, decide_eq_true_eq, ← hypothesis,
        ← once]
      omega

/-- What the passes of a cycle and the cycle count are the outcomes. -/
theorem totalRaised_of_finishes_sampleAll {schedule : Schedule} {due : List Metric}
    {moments : List Moment} {endings : List Ending}
    (finishes : Finishes (FragileAnswered schedule) (sampleAll due) moments endings) :
    endings.length = due.length ∧ ∀ counter : Counter, ¬ counter.IsOfGauges →
      Event.totalRaised counter (moments.map Moment.event) =
        endings.countP (counter = .samples ·.outcome) := by
  obtain ⟨passed, counted, aside, counts, rfl⟩ := finishes_sampleAll_iff.mp finishes
  refine ⟨aside.lengths, fun counter other => ?_⟩
  have within : Event.totalRaised counter (passed.map Moment.event) =
      (endings.map (·.raisedWithin counter)).sum := by
    rw [Moment.totalRaised_eq_sum counter aside.actors, ← aside.lengths]
    refine sum_range_eq fun index ending ended => ?_
    have bound : index < due.length := aside.lengths ▸ (List.getElem?_eq_some_iff.mp ended).1
    exact (aside.passes index due[index] ending (List.getElem?_eq_getElem bound) ended).totalRaised
      other
  rw [List.map_append, Event.totalRaised_append, Moment.map_event_ofMain, within,
    totalRaised_of_finishes_countLost counts, sum_raised_eq_countP]

/-! ## What reaping counts -/

section Reaping

variable {schedule : Schedule} {counter : Counter} {events : List Event}
  (other : ¬ counter.IsOfGauges)
include other

theorem totalRaised_of_finishes_reapAll {names : List String} {count : Nat}
    (finishes : Finishes Work.Answered (reapAll schedule names) events count) :
    Event.totalRaised counter events = if counter = .metricsReaped then count else 0 := by
  induction names generalizing events count with
  | nil =>
      obtain ⟨rfl, rfl⟩ := Program.finishes_pure_iff.mp finishes
      exact (ite_self 0).symm
  | cons name names hypothesis =>
      obtain ⟨first, removed, last, reaps, continues, rfl⟩ := Program.finishes_bind_iff.mp finishes
      rw [Event.totalRaised_append, Work.totalRaised_of_finishes other
        (Work.asks_countsGauges (asks_reapMetric schedule name)) reaps, Nat.zero_add]
      cases removed with
      | false => exact hypothesis continues
      | true =>
          obtain ⟨_, _, later, counts, goesOn, rfl⟩ := Program.finishes_bind_iff.mp continues
          obtain rfl := Program.finishes_request_iff.mp counts
          obtain ⟨rest, others, _, reapsRest, ends, rfl⟩ := Program.finishes_bind_iff.mp goesOn
          obtain ⟨rfl, rfl⟩ := Program.finishes_pure_iff.mp ends
          rw [Event.totalRaised_append, Event.totalRaised_count, List.append_nil,
            hypothesis reapsRest]
          split <;> omega

/-- A former metric of which nothing is left is counted once. -/
theorem totalRaised_of_finishes_reap {active : Text.Set} {count : Nat}
    (finishes : Finishes Work.Answered (reap schedule active) events count) :
    Event.totalRaised counter events = if counter = .metricsReaped then count else 0 := by
  obtain ⟨_, processed, later, lists, continues, rfl⟩ := Program.finishes_bind_iff.mp finishes
  rw [Event.totalRaised_append, Work.totalRaised_of_finishes other
    (Work.asks_countsGauges (Work.asks_access _)) lists, Nat.zero_add]
  cases processed with
  | error error =>
      obtain ⟨rfl, rfl⟩ := Program.finishes_pure_iff.mp continues
      exact (ite_self 0).symm
  | ok names => exact totalRaised_of_finishes_reapAll other continues

end Reaping

/-! ## The whole cycle -/

/-- A report that accounts for each pass that was due, and for what was counted. -/
structure Report.Accounts (report : Report) (raised : Counter → Nat) : Prop where
  /-- Each pass that was due has one outcome. -/
  due_eq : report.due = report.succeeded + report.failed + report.aborted
  /-- No metric is due twice. -/
  due_le : report.due ≤ report.metrics
  /-- Each success was counted once. -/
  succeeded : raised (.samples .success) = report.succeeded
  /-- Each failure was counted once. -/
  failed : raised (.samples .failure) = report.failed
  /-- Each pass that was lost was counted once. -/
  aborted : raised (.samples .timeout) + raised (.samples .panic) = report.aborted
  /-- Each former metric of which nothing is left was counted once. -/
  reaped : raised .metricsReaped = report.reaped

/-- A report does not tell whether the cycle itself is counted. -/
theorem Report.Accounts.of_eq {report : Report} {raised other : Counter → Nat}
    (accounts : report.Accounts raised)
    (same : ∀ counter : Counter, counter ≠ .cycles → other counter = raised counter) :
    report.Accounts other where
  due_eq := accounts.due_eq
  due_le := accounts.due_le
  succeeded := (same _ (by decide)).trans accounts.succeeded
  failed := (same _ (by decide)).trans accounts.failed
  aborted := (congrArg₂ (· + ·) (same _ (by decide)) (same _ (by decide))).trans accounts.aborted
  reaped := (same _ (by decide)).trans accounts.reaped

/-- A cycle that could not read the definitions, or not when they were processed. -/
inductive Unread : List Moment → Prop
  | definitions {answer : Except Store.Error (Option String)} {error : Store.Error}
      (fails : Store.reading Store.metricsKey Store.metricsIn? answer = .error error)
      (others : List Moment) : Unread (⟨.main, .store (.get Store.metricsKey) answer⟩ :: others)
  | times (answer : Except Store.Error (Option String)) (keys : List String) (error : Store.Error)
      (others : List Moment) :
      Unread (⟨.main, .store (.get Store.metricsKey) answer⟩ ::
        ⟨.main, .store (.getMany keys) (.error error)⟩ :: others)

section Whole

variable {schedule : Schedule} {moments : List Moment} {report : Report}

/-- If each outcome was counted once, then a report of the passes that were due
accounts for them. -/
theorem accounts_of_outcomes {endings : List Ending} {metrics due : Nat}
    {raised : Counter → Nat} (few : due ≤ metrics) (lengths : endings.length = due)
    (counted : ∀ counter : Counter, ¬ counter.IsOfGauges →
      raised counter = endings.countP (counter = .samples ·.outcome)) :
    (endings.foldl Report.add { Report.empty with metrics, due }).Accounts raised ∧
      (endings.foldl Report.add { Report.empty with metrics, due }).reaped = 0 := by
  have tallied (outcome : Outcome) : raised (.samples outcome) = 0 + tally outcome endings := by
    rw [counted _ id]
    simp only [tally, Counter.samples.injEq, Nat.zero_add]
  rw [foldl_add]
  refine ⟨?_, rfl⟩
  exact {
    due_eq := by
      have total := length_eq_tally endings
      simp only [Report.empty, ← lengths]
      omega
    due_le := few
    succeeded := tallied .success
    failed := tallied .failure
    aborted := by
      rw [tallied, tallied]
      simp only [Report.empty, Nat.zero_add]
    reaped := (counted _ id).trans (List.countP_eq_zero.mpr fun _ _ => by simp) }

/-- Up to reaping, a cycle accounts for its passes and is not counted.  What it cannot read
makes none due. -/
theorem accounts_of_samples {metrics : List Metric}
    (samples : SamplesBy (SideBySideBy (FragilePass schedule)) metrics moments report) :
    report.Accounts (Event.totalRaised · (moments.map Moment.event)) ∧ report.reaped = 0 ∧
      Event.totalRaised .cycles (moments.map Moment.event) = 0 ∧
      ∀ later keys error others,
        moments ++ later = ⟨.main, .store (.getMany keys) (.error error)⟩ :: others →
          report.due = 0 := by
  obtain ⟨answer, others, rfl, continues⟩ := samples
  cases answer with
  | error error =>
      obtain ⟨rfl, rfl⟩ := continues
      exact ⟨⟨rfl, Nat.zero_le _, rfl, rfl, rfl, rfl⟩, rfl, rfl, fun _ _ _ _ _ => rfl⟩
  | ok texts =>
      obtain ⟨now, passed, endings, runs, rfl, rfl⟩ := continues
      obtain ⟨lengths, counted⟩ := totalRaised_of_finishes_sampleAll runs
      have total (counter : Counter) (other : ¬ counter.IsOfGauges) :
          Event.totalRaised counter ((Moment.ofMain [.store (.getMany
            ((metrics.map Metric.name).map Store.markerKey)) (.ok texts)] ++
              (Moment.ofMain [.clock now] ++ passed)).map Moment.event) =
            endings.countP (counter = .samples ·.outcome) := by
        rw [List.map_append, List.map_append, Moment.map_event_ofMain, Moment.map_event_ofMain,
          List.singleton_append, List.singleton_append, Event.totalRaised_cons_of_none rfl,
          Event.totalRaised_cons_of_none rfl, counted counter other]
      obtain ⟨accounts, unreaped⟩ :=
        accounts_of_outcomes (List.length_filter_le _ _) lengths total
      exact ⟨accounts, unreaped,
        (total .cycles id).trans (List.countP_eq_zero.mpr fun _ _ => by simp),
        fun later keys error others equal => by cases equal⟩

/-- The report of a cycle and the counters tell the same before the cycle is counted. -/
theorem accounts_of_finishes_body
    (finishes : Finishes (FragileAnswered schedule) (body schedule) moments report) :
    report.Accounts (Event.totalRaised · (moments.map Moment.event)) ∧
      Event.totalRaised .cycles (moments.map Moment.event) = 0 ∧
      ∀ later, Unread (moments ++ later) → report.due = 0 := by
  obtain ⟨answer, others, rfl, continues⟩ := finishes_body_iff.mp finishes
  cases read : Store.reading Store.metricsKey Store.metricsIn? answer with
  | error error =>
      rw [read] at continues
      obtain ⟨rfl, rfl⟩ := continues
      exact ⟨⟨rfl, Nat.zero_le _, rfl, rfl, rfl, rfl⟩, rfl, fun _ _ => rfl⟩
  | ok metrics =>
      rw [read] at continues
      obtain ⟨sampled, sampling, reaped, count, samples, reaps, rfl, rfl⟩ := continues
      obtain ⟨accounts, unreaped, uncounted, none⟩ := accounts_of_samples samples
      have total {counter : Counter} (other : ¬ counter.IsOfGauges) :
          Event.totalRaised counter ((Moment.ofMain [.store (.get Store.metricsKey) answer] ++
              (sampled ++ Moment.ofMain reaped)).map Moment.event) =
            Event.totalRaised counter (sampled.map Moment.event) +
              if counter = .metricsReaped then count else 0 := by
        rw [List.map_append, List.map_append, Moment.map_event_ofMain, Moment.map_event_ofMain,
          List.singleton_append, Event.totalRaised_cons_of_none rfl, Event.totalRaised_append,
          totalRaised_of_finishes_reap other reaps]
      refine ⟨?_, (total id).trans uncounted, fun later unread => ?_⟩
      · exact {
          due_eq := accounts.due_eq
          due_le := accounts.due_le
          succeeded := (total id).trans accounts.succeeded
          failed := (total id).trans accounts.failed
          aborted := (congrArg₂ (· + ·) (total id) (total id)).trans accounts.aborted
          reaped := by
            rw [total id, accounts.reaped, unreaped, if_pos rfl, Nat.zero_add] }
      · generalize whole : Moment.ofMain [.store (.get Store.metricsKey) answer] ++
          (sampled ++ Moment.ofMain reaped) ++ later = moments at unread
        rw [List.append_assoc, List.append_assoc] at whole
        cases unread with
        | definitions fails others =>
            cases whole
            cases read.symm.trans fails
        | times other keys error others => exact none _ keys error others (List.cons.inj whole).2

/-- The report of a cycle and the counters tell the same, and the cycle is counted once. -/
theorem accounts_of_finishes_cycle
    (finishes : Finishes (FragileAnswered schedule) (cycle schedule) moments report) :
    report.Accounts (Event.totalRaised · (moments.map Moment.event)) ∧
      Event.totalRaised .cycles (moments.map Moment.event) = 1 ∧
      (Unread moments → report.due = 0) := by
  obtain ⟨done, does, rfl⟩ := finishes_cycle_iff.mp finishes
  obtain ⟨accounts, uncounted, none⟩ := accounts_of_finishes_body does
  have total (counter : Counter) :
      Event.totalRaised counter ((done ++ Moment.ofMain [.count .cycles 1]).map Moment.event) =
        Event.totalRaised counter (done.map Moment.event) +
          if counter = .cycles then 1 else 0 := by
    rw [List.map_append, Moment.map_event_ofMain, Event.totalRaised_append,
      Event.totalRaised_count]
  refine ⟨accounts.of_eq fun counter other => ?_, ?_, none _⟩
  · rw [total, if_neg other, Nat.add_zero]
  · rw [total, uncounted, if_pos rfl]

end Whole

end Cycle
end InventoryGauges
