import InventoryGauges.Proofs.Simulation.Work
import InventoryGauges.Simulation.Loop

/-!
# Simulated cycles

What a cycle does in a simulated world is one of its runs: its passes run side
by side, and those that take too long are cut off and cleaned up after.  What a
poll loop does is a history of cycles.
-/

namespace InventoryGauges

/-- A moment of a pass that has one more pass before it. -/
def Moment.shift : Moment → Moment
  | ⟨.main, event⟩ => ⟨.main, event⟩
  | ⟨.pass index, event⟩ => ⟨.pass (index + 1), event⟩

namespace Simulation

open Thread (Follows Uncut lefts rights)

variable (plan : Plan)

/-- What cleans up after a pass that was cut off follows what the pass did. -/
theorem follows_cleanup (metric : Metric) {begun : List Event}
    (interrupted : Work.Interrupted (Sampling.pass plan.schedule metric) begun) :
    Follows id Uncut (Cycle.TimedPass plan.schedule metric) (begun ++ [.deadline])
      ((work plan (Sampling.giveUp plan.schedule metric)).andThen fun _ => .ended .timedOut) := by
  have asks := Work.asks_plain (Sampling.asks_giveUp plan.schedule metric)
  have after : Follows id Uncut (Cycle.TimedPass plan.schedule metric) (begun ++ [.deadline] ++ [])
      ((work plan (Sampling.giveUp plan.schedule metric)).andThen fun _ => .ended .timedOut) := by
    refine Follows.after (Follows.andThen
      ((follows_work plan (asks.mono fun _ => Work.Request.IsPlain.hasRoom)).mono
        (fun _ _ => trivial) ?_))
    intro cleaned result? ends
    cases result? with
    | none => exact absurd ends (Work.not_stalls_of_asks asks)
    | some done =>
        have runs : Cycle.TimedPass plan.schedule metric (begun ++ .deadline :: cleaned)
            .timedOut := .timedOut interrupted ends
        rwa [← List.singleton_append, ← List.append_assoc] at runs
  rwa [List.append_nil] at after

/-- A pass runs in a simulated world as it may run in a cycle. -/
theorem follows_pass (metric : Metric) :
    Follows id Uncut (Cycle.TimedPass plan.schedule metric) [] (pass plan metric) := by
  have works := follows_work plan (Sampling.asks_pass plan.schedule metric)
  intro world
  refine ⟨[], .unseen rfl rfl fun _ => rfl,
    Follows.cutAt (Follows.andThen (works.mono (fun _ interrupted => interrupted) ?_)) ?_⟩
  · intro told result? ends
    cases result? with
    | none => exact Cycle.TimedPass.broken ends
    | some result => exact Cycle.TimedPass.finished ends
  · intro told interrupted
    exact ⟨[.deadline], List.forall_mem_singleton.mpr trivial,
      follows_cleanup plan metric interrupted⟩

/-- The moments of one pass and of some others side by side. -/
def besides (told : List (Event ⊕ Moment)) : List Moment :=
  told.map (Sum.elim (Moment.mk (.pass 0)) Moment.shift)

theorem eventsOf_besides_zero (told : List (Event ⊕ Moment)) :
    Moment.eventsOf (.pass 0) (besides told) = lefts told := by
  induction told with
  | nil => rfl
  | cons label told hypothesis =>
      rw [besides, List.map_cons, Moment.eventsOf_cons]
      cases label with
      | inl event => exact congrArg (event :: ·) hypothesis
      | inr moment =>
          obtain ⟨actor, event⟩ := moment
          cases actor <;> exact hypothesis

theorem eventsOf_besides_succ (told : List (Event ⊕ Moment)) (index : Nat) :
    Moment.eventsOf (.pass (index + 1)) (besides told) =
      Moment.eventsOf (.pass index) (rights told) := by
  induction told with
  | nil => rfl
  | cons label told hypothesis =>
      rw [besides, List.map_cons, Moment.eventsOf_cons]
      cases label with
      | inl event => exact hypothesis
      | inr moment =>
          have heard : rights (.inr moment :: told) = moment :: rights told := rfl
          rw [heard, Moment.eventsOf_cons]
          obtain ⟨actor, event⟩ := moment
          cases actor with
          | main => exact hypothesis
          | pass place =>
              by_cases same : place = index
              · subst same
                rw [if_pos rfl]
                exact (if_pos rfl).trans (congrArg (event :: ·) hypothesis)
              · rw [if_neg fun equal => same (Actor.pass.inj equal)]
                refine (if_neg fun equal => ?_).trans hypothesis
                exact same (Nat.succ.inj (Actor.pass.inj equal))

theorem timedPasses_cons {schedule : Schedule} {metric : Metric} {metrics : List Metric}
    {ending : Cycle.Ending} {endings : List Cycle.Ending} {told : List (Event ⊕ Moment)}
    (runs : Cycle.TimedPass schedule metric (lefts told) ending)
    (aside : Cycle.TimedPasses schedule metrics endings (rights told)) :
    Cycle.TimedPasses schedule (metric :: metrics) (ending :: endings) (besides told) where
  lengths := congrArg Nat.succ aside.lengths
  actors := by
    intro moment member
    obtain ⟨label, found, rfl⟩ := List.mem_map.mp member
    cases label with
    | inl event => exact ⟨0, Nat.zero_lt_succ _, rfl⟩
    | inr other =>
        have heard : other ∈ rights told := List.mem_filterMap.mpr ⟨_, found, rfl⟩
        obtain ⟨index, bound, same⟩ := aside.actors other heard
        obtain ⟨actor, event⟩ := other
        obtain rfl : actor = .pass index := same
        exact ⟨index + 1, Nat.succ_lt_succ bound, rfl⟩
  passes := by
    intro index own ends found ended
    cases index with
    | zero =>
        obtain rfl := Option.some.inj found
        obtain rfl := Option.some.inj ended
        rw [eventsOf_besides_zero]
        exact runs
    | succ index =>
        rw [eventsOf_besides_succ]
        exact aside.passes index own ends found ended

/-- Passes run side by side in a simulated world as they may in a cycle. -/
theorem follows_passes (metrics : List Metric) :
    Follows Moment.event Uncut
      (fun told endings => Cycle.TimedPasses plan.schedule metrics endings told) []
      (Thread.all (metrics.map (pass plan))) := by
  induction metrics with
  | nil =>
      refine ⟨rfl, List.forall_mem_nil _, ?_⟩
      intro index metric ending found
      cases found
  | cons metric metrics hypothesis =>
      have first : Follows id Uncut (Cycle.TimedPass plan.schedule metric)
          (lefts ([] : List (Event ⊕ Moment))) (pass plan metric) :=
        follows_pass plan metric
      have others : Follows Moment.event Uncut
          (fun told endings => Cycle.TimedPasses plan.schedule metrics endings told)
          (rights ([] : List (Event ⊕ Moment))) (Thread.all (metrics.map (pass plan))) :=
        hypothesis
      have aside := first.both others
      refine Follows.andThen (aside.relabel (Sum.elim (Moment.mk (.pass 0)) Moment.shift)
        (fun told others => others = besides told) ?_ ?_ ?_ rfl)
      · rintro (event | ⟨actor, event⟩)
        · rfl
        · cases actor <;> rfl
      · rintro told _ labels rfl
        exact List.map_append.symm
      · rintro told _ ⟨ending, endings⟩ rfl ⟨runs, asides⟩
        exact timedPasses_cons runs asides

/-- A part of a cycle runs in a simulated world as it may run at all.  It does not
break down if it queries in passes only. -/
theorem follows_part {Result : Type} {program : Cycle Result}
    (asks : program.Asks Cycle.Request.IsPlain) :
    Follows Moment.event Uncut
      (fun told result? => ∃ result, result? = some result ∧
        Program.Finishes (Cycle.TimedAnswered plan.schedule) program told result) []
      (part plan program) := by
  induction program with
  | done result => exact ⟨result, rfl, .done result⟩
  | ask request next hypothesis =>
      have continues {answer : request.Answer} {first : List Moment}
          (answers : Cycle.TimedAnswered plan.schedule request answer first) :
          Follows Moment.event Uncut
            (fun told result? => ∃ result, result? = some result ∧
              Program.Finishes (Cycle.TimedAnswered plan.schedule) (.ask request next) told result)
            first (part plan (next answer)) := by
        have after : Follows Moment.event Uncut
            (fun told result? => ∃ result, result? = some result ∧
              Program.Finishes (Cycle.TimedAnswered plan.schedule) (.ask request next) told result)
            (first ++ []) (part plan (next answer)) := by
          refine ((hypothesis answer (asks.2 answer)).mono (fun _ _ => trivial) ?_).after
          rintro told result? ⟨result, rfl, finishes⟩
          exact ⟨result, rfl, .ask answers finishes⟩
        rwa [List.append_nil] at after
      cases request with
      | single request =>
          have plain : (Program.request request : Work request.Answer).Asks Work.Request.IsPlain :=
            Program.asks_request asks.1
          have works := follows_work plan (plain.mono fun _ => Work.Request.IsPlain.hasRoom)
          have same (event : Event) : (Moment.mk .main event).event = id event := rfl
          rw [part]
          refine Follows.andThen (works.relabel (Moment.mk .main)
            (fun told others => others = Moment.ofMain told) same ?_ ?_ rfl)
          · rintro told _ labels rfl
            exact (Moment.ofMain_append told labels).symm
          · rintro told _ answer? rfl ends
            cases answer? with
            | none => exact absurd ends (Work.not_stalls_of_asks plain)
            | some answer => exact continues ⟨told, Program.finishes_request_iff.mp ends, rfl⟩
      | passes metrics =>
          exact Follows.andThen ((follows_passes plan metrics).mono (fun _ _ => trivial)
            fun told endings aside => continues aside)
      | instant =>
          intro world
          exact ⟨[], .unseen rfl rfl fun _ => rfl, continues rfl⟩
      | observe started =>
          intro world
          exact ⟨Moment.ofMain [.count .cycles 1], .countCycle started world, continues rfl⟩

/-- A cycle runs in a simulated world as it may run at all. -/
theorem follows_cycle :
    Follows Moment.event Uncut
      (fun told report => Program.Finishes (Cycle.TimedAnswered plan.schedule)
        (Cycle.cycle plan.schedule) told report) [] (cycle plan) := by
  refine Follows.andThen ((follows_part plan
    (Cycle.asks_cycle plan.schedule)).mono (fun _ _ => trivial) ?_)
  rintro told _ ⟨report, rfl, finishes⟩
  exact finishes

/-- What a simulated cycle does is one of its runs, with the report that it gives. -/
theorem exists_run_of_cycle (world : World) :
    ∃ moments, Program.Finishes (Cycle.TimedAnswered plan.schedule)
        (Cycle.cycle plan.schedule) moments (run (cycle plan) world).1 ∧
      world.Tells (moments.map Moment.event) (run (cycle plan) world).2 :=
  (follows_cycle plan).exists_told_of_run world

theorem tells_pauseOrCancel (millis : Nat) (cancel? : Option Nat) (world : World) :
    world.Tells [] (pauseOrCancel millis cancel? world).2 := by
  cases cancel? with
  | none => exact .unseen rfl rfl fun _ => rfl
  | some cancel =>
      rw [pauseOrCancel]
      split <;> exact .unseen rfl rfl fun _ => rfl

/-- What a simulated poll loop does are cycles, as many as it counts. -/
theorem exists_cycles_of_poll (cancel? : Option Nat) (turns : Nat) (world : World) :
    ∃ cycles : List (List Moment), cycles.length = (poll plan cancel? turns world).1 ∧
      (∀ moments ∈ cycles, Operation.cycle.Runs plan.schedule moments) ∧
      world.Tells (cycles.flatten.map Moment.event) (poll plan cancel? turns world).2 := by
  induction turns generalizing world with
  | zero =>
      exact ⟨[], rfl, List.forall_mem_nil _, .unseen rfl rfl fun _ => rfl⟩
  | succ turns hypothesis =>
      have paused := tells_pauseOrCancel plan.schedule.debounce.millis cancel? world
      rw [poll]
      generalize pauseOrCancel plan.schedule.debounce.millis cancel? world = pause at paused ⊢
      obtain ⟨cancelled, rested⟩ := pause
      cases cancelled with
      | true => exact ⟨[], rfl, List.forall_mem_nil _, paused⟩
      | false =>
          obtain ⟨first, finishes, tells⟩ := exists_run_of_cycle plan rested
          obtain ⟨cycles, count, runs, tellsLater⟩ := hypothesis (run (cycle plan) rested).2
          refine ⟨first :: cycles, congrArg Nat.succ count, ?_, ?_⟩
          · intro moments member
            rcases List.mem_cons.mp member with rfl | later
            · exact ⟨_, finishes.mono fun _ _ _ => Cycle.TimedAnswered.answered⟩
            · exact runs moments later
          · rw [List.flatten_cons, List.map_append]
            exact paused.trans (tells.trans tellsLater)

/-- What a simulated poll loop does is a history, wherever the store holds what
it holds in that world. -/
theorem exists_history_of_poll (cancel? : Option Nat) (turns : Nat) (world : World) {site : Site}
    (same : site.contents = world.contents) :
    ∃ history : List (List Moment), history.length = (poll plan cancel? turns world).1 ∧
      History plan.schedule site history ∧
      (site.afterAll (history.flatten.map Moment.event)).contents =
        (poll plan cancel? turns world).2.contents := by
  obtain ⟨cycles, count, runs, tells⟩ := exists_cycles_of_poll plan cancel? turns world
  obtain ⟨lawful, final⟩ := tells.contents site same
  exact ⟨cycles, count, ⟨fun moments member => ⟨.cycle, runs moments member⟩, lawful⟩, final⟩

end Simulation
end InventoryGauges
