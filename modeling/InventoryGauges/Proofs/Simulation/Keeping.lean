import InventoryGauges.Simulation.Tasks

/-!
# What threads keep

What no step of a thread changes is the same when the thread ends, however
threads are put together.  So only pauses move the clock.
-/

namespace InventoryGauges
namespace Simulation
namespace Thread

variable {State Kept Result Final Left Right : Type} {view : State → Kept}

/-- Whether no step of a thread changes what is seen of the state. -/
def Keeps (view : State → Kept) : Thread State Result → Prop
  | .ended _ => True
  | .act effect next =>
      (∀ state, view (effect state) = view state) ∧ ∀ state, (next state).Keeps view
  | .pause _ rest => rest.Keeps view

theorem Keeps.andThen {thread : Thread State Result} {rest : Result → Thread State Final}
    (keeps : thread.Keeps view) (later : ∀ result, (rest result).Keeps view) :
    (thread.andThen rest).Keeps view := by
  induction thread with
  | ended result => exact later result
  | act effect next hypothesis => exact ⟨keeps.1, fun state => hypothesis state (keeps.2 state)⟩
  | pause instant thread hypothesis => exact hypothesis keeps

theorem Keeps.cutAt {thread instead : Thread State Result} (instant : Nat)
    (keeps : thread.Keeps view) (takesOver : instead.Keeps view) :
    (Thread.cutAt instant instead thread).Keeps view := by
  induction thread with
  | ended result => trivial
  | act effect next hypothesis => exact ⟨keeps.1, fun state => hypothesis state (keeps.2 state)⟩
  | pause next rest hypothesis =>
      rw [Thread.cutAt]
      split
      · exact hypothesis keeps
      · exact takesOver

theorem Keeps.bothPaused {thread : Thread State Right} {instant : Nat}
    {stay : Right → Thread State (Left × Right)}
    {ready : Thread State Right → Thread State (Left × Right)} (keeps : thread.Keeps view)
    (stays : ∀ result, (stay result).Keeps view)
    (readies : ∀ other : Thread State Right, other.Keeps view → (ready other).Keeps view) :
    (thread.bothPaused instant stay ready).Keeps view := by
  induction thread with
  | ended result => exact stays result
  | act effect next hypothesis => exact ⟨keeps.1, fun state => hypothesis state (keeps.2 state)⟩
  | pause other rest hypothesis =>
      rw [Thread.bothPaused]
      split
      · exact readies _ keeps
      · exact hypothesis keeps

theorem Keeps.both {left : Thread State Left} {right : Thread State Right}
    (keeps : left.Keeps view) (keepsRight : right.Keeps view) : (left.both right).Keeps view := by
  induction left generalizing right with
  | ended result => exact keepsRight.andThen fun _ => trivial
  | act effect next hypothesis =>
      exact ⟨keeps.1, fun state => hypothesis state (keeps.2 state) keepsRight⟩
  | pause instant rest hypothesis =>
      rw [Thread.both]
      have stays (result : Right) : (rest.andThen fun left => .ended (left, result)).Keeps view :=
        Keeps.andThen keeps fun _ => trivial
      exact keepsRight.bothPaused stays fun other keepsOther => hypothesis keeps keepsOther

theorem keeps_all {threads : List (Thread State Result)}
    (keep : ∀ thread ∈ threads, thread.Keeps view) : (all threads).Keeps view := by
  induction threads with
  | nil => trivial
  | cons thread threads hypothesis =>
      have others := hypothesis fun other member => keep other (List.mem_cons_of_mem thread member)
      exact ((keep thread List.mem_cons_self).both others).andThen fun _ => trivial

end Thread

/-- No step of a cycle changes what is seen of a world. -/
structure Untouched {Kept : Type} (view : World → Kept) : Prop where
  store : ∀ call world, view (world.store call).2 = view world
  addQuery : ∀ className filter world, view (World.addQuery className filter world) = view world
  startCall : ∀ world, view (World.startCall world) = view world
  endCall : ∀ call accepted world, view (World.endCall call accepted world) = view world
  addWipe : ∀ world, view (World.addWipe world) = view world
  count : ∀ counter amount world, view (World.count counter amount world) = view world
  countCycle : ∀ started world, view (World.countCycle started world) = view world

section Untouched

variable {Kept : Type} {view : World → Kept} (untouched : Untouched view) (plan : Plan)

include untouched

theorem keeps_fly (gateway : GatewayPlan) (limit steps : Nat) (waiting : List Gateway.Call)
    (flights : List Flight) (ended : List Gateway.Ended) :
    (fly gateway limit steps waiting flights ended).Keeps view := by
  induction steps generalizing waiting flights ended with
  | zero => trivial
  | succ steps hypothesis =>
      cases waiting with
      | nil =>
          rw [fly]
          cases earliest? flights with
          | none => trivial
          | some landing => exact ⟨untouched.endCall _ _, fun _ => hypothesis _ _ _⟩
      | cons call waiting =>
          rw [fly]
          dsimp only
          split
          · cases earliest? flights with
            | none => trivial
            | some landing => exact ⟨untouched.endCall _ _, fun _ => hypothesis _ _ _⟩
          · split
            · refine ⟨fun world => ?_, fun _ => hypothesis _ _ _⟩
              exact (untouched.endCall _ _ _).trans (untouched.startCall world)
            · exact ⟨untouched.startCall, fun _ => hypothesis _ _ _⟩

omit untouched in
theorem keeps_rest (millis : Nat) : (rest millis).Keeps view := by
  rw [rest]
  split
  · trivial
  · exact ⟨fun _ => rfl, fun _ => trivial⟩

theorem keeps_work {Result : Type} (program : Work Result) : (work plan program).Keeps view := by
  induction program with
  | done result => trivial
  | ask request next hypothesis =>
      cases request with
      | store call => exact ⟨untouched.store call, fun _ => hypothesis _⟩
      | query className filter =>
          rw [work]
          refine ⟨untouched.addQuery className filter, fun _ => (keeps_rest _).andThen fun _ => ?_⟩
          cases (plan.query className).outcome with
          | objects objects => exact hypothesis _
          | fails error => exact hypothesis _
          | breaks => trivial
      | gateway limit calls =>
          exact (keeps_fly untouched plan.gateway limit _ calls [] []).andThen hypothesis
      | wipe => exact ⟨untouched.addWipe, fun _ => hypothesis _⟩
      | clock => exact ⟨fun _ => rfl, fun _ => hypothesis _⟩
      | count counter amount => exact ⟨untouched.count counter amount, fun _ => hypothesis ()⟩

theorem keeps_pass (metric : Metric) : (pass plan metric).Keeps view := by
  refine ⟨fun _ => rfl, fun _ => Thread.Keeps.cutAt _ ?_ ?_⟩
  · refine (keeps_work untouched plan _).andThen fun result? => ?_
    cases result? <;> trivial
  · exact (keeps_work untouched plan _).andThen fun _ => trivial

theorem keeps_part {Result : Type} (program : Cycle Result) : (part plan program).Keeps view := by
  induction program with
  | done result => trivial
  | ask request next hypothesis =>
      cases request with
      | single request =>
          rw [part]
          refine (keeps_work untouched plan _).andThen fun answer? => ?_
          cases answer? with
          | none => trivial
          | some answer => exact hypothesis answer
      | passes metrics =>
          rw [part]
          refine (Thread.keeps_all fun thread member => ?_).andThen hypothesis
          obtain ⟨metric, -, rfl⟩ := List.mem_map.mp member
          exact keeps_pass untouched plan metric
      | instant => exact ⟨fun _ => rfl, fun world => hypothesis world.elapsed⟩
      | observe started => exact ⟨untouched.countCycle started, fun _ => hypothesis ()⟩

end Untouched

/-! ## The clock -/

theorem untouched_elapsed : Untouched World.elapsed where
  store := by
    intro call world
    rw [World.store]
    split <;> rfl
  addQuery := fun _ _ _ => rfl
  startCall := fun _ => rfl
  endCall := fun _ _ _ => rfl
  addWipe := fun _ => rfl
  count := fun _ _ _ => rfl
  countCycle := fun _ _ => rfl

/-- Only pauses move the clock, and never back. -/
theorem elapsed_le_of_keeps {Result : Type} {thread : Thread World Result}
    (keeps : thread.Keeps World.elapsed) (world : World) :
    world.elapsed ≤ (run thread world).2.elapsed := by
  induction thread generalizing world with
  | ended result => exact Nat.le_refl _
  | act effect next hypothesis =>
      have later := hypothesis world (keeps.2 world) (effect world)
      rw [keeps.1 world] at later
      exact later
  | pause instant rest hypothesis =>
      exact Nat.le_trans (Nat.le_max_left _ _) (hypothesis keeps (world.setClock instant))

theorem elapsed_le_run_cycle (plan : Plan) (world : World) :
    world.elapsed ≤ (run (cycle plan) world).2.elapsed :=
  have keeps : (cycle plan).Keeps World.elapsed :=
    (keeps_part untouched_elapsed plan _).andThen fun _ => trivial
  elapsed_le_of_keeps keeps world

end Simulation
end InventoryGauges
