import InventoryGauges.Proofs.Simulation.Runs
import InventoryGauges.Proofs.Simulation.Work

/-!
# Calls to the gateway side by side

Many calls to the gateway are made with a limit on how many are in flight.  How
long each call takes, how it is answered and which one ends next is left open:
the invariant holds for each conduct, and the planned fan-out is one of them.
-/

namespace InventoryGauges
namespace Simulation

/-! ## Fan-outs of any conduct -/

/-- A call to the gateway with the time that it takes and its answer. -/
structure Trip where
  /-- The call. -/
  call : Gateway.Call
  /-- Milliseconds that the call takes. -/
  delay : Nat
  /-- The answer. -/
  answer : Gateway.Answer

/-- How a trip ends. -/
def Trip.ended (trip : Trip) : Gateway.Ended :=
  (trip.call, trip.answer)

/-- The end of a trip as a step of its thread. -/
def Trip.land (trip : Trip) : World → World :=
  World.endCall trip.call trip.answer.isAccepted

/-- How calls to the gateway go. -/
structure Conduct where
  /-- Milliseconds that a call at a place of the list takes. -/
  delay : Nat → Gateway.Call → Nat
  /-- The answer to a call at a place of the list. -/
  answer : Nat → Gateway.Call → Gateway.Answer
  /-- The trip in flight that ends next, with its instant, and the others. -/
  lands : List (Nat × Trip) → Option ((Nat × Trip) × List (Nat × Trip))
  /-- Some trip in flight ends next. -/
  perm_of_lands : ∀ {flights others flight}, lands flights = some (flight, others) →
    flights.Perm (flight :: others)
  /-- Some trip ends next as long as one is in flight. -/
  eq_nil_of_lands : ∀ {flights}, lands flights = none → flights = []

/-- The trip that may start, and those that wait further on. -/
def departs (limit : Nat) (flights : List (Nat × Trip)) : List Trip → Option (Trip × List Trip)
  | [] => none
  | trip :: waiting => if limit ≤ flights.length then none else some (trip, waiting)

section Departures

variable {limit : Nat} {flights : List (Nat × Trip)} {waiting later : List Trip} {trip : Trip}

theorem departs_eq_some_iff :
    departs limit flights waiting = some (trip, later) ↔
      waiting = trip :: later ∧ flights.length < limit := by
  cases waiting with
  | nil => simp [departs]
  | cons first waiting =>
      rw [departs]
      split <;> simp <;> omega

theorem departs_eq_none_iff :
    departs limit flights waiting = none ↔ waiting = [] ∨ limit ≤ flights.length := by
  cases waiting <;> simp [departs]

end Departures

namespace Conduct

/-- The trips of calls. -/
def trips (conduct : Conduct) (calls : List Gateway.Call) : List Trip :=
  calls.mapIdx fun place call => ⟨call, conduct.delay place call, conduct.answer place call⟩

/-- Make trips with a limit on how many are in flight.  A new one starts as soon as
there is room for it; one that takes no time ends as it starts. -/
def fly (conduct : Conduct) (limit : Nat) (waiting : List Trip) (flights : List (Nat × Trip))
    (ended : List Gateway.Ended) : Thread World (List Gateway.Ended) :=
  match _departure : departs limit flights waiting with
  | some (trip, later) =>
      if trip.delay = 0 then
        .act (trip.land ∘ World.startCall) fun _ =>
          conduct.fly limit later flights (trip.ended :: ended)
      else
        .act World.startCall fun world =>
          conduct.fly limit later (flights ++ [(world.elapsed + trip.delay, trip)]) ended
  | none =>
      match _landing : conduct.lands flights with
      | none => .ended ended.reverse
      | some ((instant, trip), others) =>
          .pause instant <| .act trip.land fun _ =>
            conduct.fly limit waiting others (trip.ended :: ended)
termination_by 2 * waiting.length + flights.length
decreasing_by
  all_goals
    first
    | obtain ⟨rfl, -⟩ := departs_eq_some_iff.mp _departure
      simp only [List.length_append, List.length_cons, List.length_nil]
      omega
    | have shorter := (conduct.perm_of_lands _landing).length_eq
      rw [List.length_cons] at shorter
      omega

/-- Calls to the gateway as a thread. -/
def fan (conduct : Conduct) (limit : Nat) (calls : List Gateway.Call) :
    Thread World (List Gateway.Ended) :=
  conduct.fly limit (conduct.trips calls) [] []

end Conduct

/-! ## The invariant of a fan-out -/

/-- Where a fan-out of trips is that began in a world: which trips wait, which are in
flight and how the others ended. -/
structure Underway (before : World) (limit : Nat) (trips waiting : List Trip)
    (flights : List (Nat × Trip)) (ended : List Gateway.Ended) (world : World) : Prop where
  /-- Each trip waits, is in flight or has ended, once. -/
  once : (ended ++ (flights.map (Trip.ended ∘ Prod.snd) ++ waiting.map Trip.ended)).Perm
    (trips.map Trip.ended)
  /-- The calls that ended are the new ones. -/
  calls : world.calls =
    before.calls ++ ended.reverse.map fun call => (call.1, call.2.isAccepted)
  /-- As many calls as trips are in flight. -/
  inFlight : world.log.inFlight = before.log.inFlight + flights.length
  /-- No more trips are in flight than there is room for. -/
  room : flights.length ≤ limit
  /-- There never were more calls in flight. -/
  most : world.log.mostInFlight ≤
    max before.log.mostInFlight (before.log.inFlight + limit)
  /-- Nothing is counted on the way. -/
  statistics : world.statistics = before.statistics

namespace Underway

variable {before world : World} {limit instant : Nat} {trips waiting others : List Trip}
  {flights left : List (Nat × Trip)} {ended : List Gateway.Ended} {trip : Trip}

theorem begin (before : World) (limit : Nat) (trips : List Trip) :
    Underway before limit trips trips [] [] before where
  once := .refl _
  calls := (List.append_nil _).symm
  inFlight := rfl
  room := Nat.zero_le _
  most := Nat.le_max_left _ _
  statistics := rfl

/-- A trip that may start is in flight then. -/
theorem start (underway : Underway before limit trips (trip :: waiting) flights ended world)
    (instant : Nat) (free : flights.length < limit) :
    Underway before limit trips waiting (flights ++ [(instant, trip)]) ended world.startCall where
  once := by
    rw [List.map_append, List.append_assoc]
    exact underway.once
  calls := underway.calls
  inFlight := by
    rw [List.length_append, List.length_singleton, ← Nat.add_assoc, ← underway.inFlight]
    rfl
  room := by
    rw [List.length_append, List.length_singleton]
    exact free
  most := by
    have most := underway.most
    have inFlight := underway.inFlight
    simp only [World.startCall]
    omega
  statistics := underway.statistics

/-- A trip that ends is no longer in flight. -/
theorem land (underway : Underway before limit trips waiting flights ended world)
    (landed : flights.Perm ((instant, trip) :: left)) :
    Underway before limit trips waiting left (trip.ended :: ended) (trip.land world) where
  once := by
    refine List.Perm.trans ?_ underway.once
    have flown := landed.map (Trip.ended ∘ Prod.snd)
    exact List.perm_middle.symm.trans ((flown.symm.append_right _).append_left _)
  calls := by
    rw [List.reverse_cons, List.map_append, ← List.append_assoc, ← underway.calls]
    simp [World.calls, Trip.land, World.endCall, Trip.ended]
  inFlight := by
    have inFlight := underway.inFlight
    rw [landed.length_eq, List.length_cons] at inFlight
    change world.log.inFlight - 1 = _
    omega
  room := by
    have room := underway.room
    rw [landed.length_eq, List.length_cons] at room
    omega
  most := underway.most
  statistics := underway.statistics

theorem setClock (underway : Underway before limit trips waiting flights ended world)
    (instant : Nat) :
    Underway before limit trips waiting flights ended (world.setClock instant) where
  once := underway.once
  calls := underway.calls
  inFlight := underway.inFlight
  room := underway.room
  most := underway.most
  statistics := underway.statistics

end Underway

namespace Conduct

section Steps

variable (conduct : Conduct) {limit instant : Nat} {waiting later : List Trip}
  {flights others : List (Nat × Trip)} {ended : List Gateway.Ended} {trip : Trip}

theorem fly_of_instant (departure : departs limit flights waiting = some (trip, later))
    (instantly : trip.delay = 0) :
    conduct.fly limit waiting flights ended =
      .act (trip.land ∘ World.startCall) fun _ =>
        conduct.fly limit later flights (trip.ended :: ended) := by
  rw [fly]
  split
  · rename_i found
    cases departure.symm.trans found
    rw [if_pos instantly]
  · rename_i none
    cases departure.symm.trans none

theorem fly_of_lasting (departure : departs limit flights waiting = some (trip, later))
    (lasting : trip.delay ≠ 0) :
    conduct.fly limit waiting flights ended =
      .act World.startCall fun world =>
        conduct.fly limit later (flights ++ [(world.elapsed + trip.delay, trip)]) ended := by
  rw [fly]
  split
  · rename_i found
    cases departure.symm.trans found
    rw [if_neg lasting]
  · rename_i none
    cases departure.symm.trans none

theorem fly_of_done (departure : departs limit flights waiting = none)
    (landing : conduct.lands flights = none) :
    conduct.fly limit waiting flights ended = .ended ended.reverse := by
  rw [fly]
  split
  · rename_i found
    cases departure.symm.trans found
  · split
    · rfl
    · rename_i found
      cases landing.symm.trans found

theorem fly_of_landing (departure : departs limit flights waiting = none)
    (landing : conduct.lands flights = some ((instant, trip), others)) :
    conduct.fly limit waiting flights ended =
      .pause instant (.act trip.land fun _ =>
        conduct.fly limit waiting others (trip.ended :: ended)) := by
  rw [fly]
  split
  · rename_i found
    cases departure.symm.trans found
  · split
    · rename_i none
      cases landing.symm.trans none
    · rename_i found
      cases landing.symm.trans found
      rfl

end Steps

/-- A fan-out of trips is underway. -/
def Meets (before : World) (limit : Nat) (trips : List Trip) (world : World) : Prop :=
  ∃ waiting flights ended, Underway before limit trips waiting flights ended world

/-- A fan-out of trips is underway, and no trip waits unless there is no room. -/
def Pauses (before : World) (limit : Nat) (trips : List Trip) (world : World) : Prop :=
  ∃ waiting flights ended, Underway before limit trips waiting flights ended world ∧
    (waiting = [] ∨ flights.length = limit)

/-- A fan-out ends when each trip has ended. -/
theorem runs_fly (conduct : Conduct) {limit : Nat} (positive : 0 < limit) {before world : World}
    {trips waiting : List Trip} {flights : List (Nat × Trip)} {ended : List Gateway.Ended}
    (underway : Underway before limit trips waiting flights ended world) :
    (conduct.fly limit waiting flights ended).Runs World.setClock (Meets before limit trips)
      (Pauses before limit trips)
      (fun result after => Underway before limit trips [] [] result.reverse after) world := by
  have meets : Meets before limit trips world := ⟨_, _, _, underway⟩
  induction waiting, flights, ended using fly.induct conduct limit generalizing world with
  | case1 waiting flights ended trip later departure instantly continues =>
      rw [fly_of_instant conduct departure instantly]
      obtain ⟨rfl, free⟩ := departs_eq_some_iff.mp departure
      have landed := (underway.start 0 free).land List.perm_append_comm
      exact ⟨meets, continues landed ⟨_, _, _, landed⟩⟩
  | case2 waiting flights ended trip later departure lasting continues =>
      rw [fly_of_lasting conduct departure lasting]
      obtain ⟨rfl, free⟩ := departs_eq_some_iff.mp departure
      have started := underway.start (world.elapsed + trip.delay) free
      exact ⟨meets, continues world started ⟨_, _, _, started⟩⟩
  | case3 waiting flights ended departure landing =>
      rw [fly_of_done conduct departure landing]
      obtain rfl := conduct.eq_nil_of_lands landing
      obtain rfl | full := departs_eq_none_iff.mp departure
      · rw [Thread.Runs, List.reverse_reverse]
        exact ⟨meets, underway⟩
      · exact absurd positive (Nat.not_lt.mpr full)
  | case4 waiting flights ended departure instant trip others landing continues =>
      rw [fly_of_landing conduct departure landing]
      have full : waiting = [] ∨ flights.length = limit :=
        (departs_eq_none_iff.mp departure).imp_right underway.room.antisymm
      have paused := underway.setClock instant
      have landed := paused.land (conduct.perm_of_lands landing)
      exact ⟨meets, ⟨_, _, _, underway, full⟩, ⟨_, _, _, paused⟩,
        continues landed ⟨_, _, _, landed⟩⟩

end Conduct

/-! ## Planned fan-outs -/

/-- The conduct of calls that go as planned, those that end first being seen first. -/
def Conduct.planned (plan : GatewayPlan) : Conduct where
  delay := fun _ => plan.delay
  answer := fun _ => plan.answer
  lands := soonest?
  perm_of_lands := perm_of_soonest?
  eq_nil_of_lands := eq_nil_of_soonest?

/-- A call that goes as planned. -/
def GatewayPlan.trip (plan : GatewayPlan) (call : Gateway.Call) : Trip :=
  ⟨call, plan.delay call, plan.answer call⟩

theorem Conduct.trips_planned (plan : GatewayPlan) (calls : List Gateway.Call) :
    (Conduct.planned plan).trips calls = calls.map plan.trip := by
  rw [Conduct.trips]
  exact List.ext_getElem (by simp) fun _ _ _ => by simp [Conduct.planned, GatewayPlan.trip]

section Planned

variable {plan : GatewayPlan} {limit steps instant : Nat} {call : Gateway.Call}
  {waiting : List Gateway.Call} {flights others : List Flight} {ended : List Gateway.Ended}

theorem fly_of_blocked_none (blocked : waiting = [] ∨ limit ≤ flights.length)
    (landing : earliest? flights = none) :
    fly plan limit (steps + 1) waiting flights ended = .ended ended.reverse := by
  cases waiting with
  | nil => rw [fly, landing]
  | cons call waiting =>
      rw [fly, landing]
      exact if_pos (blocked.resolve_left (List.cons_ne_nil _ _))

theorem fly_of_blocked (blocked : waiting = [] ∨ limit ≤ flights.length)
    (landing : earliest? flights = some ((instant, call), others)) :
    fly plan limit (steps + 1) waiting flights ended =
      .pause instant (.act (plan.trip call).land fun _ =>
        fly plan limit steps waiting others ((plan.trip call).ended :: ended)) := by
  cases waiting with
  | nil =>
      rw [fly, landing]
      rfl
  | cons call waiting =>
      rw [fly, landing]
      exact if_pos (blocked.resolve_left (List.cons_ne_nil _ _))

theorem fly_of_free_instant (free : ¬ limit ≤ flights.length)
    (instantly : (plan.trip call).delay = 0) :
    fly plan limit (steps + 1) (call :: waiting) flights ended =
      .act ((plan.trip call).land ∘ World.startCall) fun _ =>
        fly plan limit steps waiting flights ((plan.trip call).ended :: ended) := by
  rw [fly]
  exact (if_neg free).trans (if_pos instantly)

theorem fly_of_free_lasting (free : ¬ limit ≤ flights.length)
    (lasting : (plan.trip call).delay ≠ 0) :
    fly plan limit (steps + 1) (call :: waiting) flights ended =
      .act World.startCall fun world =>
        fly plan limit steps waiting
          (flights ++ [(world.elapsed + (plan.trip call).delay, call)]) ended := by
  rw [fly]
  exact (if_neg free).trans (if_neg lasting)

/-- Planned calls are a fan-out as long as there are steps for their starts and ends. -/
theorem fly_eq_planned (bound : 2 * waiting.length + flights.length < steps) :
    fly plan limit steps waiting flights ended =
      (Conduct.planned plan).fly limit (waiting.map plan.trip)
        (flights.map (Prod.map id plan.trip)) ended := by
  induction steps generalizing waiting flights ended with
  | zero => exact absurd bound (Nat.not_lt_zero _)
  | succ steps hypothesis =>
      by_cases blocked : waiting = [] ∨ limit ≤ flights.length
      · have departure : departs limit (flights.map (Prod.map id plan.trip))
            (waiting.map plan.trip) = none := by
          rwa [departs_eq_none_iff, List.map_eq_nil_iff, List.length_map]
        have same := soonest?_map plan.trip flights
        cases landing : soonest? flights with
        | none =>
            rw [landing] at same
            rw [fly_of_blocked_none blocked ((earliest?_eq flights).trans landing),
              Conduct.fly_of_done _ departure same]
        | some landed =>
            obtain ⟨⟨instant, call⟩, others⟩ := landed
            rw [landing] at same
            have shorter := (perm_of_soonest? landing).length_eq
            rw [List.length_cons] at shorter
            rw [fly_of_blocked blocked ((earliest?_eq flights).trans landing),
              Conduct.fly_of_landing _ departure same, hypothesis (by omega)]
            rfl
      · obtain ⟨some, free⟩ := not_or.mp blocked
        obtain ⟨call, waiting, rfl⟩ := List.exists_cons_of_ne_nil some
        rw [List.length_cons] at bound
        have departure :
            departs limit (flights.map (Prod.map id plan.trip))
                ((call :: waiting).map plan.trip) =
              .some (plan.trip call, waiting.map plan.trip) := by
          rw [departs_eq_some_iff, List.length_map]
          exact ⟨rfl, Nat.lt_of_not_le free⟩
        by_cases instantly : (plan.trip call).delay = 0
        · rw [fly_of_free_instant free instantly, Conduct.fly_of_instant _ departure instantly,
            hypothesis (by omega)]
        · rw [fly_of_free_lasting free instantly, Conduct.fly_of_lasting _ departure instantly]
          refine congrArg _ (funext fun world => ?_)
          rw [hypothesis (by rw [List.length_append, List.length_singleton]; omega),
            List.map_append]
          rfl

end Planned

theorem callAll_eq_planned (plan : GatewayPlan) :
    callAll plan = (Conduct.planned plan).fan := by
  funext limit calls
  have bound : 2 * calls.length + ([] : List Flight).length < 2 * calls.length + 1 :=
    Nat.lt_succ_self _
  rw [callAll, fly_eq_planned bound, Conduct.fan, Conduct.trips_planned]
  rfl

/-- A piece of work whose calls to the gateway are made in a given way; all else is as
planned. -/
def workBy (plan : Plan) (fan : Nat → List Gateway.Call → Thread World (List Gateway.Ended))
    {Result : Type} : Work Result → Thread World (Option Result)
  | .done result => .ended (some result)
  | .ask (.gateway limit calls) next =>
      (fan limit calls).andThen fun ended => workBy plan fan (next ended)
  | .ask request next =>
      (work plan (Program.request request)).andThen fun
        | some answer => workBy plan fan (next answer)
        | none => .ended none

theorem workBy_count (plan : Plan)
    (fan : Nat → List Gateway.Call → Thread World (List Gateway.Ended)) {Result : Type}
    (counter : Counter) (amount : Nat) (next : Unit → Work Result) :
    workBy plan fan (.ask (.count counter amount) next) =
      .act (World.count counter amount) fun _ => workBy plan fan (next ()) := by
  simp only [workBy, Program.request, work, Thread.andThen]

/-- A simulated piece of work makes its calls as planned. -/
theorem work_eq_workBy (plan : Plan) {Result : Type} (program : Work Result) :
    work plan program = workBy plan (Conduct.planned plan.gateway).fan program := by
  induction program with
  | done result => rfl
  | ask request next hypothesis =>
      cases request with
      | gateway limit calls =>
          rw [work, workBy, callAll_eq_planned]
          simp only [hypothesis]
      | query className filter =>
          simp only [workBy, Program.request, work, hypothesis, Thread.andThen]
          refine congrArg _ (funext fun _ => ?_)
          rw [Thread.andThen_assoc]
          refine congrArg _ (funext fun _ => ?_)
          cases (plan.query className).outcome <;> rfl
      | store _ | wipe | clock | count _ _ =>
          simp only [workBy, Program.request, work, hypothesis, Thread.andThen]

end Simulation
end InventoryGauges
