import InventoryGauges.Proofs.Sampling.Answers
import InventoryGauges.Proofs.Simulation.FanOut

/-!
# Withdrawals and publications side by side

Whatever time each call to the gateway takes, however it is answered and in
whatever order the calls end, each entry is called for once and counted once,
and time passes with entries left over only while there is no room in flight.
-/

namespace InventoryGauges
namespace Simulation

namespace World

/-- There are not and never were more than so many calls in flight beside those that
were before. -/
def Within (before : World) (limit : Nat) (world : World) : Prop :=
  world.log.inFlight ≤ before.log.inFlight + limit ∧
    world.log.mostInFlight ≤ max before.log.mostInFlight (before.log.inFlight + limit)

/-- The number of calls that were started since. -/
def startedSince (before world : World) : Nat :=
  (world.calls.length - before.calls.length) + (world.log.inFlight - before.log.inFlight)

/-- As long as not so many calls were started, there is no room in flight. -/
def Full (before : World) (limit total : Nat) (world : World) : Prop :=
  before.startedSince world < total → world.log.inFlight = before.log.inFlight + limit

end World

namespace Conduct

/-- The entries of a list whose calls are refused. -/
def refused {Entry : Type} (conduct : Conduct) (call : Entry → Gateway.Call)
    (entries : List Entry) : List Entry :=
  (entries.zipIdx.filter fun entry =>
    !(conduct.answer entry.2 (call entry.1)).isAccepted).map Prod.fst

/-- The call for each entry of a list, and whether it is accepted. -/
def outcomes (conduct : Conduct) (calls : List Gateway.Call) : List (Gateway.Call × Bool) :=
  calls.mapIdx fun place call => (call, (conduct.answer place call).isAccepted)

end Conduct

/-- What calls for the entries of a list leave: one call for each entry, with its answer,
and each one counted. -/
structure Settled {Entry : Type} (conduct : Conduct) (call : Entry → Gateway.Call)
    (accepted failed : Counter) (entries : List Entry) (before after : World) : Prop where
  /-- Each entry was called for once. -/
  once : ∃ made, after.calls = before.calls ++ made ∧
    made.Perm (conduct.outcomes (entries.map call))
  /-- No call is in flight any more. -/
  landed : after.log.inFlight = before.log.inFlight
  /-- Refused calls are counted as such. -/
  refused : after.statistics.count failed =
    before.statistics.count failed + (conduct.refused call entries).length
  /-- Each call is counted. -/
  counted : after.statistics.count accepted + after.statistics.count failed =
    before.statistics.count accepted + before.statistics.count failed + entries.length

namespace Underway

variable {before world : World} {limit : Nat} {trips waiting : List Trip}
  {flights : List (Nat × Trip)} {ended : List Gateway.Ended}

theorem within (underway : Underway before limit trips waiting flights ended world) :
    before.Within limit world := by
  have room := underway.room
  have inFlight := underway.inFlight
  exact ⟨by omega, underway.most⟩

theorem startedSince (underway : Underway before limit trips waiting flights ended world) :
    before.startedSince world + waiting.length = trips.length := by
  have once := underway.once.length_eq
  simp only [List.length_append, List.length_map] at once
  rw [World.startedSince, underway.calls, underway.inFlight, List.length_append, List.length_map,
    List.length_reverse, Nat.add_sub_cancel_left, Nat.add_sub_cancel_left, Nat.add_assoc]
  exact once

theorem full (underway : Underway before limit trips waiting flights ended world)
    (full : waiting = [] ∨ flights.length = limit) : before.Full limit trips.length world := by
  intro fewer
  have started := underway.startedSince
  obtain rfl | full := full
  · rw [List.length_nil, Nat.add_zero] at started
    exact absurd started fewer.ne
  · rw [underway.inFlight, full]

/-- When no trip waits or is in flight, each trip has ended. -/
theorem perm_ended (underway : Underway before limit trips [] [] ended.reverse world) :
    ended.Perm (trips.map Trip.ended) := by
  have once := underway.once
  rw [List.map_nil, List.map_nil, List.append_nil, List.append_nil] at once
  exact (List.reverse_perm ended).symm.trans once

end Underway

namespace Conduct

variable {Entry : Type} (conduct : Conduct) (call : Entry → Gateway.Call) (entries : List Entry)

theorem length_trips (calls : List Gateway.Call) : (conduct.trips calls).length = calls.length :=
  List.length_mapIdx

/-- A fan-out keeps to its limit, pauses only when it is full and ends with each trip. -/
theorem runs_fan {limit : Nat} (positive : 0 < limit) (calls : List Gateway.Call)
    (before : World) :
    (conduct.fan limit calls).Runs World.setClock (before.Within limit)
      (before.Full limit calls.length)
      (fun ended after => Underway before limit (conduct.trips calls) [] [] ended.reverse after)
      before := by
  refine (conduct.runs_fly positive (.begin before limit (conduct.trips calls))).mono ?_ ?_ ?_
  · rintro world ⟨_, _, _, underway⟩
    exact underway.within
  · rintro world ⟨_, _, _, underway, full⟩
    rw [← conduct.length_trips calls]
    exact underway.full full
  · exact fun _ _ underway => underway

/-- How the calls for the entries of a list end. -/
theorem ended_trips :
    (conduct.trips (entries.map call)).map Trip.ended =
      entries.zipIdx.map fun entry =>
        (call entry.1, conduct.answer entry.2 (call entry.1)) := by
  exact List.ext_getElem (by simp [trips]) fun _ _ _ => by simp [trips, Trip.ended]

theorem outcomes_eq :
    conduct.outcomes (entries.map call) =
      ((conduct.trips (entries.map call)).map Trip.ended).map fun ended =>
        (ended.1, ended.2.isAccepted) := by
  exact List.ext_getElem (by simp [trips, outcomes]) fun _ _ _ => by
    simp [trips, outcomes, Trip.ended]

/-- The refused calls are those for the refused entries. -/
theorem refusals_ended :
    Sampling.refusals ((conduct.trips (entries.map call)).map Trip.ended) =
      (conduct.refused call entries).length := by
  rw [ended_trips, Sampling.refusals, refused, List.filter_map, List.length_map, List.length_map]
  rfl

theorem refusedIds_ended (ids : List String) :
    Sampling.refusedIds ((conduct.trips (ids.map .delete)).map Trip.ended) =
      conduct.refused .delete ids := by
  rw [ended_trips, Sampling.refusedIds, refused, List.filterMap_map]
  induction ids.zipIdx with
  | nil => rfl
  | cons entry entries hypothesis =>
      rw [List.filterMap_cons, List.filter_cons, hypothesis]
      cases answered : conduct.answer entry.2 (.delete entry.1) <;>
        simp [answered, Gateway.Answer.isAccepted]

end Conduct

/-- Calls that have all ended are settled when they are counted. -/
theorem Settled.of_underway {Entry : Type} {conduct : Conduct} {call : Entry → Gateway.Call}
    {accepted failed : Counter} {entries : List Entry} {before after : World} {limit : Nat}
    {ended : List Gateway.Ended} (other : failed ≠ accepted)
    (underway :
      Underway before limit (conduct.trips (entries.map call)) [] [] ended.reverse after) :
    Settled conduct call accepted failed entries before
      ((after.count accepted (ended.length - (conduct.refused call entries).length)).count failed
        (conduct.refused call entries).length) := by
  have same := underway.perm_ended
  have total : ended.length = entries.length := by
    rw [same.length_eq, List.length_map, Conduct.length_trips, List.length_map]
  have fewer : (conduct.refused call entries).length ≤ entries.length := by
    rw [Conduct.refused, List.length_map]
    exact (List.length_filter_le _ _).trans_eq List.length_zipIdx
  constructor
  case once =>
    refine ⟨ended.map fun call => (call.1, call.2.isAccepted), ?_, ?_⟩
    · have calls := underway.calls
      rw [List.reverse_reverse] at calls
      exact calls
    · rw [Conduct.outcomes_eq]
      exact same.map _
  case landed => exact underway.inFlight
  case refused =>
    simp [World.count, underway.statistics, other]
  case counted =>
    simp [World.count, underway.statistics, other, other.symm]
    omega

section Work

variable (conduct : Conduct) (plan : Plan) (concurrency : Nat) (before : World)

/-- A withdrawal makes its calls and then counts them. -/
theorem workBy_withdraw (fan : Nat → List Gateway.Call → Thread World (List Gateway.Ended))
    (ids : List String) :
    workBy plan fan (Sampling.withdraw concurrency ids) =
      (fan (max concurrency 1) (ids.map .delete)).andThen fun ended =>
        let refused := Sampling.refusedIds ended
        .act (World.count .gaugesDeleted (ended.length - refused.length)) fun _ =>
          .act (World.count .deleteFailures refused.length) fun _ => .ended (some refused) := by
  rw [Sampling.withdraw, Work.gateway, Program.request, Program.bind_ask, workBy]
  simp only [Work.count, Program.request, Program.bind_ask, Program.bind_done, Program.pure_eq,
    workBy_count, workBy]
  rfl

/-- A publication makes its calls and then counts them. -/
theorem workBy_publish (fan : Nat → List Gateway.Call → Thread World (List Gateway.Ended))
    (samples : List Gauge.Sample) :
    workBy plan fan (Sampling.publish concurrency samples) =
      (fan (max concurrency 1) (samples.map .push)).andThen fun ended =>
        let refused := Sampling.refusals ended
        .act (World.count .gaugesPushed (ended.length - refused)) fun _ =>
          .act (World.count .pushFailures refused) fun _ => .ended (some refused) := by
  rw [Sampling.publish, Work.gateway, Program.request, Program.bind_ask, workBy]
  simp only [Work.count, Program.request, Program.bind_ask, Program.bind_done, Program.pure_eq,
    workBy_count, workBy, Sampling.refusals]

theorem runs_withdraw (ids : List String) :
    (workBy plan conduct.fan (Sampling.withdraw concurrency ids)).Runs World.setClock
      (before.Within (max concurrency 1)) (before.Full (max concurrency 1) ids.length)
      (fun result after => ∃ undeleted, result = some undeleted ∧
        undeleted.Perm (conduct.refused .delete ids) ∧
        Settled conduct .delete .gaugesDeleted .deleteFailures ids before after) before := by
  have runs := conduct.runs_fan (Nat.le_max_right concurrency 1) (ids.map .delete) before
  rw [List.length_map] at runs
  rw [workBy_withdraw]
  refine Thread.Runs.andThen (runs.mono (fun _ within => within) (fun _ full => full) ?_)
  intro ended after underway
  have perm : (Sampling.refusedIds ended).Perm (conduct.refused .delete ids) := by
    rw [← conduct.refusedIds_ended ids]
    exact underway.perm_ended.filterMap _
  have settled : Settled conduct .delete .gaugesDeleted .deleteFailures ids before _ :=
    .of_underway nofun underway
  rw [← perm.length_eq] at settled
  exact ⟨underway.within, underway.within, underway.within, _, rfl, perm, settled⟩

theorem runs_publish (samples : List Gauge.Sample) :
    (workBy plan conduct.fan (Sampling.publish concurrency samples)).Runs World.setClock
      (before.Within (max concurrency 1)) (before.Full (max concurrency 1) samples.length)
      (fun result after => result = some (conduct.refused .push samples).length ∧
        Settled conduct .push .gaugesPushed .pushFailures samples before after) before := by
  have runs := conduct.runs_fan (Nat.le_max_right concurrency 1) (samples.map .push) before
  rw [List.length_map] at runs
  rw [workBy_publish]
  refine Thread.Runs.andThen (runs.mono (fun _ within => within) (fun _ full => full) ?_)
  intro ended after underway
  have number : Sampling.refusals ended = (conduct.refused .push samples).length := by
    rw [← conduct.refusals_ended .push samples]
    exact (underway.perm_ended.filter _).length_eq
  have settled : Settled conduct .push .gaugesPushed .pushFailures samples before _ :=
    .of_underway nofun underway
  rw [← number] at settled ⊢
  exact ⟨underway.within, underway.within, underway.within, rfl, settled⟩

end Work

/-- However long its calls take, however they are answered and in whatever order they end,
a withdrawal makes one call for each identity, keeps to the limit, pauses with identities
left over only at the limit, counts each call and gives the refused identities.  So does a
publication, whose result is the number of refused samples. -/
theorem fan_out_calls_each_once (conduct : Conduct) (plan : Plan) (concurrency : Nat)
    (before : World) :
    (∀ ids : List String,
      (workBy plan conduct.fan (Sampling.withdraw concurrency ids)).Runs World.setClock
        (before.Within (max concurrency 1)) (before.Full (max concurrency 1) ids.length)
        (fun result after => ∃ undeleted, result = some undeleted ∧
          undeleted.Perm (conduct.refused .delete ids) ∧
          Settled conduct .delete .gaugesDeleted .deleteFailures ids before after) before) ∧
    (∀ samples : List Gauge.Sample,
      (workBy plan conduct.fan (Sampling.publish concurrency samples)).Runs World.setClock
        (before.Within (max concurrency 1)) (before.Full (max concurrency 1) samples.length)
        (fun result after => result = some (conduct.refused .push samples).length ∧
          Settled conduct .push .gaugesPushed .pushFailures samples before after) before) ∧
    ∀ {Result : Type} (program : Work Result),
      work plan program = workBy plan (Conduct.planned plan.gateway).fan program :=
  ⟨runs_withdraw conduct plan concurrency before, runs_publish conduct plan concurrency before,
    work_eq_workBy plan⟩

end Simulation
end InventoryGauges
