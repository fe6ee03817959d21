import InventoryGauges.Proofs.Execution.Interruption
import InventoryGauges.Proofs.Simulation.Following
import InventoryGauges.Simulation.Tasks

/-!
# Simulated pieces of work

What a piece of work does in a simulated world is one of its runs, also when it
is cut off or breaks down, and whatever the plan says.
-/

namespace InventoryGauges
namespace Work

variable {Result : Type}

/-- How a piece of work may end: with its result, or with none when it breaks
down. -/
def Ends (work : Work Result) (events : List Event) : Option Result → Prop
  | some result => Program.Finishes Answered work events result
  | none => Stalls work events

theorem Ends.ask {request : Request} {next : request.Answer → Work Result}
    {answer : request.Answer} {first events : List Event} {result? : Option Result}
    (answers : Answered request answer first) (ends : Ends (next answer) events result?) :
    Ends (.ask request next) (first ++ events) result? := by
  cases result? with
  | none => exact Stalls.ask answers ends
  | some result => exact Program.Finishes.ask answers ends

end Work

namespace Simulation

open Thread (Follows)

section Soonest

variable {Value : Type} {flights others : List (Nat × Value)} {flight : Nat × Value}

/-- The flight of any kind that ends first, and the others. -/
def soonest? : List (Nat × Value) → Option ((Nat × Value) × List (Nat × Value))
  | [] => none
  | flight :: flights =>
      match soonest? flights with
      | none => some (flight, [])
      | some (other, others) =>
          if flight.1 ≤ other.1 then some (flight, flights)
          else some (other, flight :: others)

theorem eq_nil_of_soonest? (none : soonest? flights = none) : flights = [] := by
  cases flights with
  | nil => rfl
  | cons flight flights =>
      rw [soonest?] at none
      split at none
      · cases none
      · split at none <;> cases none

theorem perm_of_soonest? (found : soonest? flights = some (flight, others)) :
    flights.Perm (flight :: others) := by
  induction flights generalizing flight others with
  | nil => cases found
  | cons first flights hypothesis =>
      rw [soonest?] at found
      split at found
      · rename_i empty
        obtain ⟨rfl, rfl⟩ := Prod.mk.inj (Option.some.inj found)
        rw [eq_nil_of_soonest? empty]
      · rename_i other rest soonest
        split at found
        · obtain ⟨rfl, rfl⟩ := Prod.mk.inj (Option.some.inj found)
          exact .refl _
        · obtain ⟨rfl, rfl⟩ := Prod.mk.inj (Option.some.inj found)
          exact ((hypothesis soonest).cons first).trans (.swap _ _ _)

/-- Only the instants tell which flight ends first. -/
theorem soonest?_map {Other : Type} (view : Value → Other) (flights : List (Nat × Value)) :
    soonest? (flights.map (Prod.map id view)) =
      (soonest? flights).map (Prod.map (Prod.map id view) (List.map (Prod.map id view))) := by
  induction flights with
  | nil => rfl
  | cons flight flights hypothesis =>
      rw [List.map_cons, soonest?, soonest?, hypothesis]
      cases soonest? flights with
      | none => rfl
      | some found =>
          dsimp only [Option.map, Prod.map, id]
          split <;> rfl

end Soonest

theorem earliest?_eq (flights : List Flight) : earliest? flights = soonest? flights := by
  induction flights with
  | nil => rfl
  | cons flight flights hypothesis =>
      rw [earliest?, soonest?, hypothesis]
      cases soonest? flights <;> rfl

theorem eq_nil_of_earliest? {flights : List Flight} (none : earliest? flights = none) :
    flights = [] := by
  rw [earliest?_eq] at none
  exact eq_nil_of_soonest? none

theorem perm_of_earliest? {flights others : List Flight} {flight : Flight}
    (found : earliest? flights = some (flight, others)) : flights.Perm (flight :: others) := by
  rw [earliest?_eq] at found
  exact perm_of_soonest? found

/-- What is told of calls to the gateway of which some have ended. -/
def SomeEnded (calls : List Gateway.Call) (told : List Event) : Prop :=
  ∃ ended more : List Gateway.Ended, ((ended ++ more).map Prod.fst).Perm calls ∧
    told = ended.map Event.ofEnded

/-- What is told of calls to the gateway that have all ended. -/
def AllEnded (calls : List Gateway.Call) (told : List Event) (ended : List Gateway.Ended) : Prop :=
  (ended.map Prod.fst).Perm calls ∧ told = ended.map Event.ofEnded

section Flights

variable {plan : GatewayPlan} {limit steps : Nat} {calls waiting : List Gateway.Call}
  {flights : List Flight} {ended : List Gateway.Ended}

/-- While the first flight lands, the others and what waits may be cut off. -/
theorem follows_land
    (same : (ended.map Prod.fst ++ (flights.map Prod.snd ++ waiting)).Perm calls)
    (empty : flights = [] → waiting = [])
    (continues : ∀ instant call others, earliest? flights = some ((instant, call), others) →
      Follows id (SomeEnded calls) (AllEnded calls)
        (((call, plan.answer call) :: ended).reverse.map Event.ofEnded)
        (fly plan limit steps waiting others ((call, plan.answer call) :: ended))) :
    Follows id (SomeEnded calls) (AllEnded calls) (ended.reverse.map Event.ofEnded)
      (match earliest? flights with
        | none => .ended ended.reverse
        | some ((instant, call), others) =>
            .pause instant <| .act (World.endCall call (plan.answer call).isAccepted) fun _ =>
              fly plan limit steps waiting others ((call, plan.answer call) :: ended)) := by
  have reversed : (ended.reverse.map Prod.fst).Perm (ended.map Prod.fst) :=
    (List.reverse_perm ended).map Prod.fst
  cases landed : earliest? flights with
  | none =>
      obtain rfl := eq_nil_of_earliest? landed
      obtain rfl := empty rfl
      refine ⟨reversed.trans ?_, rfl⟩
      simpa using same
  | some landing =>
      obtain ⟨⟨instant, call⟩, others⟩ := landing
      refine ⟨⟨[], List.forall_mem_nil _, ended.reverse,
        (flights.map Prod.snd ++ waiting).map fun other => (other, plan.answer other), ?_,
        List.append_nil _⟩, [], List.forall_mem_nil _, ?_⟩
      · rw [List.map_append, List.map_map]
        exact ((reversed.append (.of_eq (List.map_id _))).trans same)
      · rw [List.append_nil]
        intro world
        refine ⟨[.gateway call (plan.answer call)], World.Tells.endCall call _ world, ?_⟩
        have step := continues instant call others landed
        rw [List.reverse_cons, List.map_append] at step
        exact step

/-- Calls to the gateway all end, unless they are cut off. -/
theorem follows_fly (room : 0 < limit) (bound : 2 * waiting.length + flights.length < steps)
    (same : (ended.map Prod.fst ++ (flights.map Prod.snd ++ waiting)).Perm calls) :
    Follows id (SomeEnded calls) (AllEnded calls) (ended.reverse.map Event.ofEnded)
      (fly plan limit steps waiting flights ended) := by
  -- A call that waits needs two of the steps, one that flies needs one.
  induction steps generalizing waiting flights ended with
  | zero => exact absurd bound (Nat.not_lt_zero _)
  | succ steps hypothesis =>
      have continues (instant : Nat) (call : Gateway.Call) (others : List Flight)
          (landed : earliest? flights = some ((instant, call), others)) :
          Follows id (SomeEnded calls) (AllEnded calls)
            (((call, plan.answer call) :: ended).reverse.map Event.ofEnded)
            (fly plan limit steps waiting others ((call, plan.answer call) :: ended)) := by
        have perm := perm_of_earliest? landed
        have shorter := perm.length_eq
        rw [List.length_cons] at shorter
        refine hypothesis (by omega) (List.Perm.trans ?_ same)
        have flown : (flights.map Prod.snd).Perm (call :: others.map Prod.snd) := perm.map Prod.snd
        exact (List.perm_middle.symm.trans ((flown.symm.append_right waiting).append_left _))
      cases waiting with
      | nil =>
          rw [fly]
          exact follows_land same (fun _ => rfl) continues
      | cons call waiting =>
          rw [List.length_cons] at bound
          rw [fly]
          dsimp only
          split
          · refine follows_land same (fun none => ?_) continues
            subst none
            exact absurd room (Nat.not_lt.mpr ‹_›)
          · split
            · intro world
              have started : world.Tells [] world.startCall := .unseen rfl rfl fun _ => rfl
              have step := @hypothesis waiting flights ((call, plan.answer call) :: ended)
                (by omega) (List.Perm.trans ?_ same)
              · rw [List.reverse_cons, List.map_append] at step
                exact ⟨[.gateway call (plan.answer call)], started.trans (.endCall call _ _), step⟩
              · rw [← List.append_assoc, ← List.append_assoc]
                exact List.perm_middle.symm
            · intro world
              refine ⟨[], .unseen rfl rfl fun _ => rfl, ?_⟩
              rw [List.append_nil]
              refine hypothesis ?_ (List.Perm.trans (.of_eq (by simp)) same)
              rw [List.length_append, List.length_singleton]
              omega

theorem follows_callAll (plan : GatewayPlan) (room : 0 < limit) (calls : List Gateway.Call) :
    Follows id (SomeEnded calls) (AllEnded calls) [] (callAll plan limit calls) := by
  have bound : 2 * calls.length + ([] : List Flight).length < 2 * calls.length + 1 :=
    Nat.lt_succ_self _
  have same : (([] : List Gateway.Ended).map Prod.fst ++
      (([] : List Flight).map Prod.snd ++ calls)).Perm calls :=
    .refl calls
  exact follows_fly room bound same

end Flights

section Work

variable {Result : Type} (plan : Plan)

/-- What follows an answer follows the request. -/
theorem follows_next {request : Work.Request} {next : request.Answer → Work Result}
    {answer : request.Answer} {first : List Event} {thread : Thread World (Option Result)}
    (answers : Work.Answered request answer first)
    (follows : Follows id (next answer).Interrupted (next answer).Ends [] thread) :
    Follows id (Work.Interrupted (.ask request next)) (Work.Ends (.ask request next)) first
      thread := by
  have after : Follows id (Work.Interrupted (.ask request next)) (Work.Ends (.ask request next))
      (first ++ []) thread :=
    (follows.mono (fun _ => Work.Interrupted.ask answers) fun _ _ => Work.Ends.ask answers).after
  rw [List.append_nil] at after
  exact after

section Query

variable {className filter : String}
  {next : (Work.Request.query className filter).Answer → Work Result}

/-- While a query is not answered, it may be cut off. -/
theorem follows_answered (delay : Nat) (event : Event) {thread : Thread World (Option Result)}
    (silent : event.IsSilent)
    (follows : Follows id (Work.Interrupted (.ask (.query className filter) next))
      (Work.Ends (.ask (.query className filter) next)) [event] thread) :
    Follows id (Work.Interrupted (.ask (.query className filter) next))
      (Work.Ends (.ask (.query className filter) next)) []
      (.act (World.addQuery className filter) fun _ => (rest delay).andThen fun _ => thread) := by
  have silentAll : ∀ other ∈ [event], other.IsSilent := List.forall_mem_singleton.mpr silent
  intro world
  by_cases instantly : delay = 0
  · refine ⟨[event], .of_silent silentAll rfl rfl fun _ => rfl, ?_⟩
    rw [rest, if_pos instantly]
    exact follows
  · refine ⟨[], .unseen rfl rfl fun _ => rfl, ?_⟩
    rw [rest, if_neg instantly]
    intro later
    refine ⟨[], .unseen rfl rfl fun _ => rfl, ⟨[.unanswered className filter], ?_, ?_⟩, [event],
      silentAll, follows⟩
    · exact List.forall_mem_singleton.mpr trivial
    · exact .unanswered next

/-- A query is answered as planned, unless it is cut off before or breaks down. -/
theorem follows_query
    (continues : ∀ answer, Follows id (next answer).Interrupted (next answer).Ends []
      (work plan (next answer))) :
    Follows id (Work.Interrupted (.ask (.query className filter) next))
      (Work.Ends (.ask (.query className filter) next)) []
      (work plan (.ask (.query className filter) next)) := by
  rw [work]
  cases (plan.query className).outcome with
  | objects objects =>
      exact follows_answered _ (.query className filter (.ok objects)) trivial
        (follows_next rfl (continues _))
  | fails error =>
      exact follows_answered _ (.query className filter (.error error)) trivial
        (follows_next rfl (continues _))
  | breaks =>
      exact follows_answered _ (.unanswered className filter) trivial
        (Work.stalls_query className filter next)

end Query

/-- A piece of work runs in a simulated world as it may run at all. -/
theorem follows_work {program : Work Result} (asks : program.Asks Work.Request.HasRoom) :
    Follows id program.Interrupted program.Ends [] (work plan program) := by
  induction program with
  | done result => exact Program.Finishes.done result
  | ask request next hypothesis =>
      have continues (answer : request.Answer) := hypothesis answer (asks.2 answer)
      cases request with
      | store call =>
          intro world
          exact ⟨[.store call (world.store call).1], .store call world,
            follows_next rfl (continues _)⟩
      | query className filter => exact follows_query plan continues
      | gateway limit calls =>
          refine Follows.andThen ((follows_callAll plan.gateway asks.1 calls).mono ?_ ?_)
          · rintro told ⟨ended, more, same, rfl⟩
            exact .waiting trivial ⟨same, List.map_append.symm⟩
          · exact fun told ended answers => follows_next answers (continues ended)
      | wipe =>
          intro world
          exact ⟨[.wipe plan.gateway.wipeAnswer], .addWipe _ world, follows_next rfl (continues _)⟩
      | clock =>
          intro world
          have silent : ∀ other ∈ [Event.clock world.now], other.IsSilent :=
            List.forall_mem_singleton.mpr trivial
          exact ⟨[.clock world.now], .of_silent silent rfl rfl fun _ => rfl,
            follows_next rfl (continues _)⟩
      | count counter amount =>
          intro world
          exact ⟨[.count counter amount], .count counter amount world,
            follows_next rfl (continues ())⟩

end Work
end Simulation
end InventoryGauges
