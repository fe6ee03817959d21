import InventoryGauges.Proofs.Execution.Cycle

/-!
# Requests that are asked

Which requests a program may ask at all: only passes query the inventory, calls
to the gateway always have room to fly, and what publishes and withdraws counts
nothing but gauges.
-/

namespace InventoryGauges
namespace Program

variable {Request : Type} {Answer : Request → Type} {Result Final : Type}
  {kind : Request → Prop}

/-- Whether all requests that a program may ask are of a kind. -/
def Asks (kind : Request → Prop) : Program Request Answer Result → Prop
  | .done _ => True
  | .ask request next => kind request ∧ ∀ answer, (next answer).Asks kind

theorem asks_request {request : Request} (holds : kind request) :
    (Program.request request : Program Request Answer (Answer request)).Asks kind :=
  ⟨holds, fun _ => trivial⟩

theorem Asks.bind {program : Program Request Answer Result}
    {rest : Result → Program Request Answer Final} (asks : program.Asks kind)
    (asksRest : ∀ result, (rest result).Asks kind) : (program >>= rest).Asks kind := by
  induction program with
  | done result => exact asksRest result
  | ask request next hypothesis =>
      exact ⟨asks.1, fun answer => hypothesis answer (asks.2 answer)⟩

theorem Asks.mono {other : Request → Prop} {program : Program Request Answer Result}
    (asks : program.Asks kind) (implies : ∀ request, kind request → other request) :
    program.Asks other := by
  induction program with
  | done result => trivial
  | ask request next hypothesis =>
      exact ⟨implies request asks.1, fun answer => hypothesis answer (asks.2 answer)⟩

end Program

/-- A counter of gauges. -/
def Counter.IsOfGauges : Counter → Prop
  | .gaugesPushed | .gaugesDeleted | .pushFailures | .deleteFailures => True
  | _ => False

namespace Work

/-- A request that leaves room for a call to fly, if it is about the gateway. -/
def Request.HasRoom : Request → Prop
  | .gateway limit _ => 0 < limit
  | _ => True

/-- A request with room that does not query the inventory. -/
def Request.IsPlain : Request → Prop
  | .query _ _ => False
  | request => request.HasRoom

theorem Request.IsPlain.hasRoom {request : Request} (plain : request.IsPlain) :
    request.HasRoom := by
  cases request with
  | query className filter => exact plain.elim
  | store _ | gateway _ _ | wipe | clock | count _ _ => exact plain

/-- A request that counts nothing but gauges. -/
def Request.CountsGauges : Request → Prop
  | .count counter _ => counter.IsOfGauges
  | _ => True

/-- A plain request that counts nothing but gauges. -/
def Request.IsTidying (request : Request) : Prop :=
  request.IsPlain ∧ request.CountsGauges

variable {Result : Type}

theorem asks_ofCalls (program : Program Store.Call Store.Call.Answer Result) :
    (ofCalls program).Asks Request.IsTidying := by
  induction program with
  | done result => trivial
  | ask call next hypothesis => exact ⟨⟨trivial, trivial⟩, hypothesis⟩

theorem asks_access (access : Store.Access Result) :
    (Work.access access).Asks Request.IsTidying :=
  asks_ofCalls access.run

theorem asks_gateway (limit : Nat) (calls : List Gateway.Call) :
    (gateway limit calls).Asks Request.IsTidying :=
  Program.asks_request ⟨Nat.lt_of_lt_of_le Nat.zero_lt_one (Nat.le_max_right limit 1), trivial⟩

theorem asks_clock : clock.Asks Request.IsTidying :=
  Program.asks_request ⟨trivial, trivial⟩

theorem asks_count_of_isOfGauges (counter : Counter) (ofGauges : counter.IsOfGauges)
    (amount : Nat) : (count counter amount).Asks Request.IsTidying :=
  Program.asks_request ⟨trivial, ofGauges⟩

theorem asks_count (counter : Counter) (amount : Nat) :
    (count counter amount).Asks Request.IsPlain :=
  Program.asks_request trivial

theorem asks_plain {work : Work Result} (asks : work.Asks Request.IsTidying) :
    work.Asks Request.IsPlain :=
  asks.mono fun _ => And.left

theorem asks_countsGauges {work : Work Result} (asks : work.Asks Request.IsTidying) :
    work.Asks Request.CountsGauges :=
  asks.mono fun _ => And.right

/-- Each request can be answered, so that each piece of work can finish. -/
theorem exists_finishes (work : Work Result) :
    ∃ events result, Program.Finishes Answered work events result := by
  have answers (request : Work.Request) : ∃ answer events, Answered request answer events := by
    cases request with
    | store call => exact ⟨.error (.backend ""), _, rfl⟩
    | query className filter => exact ⟨.ok [], _, rfl⟩
    | gateway limit calls =>
        refine ⟨calls.map fun call => (call, .ok ()), _, ?_, rfl⟩
        rw [List.map_map]
        exact .of_eq (List.map_id calls)
    | wipe => exact ⟨.ok (), _, rfl⟩
    | clock => exact ⟨Timestamp.epoch, _, rfl⟩
    | count counter amount => exact ⟨(), _, rfl⟩
  induction work with
  | done result => exact ⟨[], result, .done result⟩
  | ask request next hypothesis =>
      obtain ⟨answer, first, answered⟩ := answers request
      obtain ⟨rest, result, finishes⟩ := hypothesis answer
      exact ⟨first ++ rest, result, .ask answered finishes⟩

theorem query_not_mem_of_asks {work : Work Result} {events : List Event} {result : Result}
    {className filter : String} {answer : Except Inventory.Error (List Inventory.Object)}
    (asks : work.Asks Request.IsPlain) (finishes : Program.Finishes Answered work events result) :
    .query className filter answer ∉ events := by
  induction finishes with
  | done result => exact List.not_mem_nil
  | @ask request next given first rest result answers continues hypothesis =>
      intro member
      rcases List.mem_append.mp member with early | late
      · cases request with
        | query _ _ => exact asks.1
        | store _ | wipe | clock | count _ _ =>
            obtain rfl := answers
            cases List.mem_singleton.mp early
        | gateway limit calls =>
            obtain ⟨-, rfl⟩ := answers
            obtain ⟨ended, -, equal⟩ := List.mem_map.mp early
            cases equal
      · exact hypothesis (asks.2 given) late

/-- Work that does not query cannot come to a query that is never answered. -/
theorem not_stalls_of_asks {work : Work Result} {events : List Event}
    (asks : work.Asks Request.IsPlain) : ¬ Stalls work events := by
  rintro ⟨before, className, filter, answer, rest, result, finishes, -⟩
  exact query_not_mem_of_asks asks finishes (List.mem_append_right before List.mem_cons_self)

end Work

namespace Sampling

open Work (Request)

variable (schedule : Schedule) (metric : Metric)

theorem asks_withdraw (limit : Nat) (ids : List String) :
    (withdraw limit ids).Asks Request.IsTidying :=
  (Work.asks_gateway _ _).bind fun _ =>
    (Work.asks_count_of_isOfGauges .gaugesDeleted trivial _).bind fun _ =>
      (Work.asks_count_of_isOfGauges .deleteFailures trivial _).bind fun _ => trivial

theorem asks_publish (limit : Nat) (samples : List Gauge.Sample) :
    (publish limit samples).Asks Request.IsTidying :=
  (Work.asks_gateway _ _).bind fun _ =>
    (Work.asks_count_of_isOfGauges .gaugesPushed trivial _).bind fun _ =>
      (Work.asks_count_of_isOfGauges .pushFailures trivial _).bind fun _ => trivial

theorem asks_withdrawPublished : (withdrawPublished schedule metric).Asks Request.IsTidying := by
  refine (Work.asks_access _).bind fun result => ?_
  cases result with
  | error error => trivial
  | ok ids => exact (asks_withdraw _ _).bind fun _ => trivial

theorem asks_recordFailure : (recordFailure schedule metric).Asks Request.IsTidying :=
  Work.asks_clock.bind fun _ => (Work.asks_access _).bind fun _ => trivial

theorem asks_giveUp : (giveUp schedule metric).Asks Request.IsTidying :=
  (asks_withdrawPublished schedule metric).bind fun _ => asks_recordFailure schedule metric

theorem asks_reconcile (current : Text.Set) :
    (reconcile schedule metric current).Asks Request.IsTidying := by
  refine (Work.asks_access _).bind fun result => ?_
  cases result with
  | error error => trivial
  | ok previous =>
      refine (asks_withdraw _ _).bind fun undeleted => ?_
      dsimp only
      split
      · trivial
      · exact (Work.asks_access _).bind fun _ => trivial

theorem asks_complete (samples : List Gauge.Sample) :
    (complete schedule metric samples).Asks Request.IsPlain :=
  (Work.asks_plain (asks_publish _ _)).bind fun _ => (Work.asks_plain Work.asks_clock).bind fun _ =>
    (Work.asks_plain (Work.asks_access _)).bind fun _ =>
      (Work.asks_plain (asks_reconcile schedule metric _)).bind fun _ =>
        (Work.asks_count _ _).bind fun _ => trivial

theorem asks_collect : (collect metric).Asks Request.HasRoom := by
  refine (Program.asks_request trivial).bind fun answer => ?_
  cases answer <;> trivial

/-- A pass leaves room for its calls to the gateway. -/
theorem asks_pass : (pass schedule metric).Asks Request.HasRoom := by
  refine (asks_collect metric).bind fun collected => ?_
  cases collected with
  | error error =>
      exact ((asks_giveUp schedule metric).mono fun _ tidying => tidying.1.hasRoom).bind fun _ =>
        (Program.asks_request trivial).bind fun _ => trivial
  | ok samples =>
      exact ((asks_complete schedule metric samples).mono fun _ => Request.IsPlain.hasRoom).bind
        fun _ => trivial

end Sampling

namespace Cycle

/-- A request of a cycle that is plain if it is a single one. -/
def Request.IsPlain : Request → Prop
  | .single request => request.IsPlain
  | .passes _ | .instant | .observe _ => True

theorem asks_ofWork {Result : Type} {work : Work Result} (asks : work.Asks Work.Request.IsPlain) :
    (ofWork work).Asks Request.IsPlain := by
  induction work with
  | done result => trivial
  | ask request next hypothesis =>
      exact ⟨asks.1, fun answer => hypothesis answer (asks.2 answer)⟩

theorem asks_countLost (endings : List Ending) :
    (countLost endings).Asks Work.Request.IsPlain := by
  induction endings with
  | nil => trivial
  | cons ending endings hypothesis =>
      cases ending with
      | finished result => exact hypothesis
      | timedOut | broken => exact (Work.asks_count _ _).bind fun _ => hypothesis

variable (schedule : Schedule)

theorem asks_remove (name : String) (ids : List String) :
    (reapMetric.remove schedule name ids).Asks Work.Request.IsTidying := by
  refine (Sampling.asks_withdraw _ _).bind fun undeleted => ?_
  split
  · exact (Work.asks_access _).bind fun _ => trivial
  · exact (Work.asks_access _).bind fun _ => trivial

theorem asks_reapMetric (name : String) :
    (reapMetric schedule name).Asks Work.Request.IsTidying := by
  refine (Work.asks_access _).bind fun result => ?_
  cases result with
  | error error =>
      dsimp only
      split
      · trivial
      · exact asks_remove schedule name []
  | ok ids => exact asks_remove schedule name ids.toList

theorem asks_reapAll (names : List String) :
    (reapAll schedule names).Asks Work.Request.IsPlain := by
  induction names with
  | nil => trivial
  | cons name names hypothesis =>
      refine (Work.asks_plain (asks_reapMetric schedule name)).bind fun removed => ?_
      split
      · exact (Work.asks_count _ _).bind fun _ => hypothesis.bind fun _ => trivial
      · exact hypothesis

theorem asks_reap (active : Text.Set) : (reap schedule active).Asks Work.Request.IsPlain := by
  refine (Work.asks_plain (Work.asks_access _)).bind fun processed => ?_
  cases processed with
  | error error => trivial
  | ok names => exact asks_reapAll schedule _

theorem asks_sampleAll (due : List Metric) : (sampleAll due).Asks Request.IsPlain :=
  (Program.asks_request trivial).bind fun endings =>
    (asks_ofWork (asks_countLost endings)).bind fun _ => trivial

theorem asks_body : (body schedule).Asks Request.IsPlain := by
  refine (asks_ofWork (Work.asks_plain (Work.asks_access _))).bind fun listed => ?_
  cases listed with
  | error error => trivial
  | ok metrics =>
      refine (asks_ofWork (Work.asks_plain (Work.asks_access _))).bind fun times => ?_
      cases times with
      | error error => exact (asks_ofWork (asks_reap schedule _)).bind fun _ => trivial
      | ok times =>
          exact (asks_ofWork (Work.asks_plain Work.asks_clock)).bind fun now =>
            (asks_sampleAll _).bind fun endings =>
              (asks_ofWork (asks_reap schedule _)).bind fun _ => trivial

/-- A cycle queries the inventory in its passes only. -/
theorem asks_cycle : (cycle schedule).Asks Request.IsPlain :=
  (Program.asks_request trivial).bind fun _ => (asks_body schedule).bind fun _ =>
    (Program.asks_request trivial).bind fun _ => trivial

end Cycle
end InventoryGauges
