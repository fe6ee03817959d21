import InventoryGauges.Proofs.Gauges.Record
import InventoryGauges.Proofs.Sampling.Marker

/-!
# What a pass comes to

In surroundings whose answers depend only on what they are asked, what a pass
stores and which calls it makes to the gateway is told by the identities that
are stored for its metric when it begins.
-/

namespace InventoryGauges

/-- Surroundings of which each query and each call gets the same answer, however
often and whenever it is made. -/
structure Surroundings where
  /-- The answer to a query; none if it is never answered. -/
  inventory : String → String → Option (Except Inventory.Error (List Inventory.Object))
  /-- Whether the gateway accepts a call. -/
  accepts : Gateway.Call → Bool

namespace Surroundings

/-- An event may happen in these surroundings, when each call to the store works
and nothing is cut off. -/
def Allows (surroundings : Surroundings) : Event → Prop
  | .store _ answer => ∃ value, answer = .ok value
  | .query className filter answer => surroundings.inventory className filter = some answer
  | .unanswered className filter => surroundings.inventory className filter = none
  | .gateway call answer => answer.isAccepted = surroundings.accepts call
  | .wipe _ | .clock _ | .count _ _ => True
  | .deadline => False

/-- What the query of a metric gives; none if it is never answered. -/
def obtained (surroundings : Surroundings) (metric : Metric) :
    Option (Except Sampling.Error (List Gauge.Sample)) :=
  (surroundings.inventory metric.className metric.queryFilter).map (Sampling.extracted metric)

/-- The calls that a pass makes to the gateway, by what is stored for its metric
when it begins. -/
def calls (surroundings : Surroundings) (metric : Metric) (text? : Option String) :
    List Gateway.Call :=
  let recorded := (Store.idsIn? text?).getD Text.Set.empty
  match surroundings.obtained metric with
  | none => []
  | some (.error _) => recorded.toList.map .delete
  | some (.ok samples) =>
      samples.map .push ++ (recorded.diff (Sampling.ids samples)).toList.map .delete

/-- The identities that a pass with samples stores. -/
def kept (surroundings : Surroundings) (recorded current : Text.Set) : Text.Set :=
  current.insertAll
    ((recorded.diff current).toList.filter fun id => !surroundings.accepts (.delete id))

/-- What is stored after reconciling.  What cannot be read is left alone. -/
def reconciled (surroundings : Surroundings) (current : Text.Set) (text? : Option String) :
    Option String :=
  match Store.idsIn? text? with
  | none => text?
  | some recorded =>
      if surroundings.kept recorded current = recorded then text?
      else some (Store.idsText (surroundings.kept recorded current))

/-- What is stored for a metric after a pass, by what is stored when it begins. -/
def stored (surroundings : Surroundings) (metric : Metric) (text? : Option String) :
    Option String :=
  match surroundings.obtained metric with
  | some (.ok samples) => surroundings.reconciled (Sampling.ids samples) text?
  | _ => text?

/-- An identity is recorded for a metric or among its samples. -/
def Concerns (surroundings : Surroundings) (site : Site) (metric : Metric) (id : String) : Prop :=
  site.Records metric.name id ∨
    ∃ samples, surroundings.obtained metric = some (.ok samples) ∧ id ∈ Sampling.ids samples

end Surroundings

theorem Surroundings.Allows.not_isStoreFailure {surroundings : Surroundings} {event : Event}
    (allowed : surroundings.Allows event) : ¬ event.IsStoreFailure := by
  intro fails
  cases event with
  | store call answer =>
      obtain ⟨value, rfl⟩ := allowed
      exact fails
  | query _ _ _ | unanswered _ _ | gateway _ _ | wipe _ | clock _ | count _ _ | deadline =>
      exact fails

/-- The identity of the gauge that a call is about. -/
def Gateway.Call.id : Gateway.Call → String
  | .push sample => sample.id
  | .delete id => id

/-- The call that an event makes to the gateway. -/
def Event.asked? : Event → Option Gateway.Call
  | .gateway call _ => some call
  | _ => none

/-- The calls that some events make to the gateway, in their order. -/
def Event.asked (events : List Event) : List Gateway.Call :=
  events.filterMap asked?

namespace Event

@[simp] theorem asked_append (left right : List Event) :
    asked (left ++ right) = asked left ++ asked right :=
  List.filterMap_append

theorem asked_cons_of_none {event : Event} (none : event.asked? = none) (events : List Event) :
    asked (event :: events) = asked events :=
  List.filterMap_cons_none none

theorem mem_asked {call : Gateway.Call} {events : List Event} :
    call ∈ asked events ↔ ∃ answer, .gateway call answer ∈ events := by
  rw [asked, List.mem_filterMap]
  constructor
  · rintro ⟨event, member, found⟩
    cases event with
    | gateway other answer =>
        obtain rfl := Option.some.inj found
        exact ⟨answer, member⟩
    | store _ _ | query _ _ _ | unanswered _ _ | wipe _ | clock _ | count _ _ | deadline =>
        cases found
  · rintro ⟨answer, member⟩
    exact ⟨_, member, rfl⟩

end Event

namespace Sampling

theorem asked_map_ofEnded (ended : List Gateway.Ended) :
    Event.asked (ended.map Event.ofEnded) = ended.map Prod.fst := by
  rw [Event.asked, List.filterMap_map, ← List.filterMap_eq_map]
  rfl

theorem asked_withdrawal (ended : List Gateway.Ended) :
    Event.asked (withdrawal ended) = ended.map Prod.fst := by
  rw [withdrawal, Event.asked_append, asked_map_ofEnded]
  exact List.append_nil _

theorem asked_publication (ended : List Gateway.Ended) :
    Event.asked (publication ended) = ended.map Prod.fst := by
  rw [publication, Event.asked_append, asked_map_ofEnded]
  exact List.append_nil _

end Sampling

namespace Surroundings

variable {surroundings : Surroundings} {schedule : Schedule} {metric : Metric} {site : Site}
  {events : List Event}

/-- The store at a site and these surroundings answer events, one after
another. -/
structure Answers (surroundings : Surroundings) (site : Site) (events : List Event) : Prop where
  /-- What the store says is what it holds. -/
  lawful : site.Lawful events
  /-- Each event may happen in the surroundings. -/
  allowed : ∀ event ∈ events, surroundings.Allows event

theorem answers_append {left right : List Event} :
    surroundings.Answers site (left ++ right) ↔
      surroundings.Answers site left ∧ surroundings.Answers (site.afterAll left) right := by
  constructor
  · rintro ⟨lawful, allowed⟩
    obtain ⟨first, last⟩ := Site.lawful_append.mp lawful
    exact ⟨⟨first, fun event member => allowed event (List.mem_append_left right member)⟩,
      ⟨last, fun event member => allowed event (List.mem_append_right left member)⟩⟩
  · rintro ⟨⟨first, allowedFirst⟩, ⟨last, allowedLast⟩⟩
    refine ⟨Site.lawful_append.mpr ⟨first, last⟩, fun event member => ?_⟩
    exact (List.mem_append.mp member).elim (allowedFirst event) (allowedLast event)

theorem answers_cons {event : Event} :
    surroundings.Answers site (event :: events) ↔
      (site.Admits event ∧ surroundings.Allows event) ∧
        surroundings.Answers (site.after event) events := by
  constructor
  · rintro ⟨⟨admitted, lawful⟩, allowed⟩
    exact ⟨⟨admitted, allowed event List.mem_cons_self⟩, lawful,
      fun other member => allowed other (List.mem_cons_of_mem event member)⟩
  · rintro ⟨⟨admitted, allows⟩, lawful, allowed⟩
    refine ⟨⟨admitted, lawful⟩, fun other member => ?_⟩
    rcases List.mem_cons.mp member with rfl | later
    · exact allows
    · exact allowed other later

/-- Refused are the withdrawals that the gateway does not accept. -/
theorem mem_refusedIds_iff {ended : List Gateway.Ended} {targets : List String}
    (same : (ended.map Prod.fst).Perm (targets.map .delete))
    (allowed : ∀ event ∈ Sampling.withdrawal ended, surroundings.Allows event) {id : String} :
    id ∈ Sampling.refusedIds ended ↔
      id ∈ targets ∧ surroundings.accepts (.delete id) = false := by
  have answered {given : Gateway.Answer} (called : (Gateway.Call.delete id, given) ∈ ended) :
      given.isAccepted = surroundings.accepts (.delete id) :=
    allowed (.gateway (.delete id) given)
      (List.mem_append_left _ (List.mem_map_of_mem (f := Event.ofEnded) called))
  constructor
  · intro refused
    obtain ⟨error, called⟩ := Sampling.mem_refusedIds.mp refused
    exact ⟨Sampling.mem_of_mem_refusedIds same refused, (answered called).symm⟩
  · rintro ⟨target, refuses⟩
    obtain ⟨⟨call, given⟩, called, rfl⟩ :=
      List.mem_map.mp (same.mem_iff.mpr (List.mem_map_of_mem target))
    cases given with
    | error error => exact Sampling.mem_refusedIds.mpr ⟨error, called⟩
    | ok accepted => exact absurd ((answered called).trans refuses) nofun

/-- What is read of the identities is what is stored. -/
theorem read_of_answers {name : String} {answer : Except Store.Error (Option String)}
    (answers : surroundings.Answers site (.store (.get (Store.relatedKey name)) answer :: events)) :
    answer = .ok (site.contents.get? (Store.relatedKey name)) ∧
      surroundings.Answers site events := by
  obtain ⟨⟨admitted, found, rfl⟩, later⟩ := answers_cons.mp answers
  exact ⟨congrArg Except.ok admitted, later⟩

section Parts

variable {text? : Option String}
  (before : site.contents.get? (Store.relatedKey metric.name) = text?)
include before

theorem calls_of_finishes_giveUp
    (finishes : Program.Finishes Work.Answered (Sampling.giveUp schedule metric) events ())
    (answers : surroundings.Answers site events) :
    (Event.asked events).Perm
      (((Store.idsIn? text?).getD Text.Set.empty).toList.map .delete) := by
  obtain ⟨_, _, withdraws, records, rfl⟩ := Sampling.finishes_giveUp_iff.mp finishes
  obtain ⟨now, marked, rfl⟩ := Sampling.finishes_recordFailure_iff.mp records
  obtain ⟨answer, others, rfl, continues⟩ :=
    Sampling.finishes_withdrawPublished_iff.mp withdraws
  obtain ⟨rfl, -⟩ := read_of_answers (answers_append.mp answers).1
  rw [Event.asked_append, Event.asked_cons_of_none rfl]
  rw [before, Store.reading] at continues
  cases recorded : Store.idsIn? text? with
  | none =>
      rw [recorded] at continues
      obtain rfl := continues
      exact .nil
  | some ids =>
      rw [recorded] at continues
      obtain ⟨ended, same, rfl⟩ := continues
      rw [Sampling.asked_withdrawal]
      exact (List.append_nil _).symm ▸ same

/-- Reconciling withdraws what is not current, and stores what is then left. -/
theorem outcome_of_finishes_reconcile {current : Text.Set}
    {reconciliation : Sampling.Reconciliation}
    (finishes : Program.Finishes Work.Answered
      (Sampling.reconcile schedule metric current) events reconciliation)
    (answers : surroundings.Answers site events) :
    (Event.asked events).Perm
        ((((Store.idsIn? text?).getD Text.Set.empty).diff current).toList.map .delete) ∧
      (site.afterAll events).contents.get? (Store.relatedKey metric.name) =
        surroundings.reconciled current text? := by
  obtain ⟨answer, others, rfl, continues⟩ := Sampling.finishes_reconcile_iff.mp finishes
  obtain ⟨rfl, later⟩ := read_of_answers answers
  rw [before, Store.reading] at continues
  rw [Event.asked_cons_of_none rfl, reconciled]
  cases recorded : Store.idsIn? text? with
  | none =>
      rw [recorded] at continues
      obtain ⟨rfl, -⟩ := continues
      exact ⟨.nil, before⟩
  | some previous =>
      rw [recorded] at continues
      obtain ⟨ended, same, written, saved, rfl, -, saves⟩ := continues
      obtain ⟨withdraws, writes⟩ := answers_append.mp later
      -- The order in which withdrawals end does not matter, as only the set is stored.
      have next : current.insertAll (Sampling.refusedIds ended) =
          surroundings.kept previous current := by
        apply Text.Set.ext
        intro id
        rw [kept, Text.Set.mem_insertAll, Text.Set.mem_insertAll,
          mem_refusedIds_iff same withdraws.allowed, List.mem_filter, Bool.not_eq_true']
      rw [next] at saves
      rw [Event.asked_append, Sampling.asked_withdrawal, Site.afterAll_cons, Site.afterAll_append]
      dsimp only
      rcases saves with ⟨equal, rfl, -⟩ | ⟨different, answer, rfl, -⟩
      · rw [if_pos equal, Site.afterAll_nil,
          Site.get?_contents_afterAll fun event => Sampling.written?_of_mem_withdrawal _]
        exact ⟨(List.append_nil _).symm ▸ same, before⟩
      · obtain ⟨done, rfl⟩ := writes.allowed _ List.mem_cons_self
        rw [if_neg different, Site.afterAll_cons, Site.afterAll_nil, Site.get?_contents_after,
          Event.written?_set_self]
        exact ⟨(List.append_nil _).symm ▸ same, rfl⟩

theorem outcome_of_finishes_complete {samples : List Gauge.Sample} {report : Sampling.Report}
    (finishes : Program.Finishes Work.Answered
      (Sampling.complete schedule metric samples) events report)
    (answers : surroundings.Answers site events) :
    (Event.asked events).Perm (samples.map .push ++
        (((Store.idsIn? text?).getD Text.Set.empty).diff (Sampling.ids samples)).toList.map
          .delete) ∧
      (site.afterAll events).contents.get? (Store.relatedKey metric.name) =
        surroundings.reconciled (Sampling.ids samples) text? := by
  obtain ⟨pushed, now, marked, reconciled, reconciliation, same, reconciles, rfl, -⟩ :=
    Sampling.finishes_complete_iff.mp finishes
  have shape : Sampling.publication pushed ++ .clock now ::
        .store (.set (Store.markerKey metric.name) now.decimal) marked ::
          (reconciled ++ [.count (.samples .success) 1]) =
      (Sampling.publication pushed ++ [.clock now,
        .store (.set (Store.markerKey metric.name) now.decimal) marked]) ++
          (reconciled ++ [.count (.samples .success) 1]) := by
    simp
  rw [shape] at answers ⊢
  obtain ⟨-, later⟩ := answers_append.mp answers
  obtain ⟨calls, stores⟩ := outcome_of_finishes_reconcile
    ((Site.get?_contents_afterAll (Sampling.written?_relatedKey_of_opening _)).trans before)
    reconciles (answers_append.mp later).1
  rw [Event.asked_append, Event.asked_append, Event.asked_append, Sampling.asked_publication,
    Site.afterAll_append, Site.afterAll_append]
  refine ⟨?_, stores⟩
  have silent : Event.asked [.clock now,
      .store (.set (Store.markerKey metric.name) now.decimal) marked] = [] := rfl
  have counts : Event.asked [.count (.samples .success) 1] = [] := rfl
  rw [silent, counts, List.append_nil, List.append_nil]
  exact same.append calls

end Parts

/-- The query of a pass that breaks down is never answered. -/
theorem obtained_of_stalls (stalls : Work.Stalls (Sampling.pass schedule metric) events)
    (answers : surroundings.Answers site events) : surroundings.obtained metric = none := by
  obtain rfl := Sampling.eq_unanswered_of_stalls stalls
  have asked : surroundings.inventory metric.className metric.queryFilter = none :=
    answers.allowed _ List.mem_cons_self
  rw [obtained, asked]
  rfl

/-- A pass begins with its query, and goes on with what that gives. -/
theorem obtained_of_query {answer : Except Inventory.Error (List Inventory.Object)}
    (answers : surroundings.Answers site
      (.query metric.className metric.queryFilter answer :: events)) :
    surroundings.obtained metric = some (Sampling.extracted metric answer) ∧
      surroundings.Answers site events := by
  obtain ⟨⟨-, asked⟩, later⟩ := answers_cons.mp answers
  exact ⟨congrArg (Option.map (Sampling.extracted metric)) asked, later⟩

/-- A pass that is answered does what its surroundings tell. -/
theorem outcome_of_runs {ending : Cycle.Ending}
    (runs : Cycle.PassRuns schedule metric events ending)
    (answers : surroundings.Answers site events) :
    (Event.asked events).Perm
        (surroundings.calls metric (site.contents.get? (Store.relatedKey metric.name))) ∧
      (site.afterAll events).contents.get? (Store.relatedKey metric.name) =
        surroundings.stored metric (site.contents.get? (Store.relatedKey metric.name)) := by
  cases runs with
  | broken stalls =>
      rw [calls, stored, obtained_of_stalls stalls answers]
      obtain rfl := Sampling.eq_unanswered_of_stalls stalls
      exact ⟨.nil, rfl⟩
  | timedOut begins cleans => exact (answers.allowed .deadline (by simp)).elim
  | finished finishes =>
      obtain ⟨answer, others, rfl, continues⟩ := Sampling.finishes_pass_iff.mp finishes
      obtain ⟨gives, later⟩ := obtained_of_query answers
      rw [calls, stored, gives, Event.asked_cons_of_none rfl, Site.afterAll_cons]
      cases extracts : Sampling.extracted metric answer with
      | error error =>
          rw [extracts] at continues
          obtain ⟨cleaned, cleans, rfl, -⟩ := continues
          have called := calls_of_finishes_giveUp rfl cleans (answers_append.mp later).1
          rw [Event.asked_append, Site.afterAll_append]
          refine ⟨(List.append_nil _).symm ▸ called, ?_⟩
          exact Site.get?_contents_afterAll (Sampling.written?_relatedKey_of_giveUp _ cleans)
      | ok samples =>
          rw [extracts] at continues
          obtain ⟨report, completes, -⟩ := continues
          exact outcome_of_finishes_complete rfl completes later

/-- A pass marks its metric, unless its query is never answered. -/
theorem marker_of_runs {ending : Cycle.Ending}
    (runs : Cycle.PassRuns schedule metric events ending)
    (answers : surroundings.Answers site events) :
    ((site.afterAll events).contents.get? (Store.markerKey metric.name)).isSome ↔
      (surroundings.obtained metric).isSome ∨
        (site.contents.get? (Store.markerKey metric.name)).isSome := by
  cases runs with
  | broken stalls =>
      rw [obtained_of_stalls stalls answers]
      obtain rfl := Sampling.eq_unanswered_of_stalls stalls
      exact (or_iff_right nofun).symm
  | timedOut begins cleans => exact (answers.allowed .deadline (by simp)).elim
  | finished finishes =>
      have marks := (Cycle.PassRuns.finished finishes).marks nofun
      obtain ⟨time, -, marked⟩ := marks.exists_time site fun event member fails =>
        (answers.allowed event member).not_isStoreFailure
          (Event.isStoreFailure_of_isFailureAt fails)
      obtain ⟨answer, others, rfl, -⟩ := Sampling.finishes_pass_iff.mp finishes
      obtain ⟨gives, -⟩ := obtained_of_query answers
      rw [marked, gives]
      exact iff_of_true rfl (Or.inl rfl)

/-! ## What passes concern -/

/-- A pass publishes its samples. -/
theorem push_mem_calls {text? : Option String} {sample : Gauge.Sample}
    (called : .push sample ∈ surroundings.calls metric text?) :
    ∃ samples, surroundings.obtained metric = some (.ok samples) ∧
      sample.id ∈ Sampling.ids samples := by
  unfold calls at called
  match gives : surroundings.obtained metric with
  | none => simp [gives] at called
  | some (.error error) => simp [gives] at called
  | some (.ok samples) =>
      have member : sample ∈ samples := by simpa [gives] using called
      exact ⟨samples, rfl, Text.Set.mem_ofList.mpr (List.mem_map_of_mem member)⟩

/-- A pass withdraws what is stored and not among its samples. -/
theorem delete_mem_calls {text? : Option String} {id : String}
    (called : .delete id ∈ surroundings.calls metric text?) :
    (∃ recorded, Store.idsIn? text? = some recorded ∧ id ∈ recorded) ∧
      ∀ samples, surroundings.obtained metric = some (.ok samples) →
        ¬ id ∈ Sampling.ids samples := by
  have found (member : id ∈ (Store.idsIn? text?).getD Text.Set.empty) :
      ∃ recorded, Store.idsIn? text? = some recorded ∧ id ∈ recorded := by
    cases stored : Store.idsIn? text? with
    | none =>
        rw [stored] at member
        exact absurd member (Text.Set.not_mem_empty id)
    | some recorded => exact ⟨recorded, rfl, by rwa [stored] at member⟩
  unfold calls at called
  match gives : surroundings.obtained metric with
  | none => simp [gives] at called
  | some (.error error) =>
      have member : id ∈ ((Store.idsIn? text?).getD Text.Set.empty).toList := by
        simpa [gives] using called
      exact ⟨found member, nofun⟩
  | some (.ok samples) =>
      have member : id ∈ ((Store.idsIn? text?).getD Text.Set.empty).diff
          (Sampling.ids samples) := by
        simpa [gives, ← Text.Set.mem_def] using called
      obtain ⟨stored, outside⟩ := Text.Set.mem_diff.mp member
      refine ⟨found stored, fun others equal => ?_⟩
      obtain rfl : samples = others := by simpa using equal
      exact outside

/-- A pass calls for what concerns its metric. -/
theorem concerns_of_mem_calls {call : Gateway.Call}
    (called : call ∈ surroundings.calls metric
      (site.contents.get? (Store.relatedKey metric.name))) :
    surroundings.Concerns site metric call.id := by
  cases call with
  | push sample => exact Or.inr (push_mem_calls called)
  | delete id => exact Or.inl (delete_mem_calls called).1

/-! ## Passes can go on -/

/-- The answer of the gateway to a call. -/
def answer (surroundings : Surroundings) (call : Gateway.Call) : Gateway.Answer :=
  if surroundings.accepts call then .ok () else .error (.transport "")

theorem isAccepted_answer (surroundings : Surroundings) (call : Gateway.Call) :
    (surroundings.answer call).isAccepted = surroundings.accepts call := by
  unfold answer
  cases surroundings.accepts call <;> rfl

theorem answers_calls (surroundings : Surroundings) (site : Site) (calls : List Gateway.Call) :
    surroundings.Answers site
      ((calls.map fun call => (call, surroundings.answer call)).map Event.ofEnded) := by
  induction calls generalizing site with
  | nil => exact ⟨trivial, nofun⟩
  | cons call calls hypothesis =>
      exact answers_cons.mpr ⟨⟨trivial, surroundings.isAccepted_answer call⟩, hypothesis _⟩

/-- Where each query is answered, each request is. -/
theorem exists_answered
    (total : ∀ className filter, (surroundings.inventory className filter).isSome)
    (request : Work.Request) (site : Site) :
    ∃ answer events, Work.Answered request answer events ∧ surroundings.Answers site events := by
  cases request with
  | store call =>
      refine ⟨.ok (Store.perform call site.contents).1, _, rfl, answers_cons.mpr ⟨⟨rfl, ?_⟩, ?_⟩⟩
      · exact ⟨_, rfl⟩
      · exact ⟨trivial, nofun⟩
  | query className filter =>
      obtain ⟨answer, found⟩ := Option.isSome_iff_exists.mp (total className filter)
      exact ⟨answer, _, rfl, answers_cons.mpr ⟨⟨trivial, found⟩, trivial, nofun⟩⟩
  | gateway limit calls =>
      refine ⟨_, _, ⟨?_, rfl⟩, surroundings.answers_calls site calls⟩
      rw [List.map_map]
      exact .of_eq (List.map_id calls)
  | wipe => exact ⟨.ok (), _, rfl, answers_cons.mpr ⟨⟨trivial, trivial⟩, trivial, nofun⟩⟩
  | clock => exact ⟨Timestamp.epoch, _, rfl, answers_cons.mpr ⟨⟨trivial, trivial⟩, trivial, nofun⟩⟩
  | count counter amount =>
      exact ⟨(), _, rfl, answers_cons.mpr ⟨⟨trivial, trivial⟩, trivial, nofun⟩⟩

/-- Where each query is answered, each piece of work finishes. -/
theorem exists_finishes {Result : Type}
    (total : ∀ className filter, (surroundings.inventory className filter).isSome)
    (work : Work Result) (site : Site) :
    ∃ events result, Program.Finishes Work.Answered work events result ∧
      surroundings.Answers site events := by
  induction work generalizing site with
  | done result => exact ⟨[], result, .done result, trivial, nofun⟩
  | ask request next hypothesis =>
      obtain ⟨answer, first, answered, answers⟩ := exists_answered total request site
      obtain ⟨rest, result, finishes, later⟩ := hypothesis answer (site.afterAll first)
      exact ⟨first ++ rest, result, .ask answered finishes, answers_append.mpr ⟨answers, later⟩⟩

/-- The surroundings in which a query that was never answered fails. -/
def answering (surroundings : Surroundings) : Surroundings where
  inventory := fun className filter =>
    some ((surroundings.inventory className filter).getD (.error (.transport "")))
  accepts := surroundings.accepts

/-- A pass of each metric is possible from each site. -/
theorem exists_runs (surroundings : Surroundings) (schedule : Schedule) (metric : Metric)
    (site : Site) :
    ∃ events ending, Cycle.PassRuns schedule metric events ending ∧
      surroundings.Answers site events := by
  obtain ⟨events, result, finishes, answers⟩ :=
    surroundings.answering.exists_finishes (fun _ _ => rfl) (Sampling.pass schedule metric) site
  obtain ⟨answer, others, rfl, acts⟩ := Sampling.exists_query_of_finishes_pass finishes
  cases asked : surroundings.inventory metric.className metric.queryFilter with
  | none =>
      refine ⟨_, .broken, .broken ⟨[], _, _, answer, others, result, finishes, rfl⟩, ?_⟩
      exact answers_cons.mpr ⟨⟨trivial, asked⟩, trivial, nofun⟩
  | some given =>
      refine ⟨_, _, .finished finishes, answers.lawful, fun event member => ?_⟩
      have allowed := answers.allowed event member
      rcases List.mem_cons.mp member with rfl | later
      · have gives : surroundings.answering.inventory metric.className metric.queryFilter =
            some given := by
          simp [answering, asked]
        exact asked.trans (gives.symm.trans allowed)
      · cases acts event later with
        | push sample own answer => exact allowed
        | tidies tidies => cases tidies <;> exact allowed

end Surroundings
end InventoryGauges
