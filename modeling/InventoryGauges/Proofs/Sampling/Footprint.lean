import InventoryGauges.Proofs.Execution.Cycle
import InventoryGauges.Proofs.Sampling.Trace
import InventoryGauges.Proofs.Store.Encoding

/-!
# What a pass may do

A pass, however it goes, only uses the keys of its own metric, never removes
its marker, and only publishes gauges of its metric.
-/

namespace InventoryGauges
namespace Inventory

theorem exists_of_bind_eq_ok {Value Result Failure : Type} {first : Except Failure Value}
    {rest : Value → Except Failure Result} {result : Result}
    (succeeds : first >>= rest = .ok result) :
    ∃ value, first = .ok value ∧ rest value = .ok result := by
  cases first with
  | error failure => cases succeeds
  | ok value => exact ⟨value, rfl, succeeds⟩

theorem mapM_cons_eq_ok_iff {Value Result Failure : Type} {f : Value → Except Failure Result}
    {value : Value} {values : List Value} {results : List Result} :
    (value :: values).mapM f = .ok results ↔
      ∃ first rest, f value = .ok first ∧ values.mapM f = .ok rest ∧ results = first :: rest := by
  rw [List.mapM_cons]
  constructor
  · intro succeeds
    obtain ⟨first, own, continues⟩ := exists_of_bind_eq_ok succeeds
    obtain ⟨rest, others, ends⟩ := exists_of_bind_eq_ok continues
    exact ⟨first, rest, own, others, (Except.ok.inj ends).symm⟩
  · rintro ⟨first, rest, own, others, rfl⟩
    rw [own, others]
    rfl

theorem exists_of_mem_mapM {Value Result Failure : Type} {f : Value → Except Failure Result}
    {values : List Value} {results : List Result} (succeeds : values.mapM f = .ok results)
    {result : Result} (member : result ∈ results) : ∃ value ∈ values, f value = .ok result := by
  induction values generalizing results with
  | nil =>
      obtain rfl := Except.ok.inj succeeds
      exact absurd member (by simp)
  | cons value values hypothesis =>
      obtain ⟨found, others, first, rest, rfl⟩ := mapM_cons_eq_ok_iff.mp succeeds
      rcases List.mem_cons.mp member with rfl | later
      · exact ⟨value, List.mem_cons_self, first⟩
      · obtain ⟨other, found, equal⟩ := hypothesis rest later
        exact ⟨other, List.mem_cons_of_mem value found, equal⟩

/-- What is extracted are gauges of the metric, under the identities that its
name, the object and the attribute have. -/
theorem exists_of_mem_extract {metric : Metric} {objects : List Object}
    {samples : List Gauge.Sample} (extracts : extract metric objects = .ok samples)
    {sample : Gauge.Sample} (member : sample ∈ samples) :
    ∃ dn attributeName value,
      sample = .of metric.name metric.className dn attributeName value := by
  obtain ⟨nested, each, flat⟩ := exists_of_bind_eq_ok extracts
  obtain rfl := Except.ok.inj flat
  obtain ⟨some, inNested, inSome⟩ := List.mem_flatten.mp member
  obtain ⟨object, -, sampled⟩ := exists_of_mem_mapM each inNested
  obtain ⟨dn, -, attributes⟩ := exists_of_bind_eq_ok sampled
  obtain ⟨attributeName, -, valued⟩ := exists_of_mem_mapM attributes inSome
  obtain ⟨value, -, made⟩ := exists_of_bind_eq_ok valued
  exact ⟨dn, attributeName, value, (Except.ok.inj made).symm⟩

end Inventory

namespace Store

/-- A key of the bookkeeping of a name. -/
def IsKeyOf (name key : String) : Prop :=
  key = markerKey name ∨ key = relatedKey name

theorem not_isKeyOf_metricsKey (name : String) : ¬ IsKeyOf name metricsKey := by
  rintro (equal | equal)
  · exact markerKey_ne_metricsKey name equal.symm
  · exact relatedKey_ne_metricsKey name equal.symm

theorem eq_of_isKeyOf {left right key : String} (ofLeft : IsKeyOf left key)
    (ofRight : IsKeyOf right key) : left = right := by
  rcases ofLeft with rfl | rfl <;> rcases ofRight with equal | equal
  · exact markerKey_injective equal
  · exact absurd equal (markerKey_ne_relatedKey left right)
  · exact absurd equal.symm (markerKey_ne_relatedKey right left)
  · exact relatedKey_injective equal

end Store

namespace Sampling

open Work (Answered)

/-- What a pass of a metric may do besides querying and publishing. -/
inductive Tidies (metric : Metric) : Event → Prop
  | delete (id : String) (answer : Gateway.Answer) : Tidies metric (.gateway (.delete id) answer)
  | read (answer : Except Store.Error (Option String)) :
      Tidies metric (.store (.get (Store.relatedKey metric.name)) answer)
  | mark (text : String) (answer : Except Store.Error Unit) :
      Tidies metric (.store (.set (Store.markerKey metric.name) text) answer)
  | save (ids : Text.Set) (answer : Except Store.Error Unit) :
      Tidies metric (.store (.set (Store.relatedKey metric.name) (Store.idsText ids)) answer)
  | clock (time : Timestamp) : Tidies metric (.clock time)
  | count (counter : Counter) (amount : Nat) : Tidies metric (.count counter amount)

/-- What a pass of a metric may do once its query is answered. -/
inductive Acts (metric : Metric) : Event → Prop
  | push (sample : Gauge.Sample) (own : sample.metric = metric.name) (answer : Gateway.Answer) :
      Acts metric (.gateway (.push sample) answer)
  | tidies {event : Event} (tidies : Tidies metric event) : Acts metric event

/-- What may happen in a pass of a metric. -/
inductive Does (metric : Metric) : Event → Prop
  | acts {event : Event} (acts : Acts metric event) : Does metric event
  | query (className filter : String)
      (answer : Except Inventory.Error (List Inventory.Object)) :
      Does metric (.query className filter answer)
  | unanswered (className filter : String) : Does metric (.unanswered className filter)
  | deadline : Does metric .deadline

theorem Does.within {metric : Metric} {event : Event} (does : Does metric event) :
    event.Within (Store.IsKeyOf metric.name) := by
  cases does with
  | acts acts =>
      cases acts with
      | push _ _ _ => trivial
      | tidies tidies =>
          cases tidies with
          | read _ | save _ _ => exact Or.inr rfl
          | mark _ _ => exact Or.inl rfl
          | delete _ _ | clock _ | count _ _ => trivial
  | query _ _ _ | unanswered _ _ | deadline => trivial

/-- A pass only writes its marker and sets of identities. -/
theorem Does.cases_of_written {metric : Metric} {event : Event} (does : Does metric event)
    {key : String} {value? : Option String} (written : event.written? key = some value?) :
    (∃ text, key = Store.markerKey metric.name ∧ value? = some text) ∨
      ∃ ids, key = Store.relatedKey metric.name ∧ value? = some (Store.idsText ids) := by
  cases does with
  | acts acts =>
      cases acts with
      | push _ _ _ => cases written
      | tidies tidies =>
          cases tidies with
          | mark text answer => exact Or.inl ⟨text, Event.eq_of_written?_set written⟩
          | save ids answer => exact Or.inr ⟨ids, Event.eq_of_written?_set written⟩
          | read answer =>
              rw [Event.written?_get] at written
              cases written
          | delete _ _ | clock _ | count _ _ => cases written
  | query _ _ _ | unanswered _ _ | deadline => cases written

/-- A pass never removes a marker. -/
theorem Does.marker_isSome {metric : Metric} {event : Event} (does : Does metric event)
    {name : String} {value? : Option String}
    (written : event.written? (Store.markerKey name) = some value?) : value?.isSome := by
  rcases does.cases_of_written written with ⟨text, -, rfl⟩ | ⟨ids, -, rfl⟩ <;> rfl

/-- The identities that a pass writes can be read. -/
theorem Does.readable {metric : Metric} {event : Event} (does : Does metric event)
    {name : String} {value? : Option String}
    (written : event.written? (Store.relatedKey name) = some value?) :
    (Store.idsIn? value?).isSome := by
  rcases does.cases_of_written written with ⟨text, equal, -⟩ | ⟨ids, -, rfl⟩
  · exact absurd equal.symm (Store.markerKey_ne_relatedKey metric.name name)
  · rw [Store.idsIn?, Store.ofIdsText?_idsText]
    rfl

section Traces

variable {schedule : Schedule} {metric : Metric} {limit : Nat} {events : List Event}

theorem tidies_of_mem_withdrawal {ended : List Gateway.Ended} {ids : List String}
    (same : (ended.map Prod.fst).Perm (ids.map .delete)) {event : Event}
    (member : event ∈ withdrawal ended) : Tidies metric event := by
  rcases cases_of_mem_withdrawal same member with ⟨id, -, answer, rfl⟩ | ⟨counter, amount, rfl⟩
  · exact .delete id answer
  · exact .count counter amount

theorem tidies_of_finishes_giveUp
    (finishes : Program.Finishes Answered (giveUp schedule metric) events ()) {event : Event}
    (member : event ∈ events) : Tidies metric event := by
  obtain ⟨_, _, withdraws, records, rfl⟩ := finishes_giveUp_iff.mp finishes
  obtain ⟨now, marked, rfl⟩ := finishes_recordFailure_iff.mp records
  obtain ⟨answer, others, rfl, continues⟩ := finishes_withdrawPublished_iff.mp withdraws
  rcases List.mem_append.mp member with early | late
  · rcases List.mem_cons.mp early with rfl | later
    · exact .read answer
    · generalize Store.reading (Store.relatedKey metric.name) Store.idsIn? answer = outcome
        at continues
      cases outcome with
      | error error => exact absurd (continues ▸ later) (List.not_mem_nil)
      | ok ids =>
          obtain ⟨ended, same, rfl⟩ := continues
          exact tidies_of_mem_withdrawal same later
  · simp only [List.mem_cons, List.not_mem_nil, or_false] at late
    rcases late with rfl | rfl
    · exact .clock now
    · exact .mark _ marked

theorem tidies_of_finishes_reconcile {current : Text.Set} {reconciliation : Reconciliation}
    (finishes : Program.Finishes Answered (reconcile schedule metric current) events
      reconciliation) {event : Event} (member : event ∈ events) : Tidies metric event := by
  obtain ⟨answer, others, rfl, continues⟩ := finishes_reconcile_iff.mp finishes
  rcases List.mem_cons.mp member with rfl | later
  · exact .read answer
  · generalize Store.reading (Store.relatedKey metric.name) Store.idsIn? answer = outcome
      at continues
    cases outcome with
    | error error => exact absurd (continues.1 ▸ later) (List.not_mem_nil)
    | ok previous =>
        obtain ⟨ended, same, written, saved, rfl, -, saves⟩ := continues
        rcases List.mem_append.mp later with withdrawn | last
        · exact tidies_of_mem_withdrawal same withdrawn
        · rcases saves with ⟨-, rfl, -⟩ | ⟨-, answer, rfl, -⟩
          · exact absurd last (List.not_mem_nil)
          · obtain rfl := List.mem_singleton.mp last
            exact .save _ answer

theorem acts_of_finishes_complete {samples : List Gauge.Sample} {report : Report}
    (own : ∀ sample ∈ samples, sample.metric = metric.name)
    (finishes : Program.Finishes Answered (complete schedule metric samples) events report)
    {event : Event} (member : event ∈ events) : Acts metric event := by
  obtain ⟨pushed, now, marked, reconciled, reconciliation, same, reconciles, rfl, -⟩ :=
    finishes_complete_iff.mp finishes
  simp only [List.mem_append, List.mem_cons, List.not_mem_nil, or_false] at member
  rcases member with published | rfl | rfl | inReconciled | rfl
  · rcases cases_of_mem_publication same published with
      ⟨sample, member, answer, rfl⟩ | ⟨counter, amount, rfl⟩
    · exact .push sample (own sample member) answer
    · exact .tidies (.count counter amount)
  · exact .tidies (.clock now)
  · exact .tidies (.mark _ marked)
  · exact .tidies (tidies_of_finishes_reconcile reconciles inReconciled)
  · exact .tidies (.count _ _)

/-- What is published after the query are the samples. -/
theorem mem_samples_of_push {samples : List Gauge.Sample} {report : Report}
    {sample : Gauge.Sample} {given : Gateway.Answer}
    (finishes : Program.Finishes Answered (complete schedule metric samples) events report)
    (pushed : .gateway (.push sample) given ∈ events) : sample ∈ samples := by
  obtain ⟨called, now, marked, reconciled, reconciliation, same, reconciles, rfl, -⟩ :=
    finishes_complete_iff.mp finishes
  simp only [List.mem_append, List.mem_cons, List.not_mem_nil, or_false, reduceCtorEq,
    false_or] at pushed
  rcases pushed with published | inReconciled
  · rcases cases_of_mem_publication same published with ⟨other, member, _, equal⟩ | ⟨_, _, equal⟩
    · obtain rfl := Gateway.Call.push.inj (Event.gateway.inj equal).1
      exact member
    · cases equal
  · cases tidies_of_finishes_reconcile reconciles inReconciled

/-- If the gateway takes everything, all samples are published. -/
theorem push_mem_of_mem_samples {samples : List Gauge.Sample} {report : Report}
    {sample : Gauge.Sample}
    (finishes : Program.Finishes Answered (complete schedule metric samples) events report)
    (accepting : ∀ event ∈ events, ¬ event.IsGatewayFailure) (member : sample ∈ samples) :
    .gateway (.push sample) (.ok ()) ∈ events := by
  obtain ⟨called, now, marked, reconciled, reconciliation, same, reconciles, rfl, -⟩ :=
    finishes_complete_iff.mp finishes
  obtain ⟨⟨call, given⟩, found, rfl⟩ :=
    List.mem_map.mp (same.mem_iff.mpr (List.mem_map_of_mem member))
  have published : .gateway (.push sample) given ∈ publication called :=
    List.mem_append_left _ (List.mem_map_of_mem (f := Event.ofEnded) found)
  cases given with
  | error error => exact absurd trivial (accepting _ (List.mem_append_left _ published))
  | ok accepted => exact List.mem_append_left _ published

theorem metric_of_mem_extracted {answer : Except Inventory.Error (List Inventory.Object)}
    {samples : List Gauge.Sample} (extracts : extracted metric answer = .ok samples)
    {sample : Gauge.Sample} (member : sample ∈ samples) : sample.metric = metric.name := by
  cases answer with
  | error error => cases extracts
  | ok objects =>
      rw [extracted] at extracts
      cases each : Inventory.extract metric objects with
      | error error => exact absurd (each ▸ extracts) nofun
      | ok found =>
          rw [each] at extracts
          obtain rfl := Except.ok.inj extracts
          obtain ⟨dn, attributeName, value, rfl⟩ := Inventory.exists_of_mem_extract each member
          rfl

/-- A pass queries, and then does only what it may do with the answer. -/
theorem exists_query_of_finishes_pass {result : Except Error Report}
    (finishes : Program.Finishes Answered (pass schedule metric) events result) :
    ∃ answer others, events = .query metric.className metric.queryFilter answer :: others ∧
      ∀ event ∈ others, Acts metric event := by
  obtain ⟨answer, others, rfl, continues⟩ := finishes_pass_iff.mp finishes
  refine ⟨answer, others, rfl, fun event member => ?_⟩
  cases extracts : extracted metric answer with
  | error error =>
      rw [extracts] at continues
      obtain ⟨cleaned, cleans, rfl, -⟩ := continues
      rcases List.mem_append.mp member with cleaning | last
      · exact .tidies (tidies_of_finishes_giveUp cleans cleaning)
      · obtain rfl := List.mem_singleton.mp last
        exact .tidies (.count _ _)
  | ok samples =>
      rw [extracts] at continues
      obtain ⟨report, completes, -⟩ := continues
      exact acts_of_finishes_complete (fun sample => metric_of_mem_extracted extracts) completes
        member

theorem does_of_finishes_pass {result : Except Error Report}
    (finishes : Program.Finishes Answered (pass schedule metric) events result) {event : Event}
    (member : event ∈ events) : Does metric event := by
  obtain ⟨answer, others, rfl, acts⟩ := exists_query_of_finishes_pass finishes
  rcases List.mem_cons.mp member with rfl | later
  · exact .query _ _ answer
  · exact .acts (acts event later)

/-- A pass that breaks down does so before it did anything. -/
theorem eq_unanswered_of_stalls (stalls : Work.Stalls (pass schedule metric) events) :
    events = [.unanswered metric.className metric.queryFilter] := by
  obtain ⟨before, className, filter, answer, rest, result, finishes, rfl⟩ := stalls
  obtain ⟨given, others, shape, acts⟩ := exists_query_of_finishes_pass finishes
  cases before with
  | nil =>
      obtain ⟨rfl, rfl, -⟩ := Event.query.inj (List.cons.inj shape).1
      rfl
  | cons first before =>
      obtain rfl : before ++ .query className filter answer :: rest = others :=
        (List.cons.inj shape).2
      cases acts (.query className filter answer) (by simp) with
      | tidies tidies => cases tidies

end Traces

end Sampling

namespace Cycle

theorem PassRuns.events_of_broken {schedule : Schedule} {metric : Metric} {events : List Event}
    (runs : PassRuns schedule metric events .broken) :
    events = [.unanswered metric.className metric.queryFilter] := by
  cases runs with
  | broken stalls => exact Sampling.eq_unanswered_of_stalls stalls

/-- However a pass goes within a cycle, it does no more than a pass may do. -/
theorem PassRuns.does {schedule : Schedule} {metric : Metric} {events : List Event}
    {ending : Ending} (runs : PassRuns schedule metric events ending) :
    ∀ event ∈ events, Sampling.Does metric event := by
  have begun {begun : List Event} (begins : Work.Begins (Sampling.pass schedule metric) begun) :
      ∀ event ∈ begun, Sampling.Does metric event := by
    obtain ⟨rest, result, finishes⟩ := begins
    intro event member
    exact Sampling.does_of_finishes_pass finishes (List.mem_append_left rest member)
  have stalled {begun : List Event} (stalls : Work.Stalls (Sampling.pass schedule metric) begun) :
      ∀ event ∈ begun, Sampling.Does metric event := by
    obtain rfl := Sampling.eq_unanswered_of_stalls stalls
    intro event member
    obtain rfl := List.mem_singleton.mp member
    exact .unanswered _ _
  cases runs with
  | finished finishes => exact fun event => Sampling.does_of_finishes_pass finishes
  | broken stalls => exact stalled stalls
  | timedOut begins cleans =>
      intro event member
      rcases List.mem_append.mp member with early | late
      · exact begins.elim (fun begins => begun begins event early)
          fun stalls => stalled stalls event early
      · rcases List.mem_cons.mp late with rfl | cleaning
        · exact .deadline
        · exact .acts (.tidies (Sampling.tidies_of_finishes_giveUp cleans cleaning))

end Cycle
end InventoryGauges
