import InventoryGauges.Proofs.Execution.Work
import InventoryGauges.Proofs.Sampling.Answers

/-!
# Traces of passes

What a pass does, as lists of events: which calls it makes in which order, and
how their answers decide what follows.
-/

namespace InventoryGauges
namespace Sampling

open Work (Answered)

/-- The samples in the answer of a query. -/
def extracted (metric : Metric) :
    Except Inventory.Error (List Inventory.Object) → Except Error (List Gauge.Sample)
  | .error error => .error (.inventory error)
  | .ok objects => (Inventory.extract metric objects).mapError .extraction

/-- How the identities of the published gauges are written: not at all when
they are the stored ones. -/
def Saves (name : String) (previous next : Text.Set) (written : List Event) (saved : Bool) : Prop :=
  next = previous ∧ written = [] ∧ saved = false ∨
    next ≠ previous ∧ ∃ answer : Except Store.Error Unit,
      written = [.store (.set (Store.relatedKey name) (Store.idsText next)) answer] ∧
        saved = answer.isOk

section Traces

variable {schedule : Schedule} {metric : Metric} {limit : Nat} {events : List Event}

theorem finishes_withdraw_iff {ids refused : List String} :
    Program.Finishes Answered (withdraw limit ids) events refused ↔
      ∃ ended : List Gateway.Ended, (ended.map Prod.fst).Perm (ids.map .delete) ∧
        refused = refusedIds ended ∧ events = withdrawal ended := by
  simp only [withdraw, Work.gateway, Work.count, Program.finishes_bind_iff,
    Program.finishes_request_iff, Program.finishes_pure_iff, Answered]
  constructor
  · rintro ⟨_, ended, _, ⟨same, rfl⟩, ⟨_, _, _, rfl, ⟨_, _, _, rfl, ⟨rfl, rfl⟩, rfl⟩, rfl⟩, rfl⟩
    exact ⟨ended, same, rfl, rfl⟩
  · rintro ⟨ended, same, rfl, rfl⟩
    exact ⟨_, ended, _, ⟨same, rfl⟩, ⟨_, (), _, rfl, ⟨_, (), [], rfl, ⟨rfl, rfl⟩, rfl⟩, rfl⟩, rfl⟩

theorem finishes_publish_iff {samples : List Gauge.Sample} {refused : Nat} :
    Program.Finishes Answered (publish limit samples) events refused ↔
      ∃ ended : List Gateway.Ended, (ended.map Prod.fst).Perm (samples.map .push) ∧
        refused = refusals ended ∧ events = publication ended := by
  simp only [publish, Work.gateway, Work.count, Program.finishes_bind_iff,
    Program.finishes_request_iff, Program.finishes_pure_iff, Answered]
  constructor
  · rintro ⟨_, ended, _, ⟨same, rfl⟩, ⟨_, _, _, rfl, ⟨_, _, _, rfl, ⟨rfl, rfl⟩, rfl⟩, rfl⟩, rfl⟩
    exact ⟨ended, same, rfl, rfl⟩
  · rintro ⟨ended, same, rfl, rfl⟩
    exact ⟨_, ended, _, ⟨same, rfl⟩, ⟨_, (), _, rfl, ⟨_, (), [], rfl, ⟨rfl, rfl⟩, rfl⟩, rfl⟩, rfl⟩

theorem finishes_collect_iff {result : Except Error (List Gauge.Sample)} :
    Program.Finishes Answered (collect metric) events result ↔
      ∃ answer, events = [.query metric.className metric.queryFilter answer] ∧
        result = extracted metric answer := by
  rw [collect, Program.finishes_bind_iff]
  constructor
  · rintro ⟨_, answer, _, asks, concludes, rfl⟩
    rw [Work.query, Program.finishes_request_iff, Answered] at asks
    subst asks
    refine ⟨answer, ?_⟩
    cases answer with
    | error error =>
        obtain ⟨rfl, rfl⟩ := Program.finishes_done_iff.mp concludes
        exact ⟨rfl, rfl⟩
    | ok objects =>
        obtain ⟨rfl, rfl⟩ := Program.finishes_done_iff.mp concludes
        exact ⟨rfl, rfl⟩
  · rintro ⟨answer, rfl, rfl⟩
    refine ⟨_, answer, [], Program.finishes_request_iff.mpr rfl, ?_, rfl⟩
    cases answer <;> exact .done _

theorem finishes_withdrawPublished_iff :
    Program.Finishes Answered (withdrawPublished schedule metric) events () ↔
      ∃ answer others, events = .store (.get (Store.relatedKey metric.name)) answer :: others ∧
        match Store.reading (Store.relatedKey metric.name) Store.idsIn? answer with
        | .error _ => others = []
        | .ok ids => ∃ ended : List Gateway.Ended,
            (ended.map Prod.fst).Perm (ids.toList.map .delete) ∧ others = withdrawal ended := by
  rw [withdrawPublished, Program.finishes_bind_iff]
  constructor
  · rintro ⟨_, result, others, reads, continues, rfl⟩
    obtain ⟨answer, rfl, rfl⟩ := Work.finishes_relatedIds_iff.mp reads
    refine ⟨answer, others, rfl, ?_⟩
    generalize Store.reading (Store.relatedKey metric.name) Store.idsIn? answer = outcome
      at continues ⊢
    cases outcome with
    | error error => exact (Program.finishes_done_iff.mp continues).1
    | ok ids =>
        obtain ⟨_, refused, _, withdraws, ends, rfl⟩ := Program.finishes_bind_iff.mp continues
        obtain ⟨rfl, -⟩ := Program.finishes_done_iff.mp ends
        obtain ⟨ended, same, -, rfl⟩ := finishes_withdraw_iff.mp withdraws
        exact ⟨ended, same, List.append_nil _⟩
  · rintro ⟨answer, others, rfl, continues⟩
    refine ⟨_, _, others, Work.finishes_relatedIds_iff.mpr ⟨answer, rfl, rfl⟩, ?_, rfl⟩
    generalize Store.reading (Store.relatedKey metric.name) Store.idsIn? answer = outcome
      at continues ⊢
    cases outcome with
    | error error => exact Program.finishes_done_iff.mpr ⟨continues, rfl⟩
    | ok ids =>
        obtain ⟨ended, same, rfl⟩ := continues
        exact Program.finishes_bind_iff.mpr ⟨_, _, [],
          finishes_withdraw_iff.mpr ⟨ended, same, rfl, rfl⟩, .done _, (List.append_nil _).symm⟩

theorem finishes_recordFailure_iff :
    Program.Finishes Answered (recordFailure schedule metric) events () ↔
      ∃ now marked, events = [.clock now, .store (.set (Store.markerKey metric.name)
        (Schedule.failureMarker now metric.interval schedule.failureBackoff).decimal) marked] := by
  simp only [recordFailure, Work.clock, Program.finishes_bind_iff, Program.finishes_request_iff,
    Work.finishes_markProcessed_iff, Program.finishes_pure_iff, Answered]
  constructor
  · rintro ⟨_, now, _, rfl, ⟨_, marked, _, rfl, ⟨rfl, -⟩, rfl⟩, rfl⟩
    exact ⟨now, marked, rfl⟩
  · rintro ⟨now, marked, rfl⟩
    exact ⟨_, now, _, rfl, ⟨_, marked, [], rfl, ⟨rfl, trivial⟩, rfl⟩, rfl⟩

theorem finishes_giveUp_iff :
    Program.Finishes Answered (giveUp schedule metric) events () ↔
      ∃ withdrawn recorded,
        Program.Finishes Answered (withdrawPublished schedule metric) withdrawn () ∧
          Program.Finishes Answered (recordFailure schedule metric) recorded () ∧
            events = withdrawn ++ recorded := by
  rw [giveUp, Program.finishes_bind_iff]
  exact ⟨fun ⟨first, (), last, whole⟩ => ⟨first, last, whole⟩,
    fun ⟨first, last, whole⟩ => ⟨first, (), last, whole⟩⟩

theorem finishes_reconcile_iff {current : Text.Set} {reconciliation : Reconciliation} :
    Program.Finishes Answered (reconcile schedule metric current) events reconciliation ↔
      ∃ answer others, events = .store (.get (Store.relatedKey metric.name)) answer :: others ∧
        match Store.reading (Store.relatedKey metric.name) Store.idsIn? answer with
        | .error _ => others = [] ∧ reconciliation = ⟨0, 0, false⟩
        | .ok previous => ∃ ended : List Gateway.Ended,
            (ended.map Prod.fst).Perm ((previous.diff current).toList.map .delete) ∧
              ∃ written saved, others = withdrawal ended ++ written ∧
                reconciliation =
                  ⟨(previous.diff current).toList.length - (refusedIds ended).length,
                    (refusedIds ended).length, saved⟩ ∧
                Saves metric.name previous (current.insertAll (refusedIds ended)) written
                  saved := by
  rw [reconcile, Program.finishes_bind_iff]
  constructor
  · rintro ⟨_, result, others, reads, continues, rfl⟩
    obtain ⟨answer, rfl, rfl⟩ := Work.finishes_relatedIds_iff.mp reads
    refine ⟨answer, others, rfl, ?_⟩
    generalize Store.reading (Store.relatedKey metric.name) Store.idsIn? answer = outcome
      at continues ⊢
    cases outcome with
    | error error => exact Program.finishes_done_iff.mp continues
    | ok previous =>
        obtain ⟨_, _, written, withdraws, saves, rfl⟩ := Program.finishes_bind_iff.mp continues
        obtain ⟨ended, same, rfl, rfl⟩ := finishes_withdraw_iff.mp withdraws
        dsimp only at saves
        split at saves
        · rename_i equal
          obtain ⟨rfl, rfl⟩ := Program.finishes_done_iff.mp saves
          exact ⟨ended, same, [], false, rfl, rfl, Or.inl ⟨equal, rfl, rfl⟩⟩
        · rename_i different
          obtain ⟨_, saved, _, saving, ends, rfl⟩ := Program.finishes_bind_iff.mp saves
          obtain ⟨rfl, rfl⟩ := Program.finishes_done_iff.mp ends
          obtain rfl := Work.finishes_saveRelatedIds_iff.mp saving
          exact ⟨ended, same, _, saved.isOk, rfl, rfl, Or.inr ⟨different, saved, rfl, rfl⟩⟩
  · rintro ⟨answer, others, rfl, continues⟩
    refine ⟨_, _, others, Work.finishes_relatedIds_iff.mpr ⟨answer, rfl, rfl⟩, ?_, rfl⟩
    generalize Store.reading (Store.relatedKey metric.name) Store.idsIn? answer = outcome
      at continues ⊢
    cases outcome with
    | error error => exact Program.finishes_done_iff.mpr continues
    | ok previous =>
        obtain ⟨ended, same, written, saved, rfl, rfl, saves⟩ := continues
        refine Program.finishes_bind_iff.mpr ⟨_, _, written,
          finishes_withdraw_iff.mpr ⟨ended, same, rfl, rfl⟩, ?_, rfl⟩
        dsimp only
        rcases saves with ⟨equal, rfl, rfl⟩ | ⟨different, saved, rfl, rfl⟩
        · rw [if_pos equal]
          exact .done _
        · rw [if_neg different]
          exact Program.finishes_bind_iff.mpr ⟨_, saved, [],
            Work.finishes_saveRelatedIds_iff.mpr rfl, .done _, rfl⟩

theorem finishes_complete_iff {samples : List Gauge.Sample} {report : Report} :
    Program.Finishes Answered (complete schedule metric samples) events report ↔
      ∃ pushed now marked reconciled reconciliation,
        (pushed.map Prod.fst).Perm (samples.map .push) ∧
          Program.Finishes Answered (reconcile schedule metric (ids samples)) reconciled
            reconciliation ∧
          events = publication pushed ++
            (.clock now :: .store (.set (Store.markerKey metric.name) now.decimal) marked ::
              (reconciled ++ [.count (.samples .success) 1])) ∧
          report = {
            objects := (names samples).size
            pushed := samples.length - refusals pushed
            pushFailures := refusals pushed
            obsoleteDeleted := reconciliation.obsoleteDeleted
            obsoleteFailed := reconciliation.obsoleteFailed
            relatedIdsSaved := reconciliation.relatedIdsSaved } := by
  simp only [complete, Work.clock, Work.count, Program.finishes_bind_iff,
    Program.finishes_request_iff, Work.finishes_markProcessed_iff, finishes_publish_iff,
    Program.finishes_pure_iff, Answered]
  constructor
  · rintro ⟨_, _, _, ⟨pushed, same, rfl, rfl⟩, ⟨_, now, _, rfl, ⟨_, marked, _, rfl,
      ⟨reconciled, reconciliation, _, reconciles, ⟨_, _, _, rfl, ⟨rfl, rfl⟩, rfl⟩, rfl⟩, rfl⟩, rfl⟩,
      rfl⟩
    exact ⟨pushed, now, marked, reconciled, reconciliation, same, reconciles, rfl, rfl⟩
  · rintro ⟨pushed, now, marked, reconciled, reconciliation, same, reconciles, rfl, rfl⟩
    exact ⟨_, _, _, ⟨pushed, same, rfl, rfl⟩, ⟨_, now, _, rfl, ⟨_, marked, _, rfl,
      ⟨reconciled, reconciliation, _, reconciles, ⟨_, (), [], rfl, ⟨rfl, rfl⟩, rfl⟩, rfl⟩, rfl⟩,
      rfl⟩, rfl⟩

theorem finishes_pass_iff {result : Except Error Report} :
    Program.Finishes Answered (pass schedule metric) events result ↔
      ∃ answer others, events = .query metric.className metric.queryFilter answer :: others ∧
        match extracted metric answer with
        | .error error => ∃ cleaned, Program.Finishes Answered (giveUp schedule metric) cleaned () ∧
            others = cleaned ++ [.count (.samples .failure) 1] ∧ result = .error error
        | .ok samples => ∃ report,
            Program.Finishes Answered (complete schedule metric samples) others report ∧
              result = .ok report := by
  rw [pass, Program.finishes_bind_iff]
  constructor
  · rintro ⟨_, outcome, others, collects, continues, rfl⟩
    obtain ⟨answer, rfl, rfl⟩ := finishes_collect_iff.mp collects
    refine ⟨answer, others, rfl, ?_⟩
    generalize extracted metric answer = outcome at continues ⊢
    cases outcome with
    | error error =>
        obtain ⟨cleaned, _, _, cleans, counts, rfl⟩ := Program.finishes_bind_iff.mp continues
        obtain ⟨_, _, _, asks, ends, rfl⟩ := Program.finishes_bind_iff.mp counts
        obtain ⟨rfl, rfl⟩ := Program.finishes_done_iff.mp ends
        rw [Work.count, Program.finishes_request_iff, Answered] at asks
        subst asks
        exact ⟨cleaned, cleans, rfl, rfl⟩
    | ok samples =>
        obtain ⟨_, report, _, completes, ends, rfl⟩ := Program.finishes_bind_iff.mp continues
        obtain ⟨rfl, rfl⟩ := Program.finishes_done_iff.mp ends
        rw [List.append_nil]
        exact ⟨report, completes, rfl⟩
  · rintro ⟨answer, others, rfl, continues⟩
    refine ⟨_, _, others, finishes_collect_iff.mpr ⟨answer, rfl, rfl⟩, ?_, rfl⟩
    generalize extracted metric answer = outcome at continues ⊢
    cases outcome with
    | error error =>
        obtain ⟨cleaned, cleans, rfl, rfl⟩ := continues
        exact Program.finishes_bind_iff.mpr ⟨cleaned, (), _, cleans,
          Program.finishes_bind_iff.mpr ⟨_, (), [], Program.finishes_request_iff.mpr rfl, .done _,
            rfl⟩, rfl⟩
    | ok samples =>
        obtain ⟨report, completes, rfl⟩ := continues
        exact Program.finishes_bind_iff.mpr ⟨others, report, [], completes, .done _,
          (List.append_nil _).symm⟩

end Traces

/-! ## A small inventory -/

namespace Example

/-- A metric of one attribute. -/
def metric : Metric :=
  { name := "m", className := "c", attributes := ["a"], queryFilter := "", interval := 1000 }

/-- An object with that attribute. -/
def object (dn : String) : Inventory.Object :=
  ⟨[("dn", .string dn), ("a", .number (.integer 1))]⟩

/-- The sample of the metric in the object. -/
def sample (dn : String) : Gauge.Sample :=
  .of "m" "c" dn "a" (JsonNumber.integer 1).toBinary64

/-- A pass that publishes one gauge when nothing is stored yet, with what
becomes of storing its identity. -/
def firstPass (saved : Except Store.Error Unit) : List Event :=
  .query "c" "" (.ok [object "o"]) :: (publication [(.push (sample "o"), .ok ())] ++
    .clock Timestamp.epoch ::
      .store (.set (Store.markerKey "m") Timestamp.epoch.decimal) (.ok ()) ::
      (.store (.get (Store.relatedKey "m")) (.ok none) :: (withdrawal [] ++
        [.store (.set (Store.relatedKey "m") (Store.idsText (ids [sample "o"]))) saved]) ++
          [.count (.samples .success) 1]))

/-- What giving up does when nothing is recorded. -/
def givenUp (schedule : Schedule) (metric : Metric) (now : Timestamp) : List Event :=
  (.store (.get (Store.relatedKey metric.name)) (.ok none) :: withdrawal []) ++
    [.clock now, .store (.set (Store.markerKey metric.name)
      (Schedule.failureMarker now metric.interval schedule.failureBackoff).decimal) (.ok ())]

theorem finishes_givenUp (schedule : Schedule) (metric : Metric) (now : Timestamp) :
    Program.Finishes Answered (giveUp schedule metric) (givenUp schedule metric now) () :=
  finishes_giveUp_iff.mpr ⟨_, _,
    finishes_withdrawPublished_iff.mpr ⟨.ok none, _, rfl, [], .nil, rfl⟩,
    finishes_recordFailure_iff.mpr ⟨now, .ok (), rfl⟩, rfl⟩

theorem ids_sample_ne_empty (dn : String) : ids [sample dn] ≠ Text.Set.empty := by
  intro none
  have member : (sample dn).id ∈ ids [sample dn] := Text.Set.mem_ofList.mpr (by simp)
  rw [none] at member
  exact Text.Set.not_mem_empty _ member

/-- The same pass, with what becomes of marking the metric too. -/
def markingPass (marked saved : Except Store.Error Unit) : List Event :=
  .query "c" "" (.ok [object "o"]) :: (publication [(.push (sample "o"), .ok ())] ++
    .clock Timestamp.epoch ::
      .store (.set (Store.markerKey "m") Timestamp.epoch.decimal) marked ::
      (.store (.get (Store.relatedKey "m")) (.ok none) :: (withdrawal [] ++
        [.store (.set (Store.relatedKey "m") (Store.idsText (ids [sample "o"]))) saved]) ++
          [.count (.samples .success) 1]))

theorem finishes_markingPass (schedule : Schedule) (marked saved : Except Store.Error Unit) :
    ∃ report,
      Program.Finishes Answered (pass schedule metric) (markingPass marked saved) (.ok report) := by
  have reconciles : Program.Finishes Answered (reconcile schedule metric (ids [sample "o"]))
      (.store (.get (Store.relatedKey "m")) (.ok none) :: (withdrawal [] ++
        [.store (.set (Store.relatedKey "m") (Store.idsText (ids [sample "o"]))) saved]))
      ⟨0, 0, saved.isOk⟩ :=
    finishes_reconcile_iff.mpr ⟨.ok none, _, rfl, [], .nil, _, _, rfl, rfl,
      Or.inr ⟨ids_sample_ne_empty "o", saved, rfl, rfl⟩⟩
  have completes := finishes_complete_iff.mpr
    ⟨[(.push (sample "o"), .ok ())], Timestamp.epoch, marked, _, _, .refl _, reconciles, rfl, rfl⟩
  exact ⟨_, finishes_pass_iff.mpr ⟨.ok [object "o"], _, rfl, _, completes, rfl⟩⟩

theorem finishes_firstPass (schedule : Schedule) (saved : Except Store.Error Unit) :
    ∃ report, Program.Finishes Answered (pass schedule metric) (firstPass saved) (.ok report) :=
  finishes_markingPass schedule (.ok ()) saved

end Example

end Sampling
end InventoryGauges
