import InventoryGauges.Proofs.Gauges.Record

/-!
# What a pass records

If the store works, a pass that gets samples records all of them, and what it
could not withdraw.
-/

namespace InventoryGauges
namespace Sampling

open Work (Answered)

variable {schedule : Schedule} {metric : Metric} {events : List Event} {site : Site}

/-- If the identities can be read and written, reconciling records the current
ones and those that were not withdrawn. -/
theorem exists_of_finishes_reconcile {current : Text.Set} {reconciliation : Reconciliation}
    (finishes : Program.Finishes Answered (reconcile schedule metric current) events
      reconciliation)
    (lawful : site.Lawful events)
    (works : ∀ event ∈ events, ¬ event.IsFailureAt (Store.relatedKey metric.name))
    {previous : Text.Set} (stored : site.recorded? metric.name = some previous) :
    ∃ text? ended written,
      events = .store (.get (Store.relatedKey metric.name)) (.ok text?) ::
        (withdrawal ended ++ written) ∧
      (ended.map Prod.fst).Perm ((previous.diff current).toList.map .delete) ∧
      (∀ event ∈ written, ∃ call answer, event = .store call answer) ∧
      (site.afterAll events).recorded? metric.name =
        some (current.insertAll (refusedIds ended)) := by
  obtain ⟨answer, others, rfl, continues⟩ := finishes_reconcile_iff.mp finishes
  obtain ⟨text?, rfl, read⟩ :=
    Site.exists_reading_of_recorded? lawful.1 (works _ List.mem_cons_self) stored
  rw [read] at continues
  obtain ⟨ended, same, written, saved, rfl, -, saves⟩ := continues
  refine ⟨text?, ended, written, rfl, same, ?_, ?_⟩
  · rcases saves with ⟨-, rfl, -⟩ | ⟨-, answer, rfl, -⟩
    · exact nofun
    · intro event member
      exact ⟨_, _, List.mem_singleton.mp member⟩
  · rw [← List.cons_append, Site.afterAll_append]
    rcases saves with ⟨equal, rfl, -⟩ | ⟨-, answer, rfl, -⟩
    · rw [equal, ← stored]
      exact Site.recorded?_afterAll (written?_of_mem_read_withdrawal _)
    · obtain rfl := Event.eq_ok_of_works (works (.store (.set (Store.relatedKey metric.name)
        (Store.idsText (current.insertAll (refusedIds ended)))) answer) (by simp))
      rw [Site.afterAll_cons, Site.afterAll_nil, Site.recorded?_after, Event.written?_set_self]
      exact Store.ofIdsText?_idsText _

/-- If the identities can be read and written, what a pass does after its query,
and what it records. -/
theorem exists_of_finishes_complete {samples : List Gauge.Sample} {report : Report}
    (finishes : Program.Finishes Answered (complete schedule metric samples) events report)
    (lawful : site.Lawful events)
    (works : ∀ event ∈ events, ¬ event.IsFailureAt (Store.relatedKey metric.name))
    {previous : Text.Set} (stored : site.recorded? metric.name = some previous) :
    ∃ pushed ended between closing,
      (pushed.map Prod.fst).Perm (samples.map .push) ∧
      (ended.map Prod.fst).Perm ((previous.diff (ids samples)).toList.map .delete) ∧
      events = publication pushed ++ (between ++ (withdrawal ended ++ closing)) ∧
      (∀ event ∈ between ++ closing, ∀ id, event.left? id = none) ∧
      (site.afterAll events).recorded? metric.name =
        some ((ids samples).insertAll (refusedIds ended)) ∧
      ((∀ event ∈ events, ¬ event.IsFailureAt (Store.markerKey metric.name)) →
        ((site.afterAll events).contents.get? (Store.markerKey metric.name)).isSome) := by
  obtain ⟨pushed, now, marked, reconciled, reconciliation, same, reconciles, rfl, -⟩ :=
    finishes_complete_iff.mp finishes
  have shape : publication pushed ++ .clock now ::
        .store (.set (Store.markerKey metric.name) now.decimal) marked ::
          (reconciled ++ [.count (.samples .success) 1]) =
      (publication pushed ++ [.clock now,
        .store (.set (Store.markerKey metric.name) now.decimal) marked]) ++
          (reconciled ++ [.count (.samples .success) 1]) := by
    simp
  have tidies : ∀ event ∈ reconciled, Tidies metric event :=
    fun event => tidies_of_finishes_reconcile reconciles
  rw [shape] at lawful works ⊢
  obtain ⟨-, later⟩ := Site.lawful_append.mp lawful
  obtain ⟨text?, ended, written, rfl, withdrawn, quiet, recorded⟩ :=
    exists_of_finishes_reconcile reconciles (Site.lawful_append.mp later).1
      (fun event member => works event
        (List.mem_append_right _ (List.mem_append_left _ member)))
      ((Site.recorded?_afterAll (written?_relatedKey_of_opening _)).trans stored)
  refine ⟨pushed, ended, [.clock now,
    .store (.set (Store.markerKey metric.name) now.decimal) marked,
    .store (.get (Store.relatedKey metric.name)) (.ok text?)],
    written ++ [.count (.samples .success) 1], same, withdrawn, by simp, ?_, ?_, ?_⟩
  · intro event member id
    simp only [List.mem_append, List.mem_cons, List.not_mem_nil, or_false] at member
    rcases member with (rfl | rfl | rfl) | inWritten | rfl
    · rfl
    · rfl
    · rfl
    · obtain ⟨call, answer, rfl⟩ := quiet event inWritten
      rfl
    · rfl
  · rw [Site.afterAll_append, Site.afterAll_append]
    exact recorded
  · intro marks
    obtain rfl := Event.eq_ok_of_works (marks (.store (.set (Store.markerKey metric.name)
      now.decimal) marked) (by simp))
    rw [Site.afterAll_append, Site.afterAll_append]
    refine Site.get?_contents_afterAll_induct (P := fun value? => value?.isSome) ?_ nofun
    apply Site.get?_contents_afterAll_induct (P := fun value? => value?.isSome)
    · rw [Site.afterAll_append, Site.afterAll_cons, Site.afterAll_cons, Site.afterAll_nil,
        Site.get?_contents_after, Event.written?_set_self]
      rfl
    · intro event member value? writes
      exact (Does.acts (.tidies (tidies event member))).marker_isSome writes

/-- If the identities can be read and written, what a pass publishes is recorded
in the end. -/
theorem records_of_pushed {result : Except Error Report}
    (finishes : Program.Finishes Answered (pass schedule metric) events result)
    (lawful : site.Lawful events)
    (works : ∀ event ∈ events, ¬ event.IsFailureAt (Store.relatedKey metric.name))
    (stored : (site.recorded? metric.name).isSome) {sample : Gauge.Sample}
    (pushed : .gateway (.push sample) (.ok ()) ∈ events) :
    (site.afterAll events).Records metric.name sample.id ∧
      ((∀ event ∈ events, ¬ event.IsFailureAt (Store.markerKey metric.name)) →
        ((site.afterAll events).contents.get? (Store.markerKey metric.name)).isSome) := by
  obtain ⟨answer, others, rfl, continues⟩ := finishes_pass_iff.mp finishes
  have later : .gateway (.push sample) (.ok ()) ∈ others :=
    (List.mem_cons.mp pushed).resolve_left (by simp)
  cases extracts : extracted metric answer with
  | error error =>
      rw [extracts] at continues
      obtain ⟨cleaned, cleans, rfl, -⟩ := continues
      rcases List.mem_append.mp later with cleaning | last
      · cases tidies_of_finishes_giveUp cleans cleaning
      · cases List.mem_singleton.mp last
  | ok samples =>
      rw [extracts] at continues
      obtain ⟨report, completes, -⟩ := continues
      obtain ⟨previous, found⟩ := Option.isSome_iff_exists.mp stored
      obtain ⟨-, ended, -, -, -, -, -, -, recorded, marked⟩ :=
        exists_of_finishes_complete completes lawful.2
          (fun event member => works event (List.mem_cons_of_mem _ member)) found
      refine ⟨⟨_, recorded, ?_⟩,
        fun marks => marked fun event member => marks event (List.mem_cons_of_mem _ member)⟩
      rw [Text.Set.mem_insertAll, ids, Text.Set.mem_ofList]
      exact Or.inr (List.mem_map_of_mem (mem_samples_of_push completes later))

end Sampling

/-- If the identities can be read and written, what a pass publishes that is
not cut off is recorded in the end. -/
theorem Cycle.PassRuns.records_of_pushed {schedule : Schedule} {metric : Metric}
    {events : List Event} {ending : Cycle.Ending} {site : Site}
    (runs : Cycle.PassRuns schedule metric events ending) (unhurried : ¬ .deadline ∈ events)
    (lawful : site.Lawful events)
    (works : ∀ event ∈ events, ¬ event.IsFailureAt (Store.relatedKey metric.name))
    (stored : (site.recorded? metric.name).isSome) {sample : Gauge.Sample}
    (pushed : .gateway (.push sample) (.ok ()) ∈ events) :
    (site.afterAll events).Records metric.name sample.id ∧
      ((∀ event ∈ events, ¬ event.IsFailureAt (Store.markerKey metric.name)) →
        ((site.afterAll events).contents.get? (Store.markerKey metric.name)).isSome) := by
  cases runs with
  | finished finishes => exact Sampling.records_of_pushed finishes lawful works stored pushed
  | broken stalls =>
      rw [Sampling.eq_unanswered_of_stalls stalls] at pushed
      cases List.mem_singleton.mp pushed
  | timedOut begins cleans => exact absurd (by simp) unhurried

end InventoryGauges
