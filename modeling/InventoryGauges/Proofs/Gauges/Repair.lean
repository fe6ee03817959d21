import InventoryGauges.Proofs.Gauges.GivingUp
import InventoryGauges.Proofs.Gauges.Reconciled

/-!
# What a later pass repairs

A pass in which nothing fails leaves its own gauges live, and those that were
live before without being recorded.  So it repairs what went wrong in earlier
passes exactly as far as the live gauges are recorded.
-/

namespace InventoryGauges
namespace Sampling

open Work (Answered)

variable {schedule : Schedule} {metric : Metric} {events : List Event} {site : Site}

/-- The samples of a pass are those in the answer of its query. -/
theorem exists_complete_of_finishes_pass {result : Except Error Report}
    {answer : Except Inventory.Error (List Inventory.Object)} {samples : List Gauge.Sample}
    (finishes : Program.Finishes Answered (pass schedule metric) events result)
    (queried : .query metric.className metric.queryFilter answer ∈ events)
    (extracts : extracted metric answer = .ok samples) :
    ∃ others report, events = .query metric.className metric.queryFilter answer :: others ∧
      Program.Finishes Answered (complete schedule metric samples) others report ∧
      result = .ok report := by
  obtain ⟨given, others, rfl, acts⟩ := exists_query_of_finishes_pass finishes
  obtain rfl : answer = given := by
    rcases List.mem_cons.mp queried with equal | later
    · exact (Event.query.inj equal).2.2
    · cases acts _ later with
      | tidies tidies => cases tidies
  obtain ⟨same, rest, shape, continues⟩ := finishes_pass_iff.mp finishes
  obtain ⟨equal, rfl⟩ := List.cons.inj shape
  obtain rfl := (Event.query.inj equal).2.2
  rw [extracts] at continues
  obtain ⟨report, completes, rfl⟩ := continues
  exact ⟨others, report, rfl, completes, rfl⟩

/-- After a pass in which nothing fails, the live gauges are the current ones
and those that were live and not recorded. -/
theorem live_iff_of_finishes_pass {result : Except Error Report}
    {answer : Except Inventory.Error (List Inventory.Object)} {samples : List Gauge.Sample}
    {previous : Text.Set} {id : String}
    (finishes : Program.Finishes Answered (pass schedule metric) events result)
    (queried : .query metric.className metric.queryFilter answer ∈ events)
    (extracts : extracted metric answer = .ok samples) (lawful : site.Lawful events)
    (works : ∀ event ∈ events, ¬ event.IsFailureAt (Store.relatedKey metric.name))
    (accepting : ∀ event ∈ events, ¬ event.IsGatewayFailure)
    (stored : site.recorded? metric.name = some previous) :
    ((site.afterAll events).published.get? id).isSome ↔
      id ∈ ids samples ∨ (site.published.get? id).isSome ∧ ¬ id ∈ previous := by
  obtain ⟨others, report, rfl, completes, -⟩ :=
    exists_complete_of_finishes_pass finishes queried extracts
  obtain ⟨pushed, ended, between, closing, same, withdrawn, rfl, quiet, -, -⟩ :=
    exists_of_finishes_complete completes lawful.2
      (fun event member => works event (List.mem_cons_of_mem _ member)) stored
  have inWithdrawal {event : Event} (member : event ∈ withdrawal ended) :
      event ∈ .query metric.className metric.queryFilter answer :: (publication pushed ++
        (between ++ (withdrawal ended ++ closing))) := by
    simp [member]
  constructor
  · intro live
    obtain ⟨sample, found⟩ := Option.isSome_iff_exists.mp live
    rcases Site.published_of_afterAll found with ⟨accepted, rfl⟩ | ⟨before, kept⟩
    · refine Or.inl (Text.Set.mem_ofList.mpr (List.mem_map_of_mem ?_))
      exact mem_samples_of_push completes ((List.mem_cons.mp accepted).resolve_left (by simp))
    · by_cases current : id ∈ ids samples
      · exact Or.inl current
      · refine Or.inr ⟨by rw [before]; rfl, fun recorded => ?_⟩
        rcases withdrawn_or_refused withdrawn (Text.Set.mem_diff.mpr ⟨recorded, current⟩) with
          done | refused
        · exact kept _ (inWithdrawal done) rfl
        · obtain ⟨error, called⟩ := mem_refusedIds.mp refused
          exact accepting _ (inWithdrawal
            (List.mem_append_left _ (List.mem_map_of_mem (f := Event.ofEnded) called))) trivial
  · rintro (current | ⟨before, unrecorded⟩)
    · obtain ⟨sample, inSamples, rfl⟩ := List.mem_map.mp (Text.Set.mem_ofList.mp current)
      have published := List.mem_cons_of_mem
        (.query metric.className metric.queryFilter answer) (push_mem_of_mem_samples completes
          (fun event member => accepting event (List.mem_cons_of_mem _ member)) inSamples)
      obtain ⟨other, live, -, -⟩ := Site.exists_published_of_pushed published
        (not_withdraws_of_pushed finishes published)
      rw [live]
      rfl
    · refine Site.isSome_published_afterAll before fun event member withdraws => ?_
      have leaves := Event.left?_eq_some_none.mpr withdraws
      simp only [List.mem_cons, List.mem_append] at member
      rcases member with rfl | published | inBetween | done | inClosing
      · exact withdraws
      · rcases cases_of_mem_publication same published with ⟨_, _, given, rfl⟩ | ⟨_, _, rfl⟩
        · cases given <;> exact withdraws
        · exact withdraws
      · rw [quiet event (List.mem_append_left _ inBetween)] at leaves
        cases leaves
      · rcases cases_of_mem_withdrawal withdrawn done with ⟨other, target, given, rfl⟩ | ⟨_, _, rfl⟩
        · cases given with
          | error error => exact withdraws
          | ok accepted =>
              obtain rfl : id = other := withdraws
              exact unrecorded (Text.Set.mem_diff.mp (Text.Set.mem_def.mpr target)).1
        · exact withdraws
      · rw [quiet event (List.mem_append_right _ inClosing)] at leaves
        cases leaves

end Sampling

namespace Cycle

variable {schedule : Schedule} {metric : Metric} {site : Site}

/-- What passes of a metric do leaves its identities readable. -/
theorem isSome_recorded?_of_does {events : List Event}
    (does : ∀ event ∈ events, Sampling.Does metric event)
    (readable : (site.recorded? metric.name).isSome) :
    ((site.afterAll events).recorded? metric.name).isSome :=
  Site.get?_contents_afterAll_induct (P := fun value? => (Store.idsIn? value?).isSome) readable
    fun event member _ writes => (does event member).readable writes

/-- Passes of a metric one after another, none of which is cut off. -/
structure PassesInTurn (schedule : Schedule) (metric : Metric) (site : Site)
    (passes : List (List Event)) : Prop where
  /-- Each of them is a pass. -/
  runs : ∀ events ∈ passes, ∃ ending, PassRuns schedule metric events ending ∧
    ¬ .deadline ∈ events
  /-- What the store says is what it holds. -/
  lawful : site.Lawful passes.flatten

/-- The gateway accepted a gauge under an identity. -/
def Published (events : List Event) (id : String) : Prop :=
  ∃ sample, .gateway (.push sample) (.ok ()) ∈ events ∧ sample.id = id

namespace PassesInTurn

variable {passes : List (List Event)}

/-- The stored identities of the metric can be read after each pass. -/
theorem readable (inTurn : PassesInTurn schedule metric site passes)
    (readable : (site.recorded? metric.name).isSome) :
    ((site.afterAll passes.flatten).recorded? metric.name).isSome := by
  apply isSome_recorded?_of_does _ readable
  intro event member
  obtain ⟨events, inPasses, inEvents⟩ := List.mem_flatten.mp member
  obtain ⟨ending, runs, -⟩ := inTurn.runs events inPasses
  exact runs.does event inEvents

end PassesInTurn

end Cycle

/-- After passes of a metric with whatever failures, and one more in which
nothing fails, the live gauges that were ever published are the current ones,
exactly if each of them that was live before the last pass was recorded or is
current. -/
theorem live_eq_current_iff {schedule : Schedule} {metric : Metric} {site : Site}
    {passes : List (List Event)} {last : List Event} {report : Sampling.Report}
    {answer : Except Inventory.Error (List Inventory.Object)} {samples : List Gauge.Sample}
    (inTurn : Cycle.PassesInTurn schedule metric site passes)
    (readable : (site.recorded? metric.name).isSome)
    (finishes : Program.Finishes Work.Answered (Sampling.pass schedule metric) last (.ok report))
    (queried : .query metric.className metric.queryFilter answer ∈ last)
    (extracts : Sampling.extracted metric answer = .ok samples)
    (lawful : (site.afterAll passes.flatten).Lawful last)
    (reliable : ∀ event ∈ last, ¬ event.IsStoreFailure)
    (accepting : ∀ event ∈ last, ¬ event.IsGatewayFailure) :
    (∀ id, ((site.afterAll (passes.flatten ++ last)).published.get? id).isSome ∧
        Cycle.Published (passes.flatten ++ last) id ↔ id ∈ Sampling.ids samples) ↔
      ∀ id, ((site.afterAll passes.flatten).published.get? id).isSome →
        Cycle.Published passes.flatten id →
          (site.afterAll passes.flatten).Records metric.name id ∨ id ∈ Sampling.ids samples := by
  obtain ⟨previous, stored⟩ := Option.isSome_iff_exists.mp (inTurn.readable readable)
  have live (id : String) :
      ((site.afterAll (passes.flatten ++ last)).published.get? id).isSome ↔
        id ∈ Sampling.ids samples ∨
          ((site.afterAll passes.flatten).published.get? id).isSome ∧ ¬ id ∈ previous := by
    rw [Site.afterAll_append]
    exact Sampling.live_iff_of_finishes_pass finishes queried extracts lawful
      (fun event member fails =>
        reliable event member (Event.isStoreFailure_of_isFailureAt fails)) accepting stored
  have records (id : String) :
      (site.afterAll passes.flatten).Records metric.name id ↔ id ∈ previous := by
    constructor
    · rintro ⟨ids, found, member⟩
      obtain rfl := Option.some.inj (stored.symm.trans found)
      exact member
    · intro member
      exact ⟨previous, stored, member⟩
  obtain ⟨others, done, rfl, completes, -⟩ :=
    Sampling.exists_complete_of_finishes_pass finishes queried extracts
  have published (id : String) : Cycle.Published (passes.flatten ++
      .query metric.className metric.queryFilter answer :: others) id ↔
        Cycle.Published passes.flatten id ∨ id ∈ Sampling.ids samples := by
    constructor
    · rintro ⟨sample, accepted, rfl⟩
      rcases List.mem_append.mp accepted with earlier | now
      · exact Or.inl ⟨sample, earlier, rfl⟩
      · refine Or.inr (Text.Set.mem_ofList.mpr (List.mem_map_of_mem ?_))
        exact Sampling.mem_samples_of_push completes ((List.mem_cons.mp now).resolve_left (by simp))
    · rintro (⟨sample, earlier, rfl⟩ | current)
      · exact ⟨sample, List.mem_append_left _ earlier, rfl⟩
      · obtain ⟨sample, member, rfl⟩ := List.mem_map.mp (Text.Set.mem_ofList.mp current)
        have accepted := Sampling.push_mem_of_mem_samples completes
          (fun event member => accepting event (List.mem_cons_of_mem _ member)) member
        exact ⟨sample, List.mem_append_right _ (List.mem_cons_of_mem _ accepted), rfl⟩
  simp only [live, records, published]
  grind

namespace Sampling.Example

/-- A pass after the object vanished, with what is stored then, the withdrawals
that follow, and what is written in the end. -/
def emptyPass (stored? : Option String) (ended : List Gateway.Ended) (written : List Event) :
    List Event :=
  .query "c" "" (.ok []) :: (publication [] ++
    .clock Timestamp.epoch ::
      .store (.set (Store.markerKey "m") Timestamp.epoch.decimal) (.ok ()) ::
      (.store (.get (Store.relatedKey "m")) (.ok stored?) :: (withdrawal ended ++ written) ++
        [.count (.samples .success) 1]))

theorem finishes_emptyPass {stored? : Option String} {previous : Text.Set}
    {ended : List Gateway.Ended} {written : List Event} {saved : Bool}
    (decodes : Store.idsIn? stored? = some previous)
    (same : (ended.map Prod.fst).Perm ((previous.diff (ids [])).toList.map .delete))
    (saves : Saves "m" previous ((ids []).insertAll (refusedIds ended)) written saved) :
    ∃ report, Program.Finishes Work.Answered (pass Schedule.standard metric)
      (emptyPass stored? ended written) (.ok report) := by
  have reconciles : Program.Finishes Work.Answered (reconcile Schedule.standard metric (ids []))
      (.store (.get (Store.relatedKey "m")) (.ok stored?) :: (withdrawal ended ++ written))
      ⟨(previous.diff (ids [])).toList.length - (refusedIds ended).length,
        (refusedIds ended).length, saved⟩ := by
    refine finishes_reconcile_iff.mpr ⟨.ok stored?, _, rfl, ?_⟩
    rw [Store.reading_eq_ok_iff.mpr ⟨stored?, rfl, decodes⟩]
    exact ⟨ended, same, written, saved, rfl, rfl, saves⟩
  have silent : (([] : List Gateway.Ended).map Prod.fst).Perm
      (([] : List Gauge.Sample).map .push) := .nil
  have completes := finishes_complete_iff.mpr
    ⟨[], Timestamp.epoch, .ok (), _, _, silent, reconciles, rfl, rfl⟩
  exact ⟨_, finishes_pass_iff.mpr ⟨.ok [], _, rfl, _, completes, rfl⟩⟩

theorem inTurn_firstPass (saved : Except Store.Error Unit) :
    Cycle.PassesInTurn Schedule.standard metric Site.empty [firstPass saved] where
  runs := by
    intro events member
    obtain rfl := List.mem_singleton.mp member
    obtain ⟨report, finishes⟩ := finishes_firstPass Schedule.standard saved
    refine ⟨_, .finished finishes, ?_⟩
    simp [firstPass, publication, withdrawal, Event.ofEnded]
  lawful := by
    rw [List.flatten_singleton]
    cases saved <;>
      exact ⟨trivial, trivial, trivial, trivial, trivial, rfl, rfl, trivial, trivial,
        by trivial, trivial, trivial⟩

/-- A pass that withdraws the gauge of the vanished object. -/
def cleanPass : List Event :=
  emptyPass (some (Store.idsText (ids [sample "o"]))) [(.delete (sample "o").id, .ok ())]
    [.store (.set (Store.relatedKey "m") (Store.idsText (ids []))) (.ok ())]

theorem finishes_cleanPass :
    ∃ report, Program.Finishes Work.Answered (pass Schedule.standard metric) cleanPass
      (.ok report) := by
  have obsolete (sample : Gauge.Sample) :
      ((ids [sample]).diff (ids [])).toList = [sample.id] := rfl
  refine finishes_emptyPass (Store.ofIdsText?_idsText (ids [sample "o"])) ?_
    (Or.inr ⟨fun same => ids_sample_ne_empty "o" same.symm, .ok (), rfl, rfl⟩)
  rw [obsolete (sample "o")]
  exact .refl _

end Sampling.Example

open Sampling.Example (metric sample firstPass emptyPass cleanPass finishes_emptyPass
  inTurn_firstPass finishes_cleanPass)

/-- A gauge that was published and recorded is withdrawn once its object
vanished. -/
theorem withdrawn_by_cleanPass :
    ((Site.empty.afterAll [firstPass (.ok ())].flatten).published.get? (sample "o").id).isSome ∧
      ¬ ((Site.empty.afterAll ([firstPass (.ok ())].flatten ++ cleanPass)).published.get?
        (sample "o").id).isSome := by
  have decodes : Store.idsIn? (some (Store.idsText (Sampling.ids [sample "o"]))) =
      some (Sampling.ids [sample "o"]) := Store.ofIdsText?_idsText _
  have apart : Store.relatedKey "m" ≠ Store.markerKey "m" :=
    (Store.markerKey_ne_relatedKey "m" "m").symm
  have live (other : Gauge.Sample) :
      ((Text.Map.empty.insert other.id other).get? other.id).isSome := by
    rw [Text.Map.get?_insert, if_pos rfl]
    rfl
  have lawful : (Site.empty.afterAll [firstPass (.ok ())].flatten).Lawful cleanPass := by
    simp [firstPass, cleanPass, emptyPass, Sampling.publication, Sampling.withdrawal,
      Event.ofEnded, Site.Admits, Site.after, Store.perform, Text.Map.get?_insert, apart]
  have recorded : ∀ id, ((Site.empty.afterAll [firstPass (.ok ())].flatten).published.get?
        id).isSome → Cycle.Published [firstPass (.ok ())].flatten id →
      (Site.empty.afterAll [firstPass (.ok ())].flatten).Records metric.name id ∨
        id ∈ Sampling.ids [] := by
    rintro id - ⟨other, pushed, rfl⟩
    obtain rfl : other = sample "o" := by
      simpa [firstPass, Sampling.publication, Sampling.withdrawal, Event.ofEnded] using pushed
    refine Or.inl ⟨Sampling.ids [sample "o"], ?_, Text.Set.mem_ofList.mpr List.mem_cons_self⟩
    simp [firstPass, Sampling.publication, Sampling.withdrawal, Event.ofEnded, Site.after,
      Store.perform, Site.recorded?, Text.Map.get?_insert, metric, decodes]
  obtain ⟨report, finishes⟩ := finishes_cleanPass
  have current := (live_eq_current_iff (inTurn_firstPass (.ok ())) rfl finishes List.mem_cons_self
    rfl lawful
    (by simp [cleanPass, emptyPass, Sampling.publication, Sampling.withdrawal, Event.ofEnded,
      Event.IsStoreFailure])
    (by simp [cleanPass, emptyPass, Sampling.publication, Sampling.withdrawal, Event.ofEnded,
      Event.IsGatewayFailure])).mpr recorded
  refine ⟨live (sample "o"), fun after => ?_⟩
  have published : Cycle.Published ([firstPass (.ok ())].flatten ++ cleanPass) (sample "o").id :=
    ⟨sample "o", by simp [firstPass, Sampling.publication, Event.ofEnded], rfl⟩
  exact Text.Set.not_mem_empty _ ((current (sample "o").id).mp ⟨after, published⟩)

/-- What was published while its identity was not stored stays live after the
object vanished. -/
theorem live_after_unsaved_firstPass :
    Cycle.PassesInTurn Schedule.standard metric Site.empty
        [firstPass (.error (.timeout "set" 2000))] ∧
      (∃ report, Program.Finishes Work.Answered (Sampling.pass Schedule.standard metric)
        (emptyPass none [] []) (.ok report)) ∧
      (Site.empty.afterAll [firstPass (.error (.timeout "set" 2000))].flatten).Lawful
        (emptyPass none [] []) ∧
      (∀ event ∈ emptyPass none [] [], ¬ event.IsStoreFailure ∧ ¬ event.IsGatewayFailure) ∧
      ¬ ∀ id, ((Site.empty.afterAll ([firstPass (.error (.timeout "set" 2000))].flatten ++
            emptyPass none [] [])).published.get? id).isSome ∧
          Cycle.Published ([firstPass (.error (.timeout "set" 2000))].flatten ++
            emptyPass none [] []) id ↔ id ∈ Sampling.ids [] := by
  refine ⟨inTurn_firstPass _, finishes_emptyPass rfl .nil (Or.inl ⟨rfl, rfl, rfl⟩), ?_, ?_, ?_⟩
  · exact ⟨trivial, trivial, trivial, trivial, rfl, rfl, trivial, trivial, trivial, trivial⟩
  · simp [emptyPass, Sampling.publication, Sampling.withdrawal, Event.IsStoreFailure,
      Event.IsGatewayFailure]
  · intro current
    have live (other : Gauge.Sample) :
        ((Text.Map.empty.insert other.id other).get? other.id).isSome := by
      rw [Text.Map.get?_insert, if_pos rfl]
      rfl
    have published : Cycle.Published ([firstPass (.error (.timeout "set" 2000))].flatten ++
        emptyPass none [] []) (sample "o").id :=
      ⟨sample "o", by simp [firstPass, Sampling.publication, Event.ofEnded], rfl⟩
    exact Text.Set.not_mem_empty _ ((current (sample "o").id).mp ⟨live (sample "o"), published⟩)

end InventoryGauges
