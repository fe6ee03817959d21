import InventoryGauges.Proofs.Gauges.Retention

/-!
# Gauges after an unsuccessful pass

A pass without samples, and one that is cut off, withdraws the recorded gauges
of its metric.  What it published itself and did not record yet stays live.
-/

namespace InventoryGauges
namespace Sampling

open Work (Answered)

variable {schedule : Schedule} {metric : Metric} {events : List Event} {site : Site} {id : String}

/-- Giving up withdraws what is recorded, if nothing fails. -/
theorem delete_mem_of_finishes_giveUp
    (finishes : Program.Finishes Answered (giveUp schedule metric) events ())
    (lawful : site.Lawful events) (reliable : ∀ event ∈ events, ¬ event.IsStoreFailure)
    (accepting : ∀ event ∈ events, ¬ event.IsGatewayFailure)
    (recorded : site.Records metric.name id) :
    .gateway (.delete id) (.ok ()) ∈ events := by
  obtain ⟨_, _, withdraws, records, rfl⟩ := finishes_giveUp_iff.mp finishes
  obtain ⟨answer, others, rfl, continues⟩ := finishes_withdrawPublished_iff.mp withdraws
  have reads := reliable _ (List.mem_append_left _ List.mem_cons_self)
  obtain ⟨ids, stored, member⟩ := recorded
  obtain ⟨text?, rfl, read⟩ := Site.exists_reading_of_recorded? lawful.1
    (fun fails => reads (Event.isStoreFailure_of_isFailureAt fails)) stored
  rw [read] at continues
  obtain ⟨ended, same, rfl⟩ := continues
  rcases withdrawn_or_refused same member with withdrawn | refused
  · exact List.mem_append_left _ (List.mem_cons_of_mem _ withdrawn)
  · obtain ⟨error, called⟩ := mem_refusedIds.mp refused
    have failed : .gateway (.delete id) (.error error) ∈ withdrawal ended :=
      List.mem_append_left _ (List.mem_map_of_mem (f := Event.ofEnded) called)
    exact absurd trivial
      (accepting _ (List.mem_append_left _ (List.mem_cons_of_mem _ failed)))

/-- Giving up withdraws only what is recorded. -/
theorem not_withdraws_of_finishes_giveUp
    (finishes : Program.Finishes Answered (giveUp schedule metric) events ())
    (lawful : site.Lawful events) (unrecorded : ¬ site.Records metric.name id) :
    ∀ event ∈ events, ¬ event.Withdraws id := by
  obtain ⟨_, _, withdraws, records, rfl⟩ := finishes_giveUp_iff.mp finishes
  obtain ⟨now, marked, rfl⟩ := finishes_recordFailure_iff.mp records
  obtain ⟨answer, others, rfl, continues⟩ := finishes_withdrawPublished_iff.mp withdraws
  intro event member withdrawn
  simp only [List.mem_append, List.mem_cons, List.not_mem_nil, or_false] at member
  rcases member with (rfl | later) | rfl | rfl
  · exact withdrawn
  · cases outcome : Store.reading (Store.relatedKey metric.name) Store.idsIn? answer with
    | error error =>
        rw [outcome] at continues
        exact absurd (continues ▸ later) List.not_mem_nil
    | ok ids =>
        rw [outcome] at continues
        obtain ⟨ended, same, rfl⟩ := continues
        obtain ⟨text?, rfl, read⟩ := Store.reading_eq_ok_iff.mp outcome
        rcases cases_of_mem_withdrawal same later with ⟨other, inIds, given, rfl⟩ | ⟨_, _, rfl⟩
        · cases given with
          | error error => exact withdrawn
          | ok accepted =>
              obtain rfl : id = other := withdrawn
              refine unrecorded ⟨ids, ?_, inIds⟩
              rw [Site.recorded?, ← read, lawful.1]
              rfl
        · exact withdrawn
  · exact withdrawn
  · exact withdrawn

theorem Tidies.eq_delete_of_withdraws {event : Event} (tidies : Tidies metric event)
    (withdraws : event.Withdraws id) : event = .gateway (.delete id) (.ok ()) := by
  refine event.eq_delete_of_withdraws ?_ withdraws
  rintro answer rfl
  cases tidies

/-- Reconciling does not withdraw current gauges. -/
theorem not_withdraws_of_finishes_reconcile {current : Text.Set} {reconciliation : Reconciliation}
    (finishes : Program.Finishes Answered (reconcile schedule metric current) events
      reconciliation) (inCurrent : id ∈ current) : ∀ event ∈ events, ¬ event.Withdraws id := by
  intro event member withdraws
  obtain rfl := (tidies_of_finishes_reconcile finishes member).eq_delete_of_withdraws withdraws
  obtain ⟨answer, others, rfl, continues⟩ := finishes_reconcile_iff.mp finishes
  have later := (List.mem_cons.mp member).resolve_left (by simp)
  generalize Store.reading (Store.relatedKey metric.name) Store.idsIn? answer = outcome at continues
  cases outcome with
  | error error => exact absurd (continues.1 ▸ later) List.not_mem_nil
  | ok previous =>
      obtain ⟨ended, same, written, saved, rfl, -, saves⟩ := continues
      rcases List.mem_append.mp later with inWithdrawal | last
      · rcases cases_of_mem_withdrawal same inWithdrawal with
          ⟨other, target, _, equal⟩ | ⟨_, _, equal⟩
        · obtain rfl := Gateway.Call.delete.inj (Event.gateway.inj equal).1
          exact (Text.Set.mem_diff.mp (Text.Set.mem_def.mpr target)).2 inCurrent
        · cases equal
      · rcases saves with ⟨-, rfl, -⟩ | ⟨-, answer, rfl, -⟩
        · exact absurd last List.not_mem_nil
        · cases List.mem_singleton.mp last

/-- A pass does not withdraw what it publishes. -/
theorem not_withdraws_of_pushed {result : Except Error Report} {sample : Gauge.Sample}
    {given : Gateway.Answer}
    (finishes : Program.Finishes Answered (pass schedule metric) events result)
    (pushed : .gateway (.push sample) given ∈ events) :
    ∀ event ∈ events, ¬ event.Withdraws sample.id := by
  obtain ⟨answer, others, rfl, continues⟩ := finishes_pass_iff.mp finishes
  have later := (List.mem_cons.mp pushed).resolve_left (by simp)
  cases extracts : extracted metric answer with
  | error error =>
      rw [extracts] at continues
      obtain ⟨cleaned, cleans, rfl, -⟩ := continues
      rcases List.mem_append.mp later with cleaning | last
      · cases tidies_of_finishes_giveUp cleans cleaning
      · cases List.mem_singleton.mp last
  | ok samples =>
      rw [extracts] at continues
      obtain ⟨report, completes, -⟩ := continues
      have current : sample.id ∈ ids samples :=
        Text.Set.mem_ofList.mpr (List.mem_map_of_mem (mem_samples_of_push completes later))
      obtain ⟨called, now, marked, reconciled, reconciliation, same, reconciles, rfl, -⟩ :=
        finishes_complete_iff.mp completes
      intro event member withdraws
      simp only [List.mem_append, List.mem_cons, List.not_mem_nil, or_false] at member
      rcases member with rfl | published | rfl | rfl | inReconciled | rfl
      · exact withdraws
      · rcases cases_of_mem_publication same published with ⟨_, _, given, rfl⟩ | ⟨_, _, rfl⟩
        · cases given <;> exact withdraws
        · exact withdraws
      · exact withdraws
      · cases marked <;> exact withdraws
      · exact not_withdraws_of_finishes_reconcile reconciles current event inReconciled withdraws
      · exact withdraws

end Sampling
namespace Cycle

/-- A pass that ended without samples, or that was cut off. -/
def Ending.IsUnsuccessful : Ending → Prop
  | .finished (.error _) => True
  | .timedOut => True
  | _ => False

namespace PassRuns

variable {schedule : Schedule} {metric : Metric} {events : List Event} {ending : Ending}
  {site : Site} {id : String}

/-- An unsuccessful pass ends with giving up.  Before, it withdraws nothing that
it published. -/
theorem exists_giveUp (runs : PassRuns schedule metric events ending)
    (unsuccessful : ending.IsUnsuccessful) :
    ∃ begun cleaned counted, events = begun ++ (cleaned ++ counted) ∧
      Program.Finishes Work.Answered (Sampling.giveUp schedule metric) cleaned () ∧
      (∀ event ∈ counted, ∃ counter amount, event = .count counter amount) ∧
      ∀ sample given, .gateway (.push sample) given ∈ begun →
        ∀ event ∈ begun, ¬ event.Withdraws sample.id := by
  cases runs with
  | @finished events result finishes =>
      cases result with
      | ok report => exact unsuccessful.elim
      | error error =>
          obtain ⟨answer, others, rfl, continues⟩ := Sampling.finishes_pass_iff.mp finishes
          cases extracts : Sampling.extracted metric answer with
          | error error =>
              rw [extracts] at continues
              obtain ⟨cleaned, cleans, rfl, -⟩ := continues
              refine ⟨[.query metric.className metric.queryFilter answer], cleaned, _, rfl,
                cleans, fun event member => ⟨_, _, List.mem_singleton.mp member⟩, ?_⟩
              intro sample given member
              cases List.mem_singleton.mp member
          | ok samples =>
              rw [extracts] at continues
              obtain ⟨report, -, equal⟩ := continues
              cases equal
  | broken stalls => exact unsuccessful.elim
  | @timedOut begun cleaned begins cleans =>
      refine ⟨begun ++ [.deadline], cleaned, [], by simp, cleans, by simp, ?_⟩
      intro sample given member event inBegun withdraws
      have pushed : .gateway (.push sample) given ∈ begun :=
        (List.mem_append.mp member).resolve_right (by simp)
      have early : event ∈ begun := by
        rcases List.mem_append.mp inBegun with early | last
        · exact early
        · rw [List.mem_singleton.mp last] at withdraws
          exact withdraws.elim
      rcases begins with ⟨rest, result, finishes⟩ | stalls
      · exact Sampling.not_withdraws_of_pushed finishes (List.mem_append_left rest pushed) event
          (List.mem_append_left rest early) withdraws
      · rw [Sampling.eq_unanswered_of_stalls stalls] at pushed
        cases List.mem_singleton.mp pushed

section CleanUp

variable {begun cleaned counted : List Event}
  (cleans : Program.Finishes Work.Answered (Sampling.giveUp schedule metric) cleaned ())
  (counts : ∀ event ∈ counted, ∃ counter amount, event = .count counter amount)
include cleans counts

/-- Giving up leaves what is recorded. -/
theorem records_append_giveUp :
    (site.afterAll (begun ++ (cleaned ++ counted))).Records metric.name id ↔
      (site.afterAll begun).Records metric.name id := by
  have untouched : ∀ event ∈ cleaned ++ counted,
      event.written? (Store.relatedKey metric.name) = none := by
    intro event member
    rcases List.mem_append.mp member with cleaning | counting
    · exact Sampling.written?_relatedKey_of_giveUp metric.name cleans event cleaning
    · obtain ⟨counter, amount, rfl⟩ := counts event counting
      rfl
  rw [Site.Records, Site.afterAll_append, Site.recorded?_afterAll untouched, Site.Records]

/-- Giving up publishes nothing. -/
theorem not_push_mem_append_giveUp (sample : Gauge.Sample) (given : Gateway.Answer) :
    ¬ .gateway (.push sample) given ∈ cleaned ++ counted := by
  intro member
  rcases List.mem_append.mp member with cleaning | counting
  · cases Sampling.tidies_of_finishes_giveUp cleans cleaning
  · obtain ⟨counter, amount, equal⟩ := counts _ counting
    cases equal

end CleanUp

/-- What is recorded after an unsuccessful pass was withdrawn in it after all
that it published, if nothing fails. -/
theorem exists_delete_of_recorded (runs : PassRuns schedule metric events ending)
    (unsuccessful : ending.IsUnsuccessful) (lawful : site.Lawful events)
    (reliable : ∀ event ∈ events, ¬ event.IsStoreFailure)
    (accepting : ∀ event ∈ events, ¬ event.IsGatewayFailure)
    (recorded : (site.afterAll events).Records metric.name id) :
    ∃ first last, events = first ++ .gateway (.delete id) (.ok ()) :: last ∧
      ∀ sample given, ¬ .gateway (.push sample) given ∈ last := by
  obtain ⟨begun, cleaned, counted, rfl, cleans, counts, -⟩ := runs.exists_giveUp unsuccessful
  have inEvents {event : Event} (member : event ∈ cleaned) :
      event ∈ begun ++ (cleaned ++ counted) :=
    List.mem_append_right begun (List.mem_append_left counted member)
  have silent := not_push_mem_append_giveUp cleans counts
  rw [records_append_giveUp cleans counts] at recorded
  have deleted := Sampling.delete_mem_of_finishes_giveUp cleans
    (Site.lawful_append.mp (Site.lawful_append.mp lawful).2).1
    (fun event member => reliable event (inEvents member))
    (fun event member => accepting event (inEvents member)) recorded
  obtain ⟨first, last, rfl⟩ := List.append_of_mem deleted
  refine ⟨begun ++ first, last ++ counted, by simp, ?_⟩
  intro sample given member
  apply silent sample given
  simpa using Or.inr (List.mem_append.mp member)

/-- What an unsuccessful pass published and left unrecorded was not withdrawn
in it. -/
theorem not_withdraws_of_unrecorded (runs : PassRuns schedule metric events ending)
    (unsuccessful : ending.IsUnsuccessful) (lawful : site.Lawful events) {sample : Gauge.Sample}
    {given : Gateway.Answer} (pushed : .gateway (.push sample) given ∈ events)
    (unrecorded : ¬ (site.afterAll events).Records metric.name sample.id) :
    ∀ event ∈ events, ¬ event.Withdraws sample.id := by
  obtain ⟨begun, cleaned, counted, rfl, cleans, counts, apart⟩ := runs.exists_giveUp unsuccessful
  rw [records_append_giveUp cleans counts] at unrecorded
  have early : .gateway (.push sample) given ∈ begun :=
    (List.mem_append.mp pushed).resolve_right
      (not_push_mem_append_giveUp cleans counts sample given)
  intro event member withdraws
  rcases List.mem_append.mp member with inBegun | late
  · exact apart sample given early event inBegun withdraws
  · rcases List.mem_append.mp late with cleaning | counting
    · exact Sampling.not_withdraws_of_finishes_giveUp cleans
        (Site.lawful_append.mp (Site.lawful_append.mp lawful).2).1 unrecorded event cleaning
        withdraws
    · obtain ⟨counter, amount, rfl⟩ := counts event counting
      exact withdraws

end PassRuns
end Cycle
namespace Site

/-- No gauge of a metric is live. -/
def Clear (site : Site) (name : String) : Prop :=
  ∀ id sample, site.published.get? id = some sample → sample.metric ≠ name

/-- All live gauges of a metric are recorded. -/
def Tracks (site : Site) (name : String) : Prop :=
  ∀ id sample, site.published.get? id = some sample → sample.metric = name →
    site.Records name id

end Site

namespace Cycle.SideBySide

variable {schedule : Schedule} {metrics : List Metric} {endings : List Ending}
  {moments earlier later : List Moment} {site : Site} {index : Nat} {metric : Metric}
  {ending : Ending}

section Unique

variable (aside : SideBySide schedule metrics endings moments)
  (unique : (metrics.map Metric.name).Nodup) (found : metrics[index]? = some metric)
include aside unique found

/-- The gauges of a metric are published by its own pass. -/
theorem actor_of_push {moment : Moment} (member : moment ∈ moments) {sample : Gauge.Sample}
    {given : Gateway.Answer} (pushed : moment.event = .gateway (.push sample) given)
    (own : sample.metric = metric.name) : moment.actor = .pass index := by
  obtain ⟨place, other, actor, there, does⟩ := aside.does member
  rw [pushed] at does
  have theirs : sample.metric = other.name := by
    cases does with
    | acts acts =>
        cases acts with
        | push _ theirs _ => exact theirs
        | tidies tidies => cases tidies
  rw [actor, eq_of_name_eq unique there found (theirs.symm.trans own)]

variable (ended : endings[index]? = some ending) (unsuccessful : ending.IsUnsuccessful)
  (lawful : site.Lawful (moments.map Moment.event)) (split : moments = earlier ++ later)
  (concluded : Moment.eventsOf (.pass index) later = [])
include ended unsuccessful lawful split concluded

/-- Once an unsuccessful pass is over, the live gauges of its metric are not
recorded, if nothing fails. -/
theorem not_records_of_live (reliable : ∀ moment ∈ moments, ¬ moment.event.IsStoreFailure)
    (accepting : ∀ moment ∈ moments, ¬ moment.event.IsGatewayFailure) {id : String}
    {sample : Gauge.Sample}
    (live : (site.afterAll (earlier.map Moment.event)).published.get? id = some sample)
    (own : sample.metric = metric.name) :
    ¬ (site.afterAll (earlier.map Moment.event)).Records metric.name id := by
  intro recorded
  obtain ⟨alone, agree⟩ := aside.alone unique found split lawful
  have runs := aside.passes index metric ending found ended
  have inMoments {event : Event} (member : event ∈ Moment.eventsOf (.pass index) earlier) :
      ⟨.pass index, event⟩ ∈ moments :=
    split ▸ List.mem_append_left later (Moment.mem_eventsOf.mp member)
  rw [split, Moment.eventsOf_append, concluded, List.append_nil] at runs
  have recordedAlone : (site.afterAll (Moment.eventsOf (.pass index) earlier)).Records
      metric.name id := by
    rw [Site.Records, Site.recorded?, agree _ (Or.inr rfl)]
    exact recorded
  obtain ⟨first, last, shape, silent⟩ := runs.exists_delete_of_recorded unsuccessful alone
    (fun event member => reliable _ (inMoments member))
    (fun event member => accepting _ (inMoments member)) recordedAlone
  obtain ⟨before, behind, rfl, -, rest⟩ := Moment.exists_split_of_eventsOf shape
  rw [List.map_append, List.map_cons, Site.afterAll_append, Site.afterAll_cons] at live
  rcases Site.published_of_afterAll live with ⟨accepted, -⟩ | ⟨present, -⟩
  · obtain ⟨moment, member, pushed⟩ := List.mem_map.mp accepted
    have actor := aside.actor_of_push unique found (split ▸ by simp [member]) pushed own
    refine silent sample (.ok ()) ?_
    rw [← rest, Moment.mem_eventsOf, ← actor, ← pushed]
    exact member
  · rw [Site.get?_published_after, Event.left?, if_pos rfl] at present
    cases present

/-- An unsuccessful pass leaves no gauge of its metric live, if all that it
published itself is recorded by then. -/
theorem clear_of_recorded (reliable : ∀ moment ∈ moments, ¬ moment.event.IsStoreFailure)
    (accepting : ∀ moment ∈ moments, ¬ moment.event.IsGatewayFailure)
    (tracked : site.Tracks metric.name)
    (recorded : ∀ sample,
      .gateway (.push sample) (.ok ()) ∈ Moment.eventsOf (.pass index) earlier →
        (site.afterAll (earlier.map Moment.event)).Records metric.name sample.id) :
    (site.afterAll (earlier.map Moment.event)).Clear metric.name := by
  intro id sample live own
  refine aside.not_records_of_live unique found ended unsuccessful lawful split concluded reliable
    accepting live own ?_
  rcases Site.published_of_afterAll live with ⟨accepted, rfl⟩ | ⟨before, kept⟩
  · obtain ⟨moment, member, pushed⟩ := List.mem_map.mp accepted
    have actor := aside.actor_of_push unique found (split ▸ List.mem_append_left later member)
      pushed own
    apply recorded
    rw [Moment.mem_eventsOf, ← actor, ← pushed]
    exact member
  · have guarded : Guarded schedule metric.name site moments :=
      .of_sideBySide aside unique lawful
    exact guarded.records split (tracked id sample before own) kept

/-- What an unsuccessful pass published and left unrecorded stays live, if no
other pass concerns it. -/
theorem recorded_of_clear
    (apart : ∀ sample, .gateway (.push sample) (.ok ()) ∈ Moment.eventsOf (.pass index) earlier →
      ∀ moment ∈ earlier, moment.actor ≠ .pass index → moment.event.left? sample.id = none)
    (clear : (site.afterAll (earlier.map Moment.event)).Clear metric.name) :
    ∀ sample, .gateway (.push sample) (.ok ()) ∈ Moment.eventsOf (.pass index) earlier →
      (site.afterAll (earlier.map Moment.event)).Records metric.name sample.id := by
  intro sample pushed
  refine Classical.byContradiction fun unrecorded => ?_
  obtain ⟨alone, agree⟩ := aside.alone unique found split lawful
  have runs := aside.passes index metric ending found ended
  rw [split, Moment.eventsOf_append, concluded, List.append_nil] at runs
  have unrecordedAlone : ¬ (site.afterAll (Moment.eventsOf (.pass index) earlier)).Records
      metric.name sample.id := by
    rw [Site.Records, Site.recorded?, agree _ (Or.inr rfl)]
    exact unrecorded
  have kept := runs.not_withdraws_of_unrecorded unsuccessful alone pushed unrecordedAlone
  -- Whoever leaves something under this identity is the pass itself.
  have whose {moment : Moment} (member : moment ∈ earlier)
      (leaves : moment.event.left? sample.id ≠ none) : moment.actor = .pass index :=
    Classical.byContradiction fun other => leaves (apart sample pushed moment member other)
  have untouched : ∀ event ∈ earlier.map Moment.event, ¬ event.Withdraws sample.id := by
    intro event member withdraws
    obtain ⟨moment, inEarlier, rfl⟩ := List.mem_map.mp member
    have leaves : moment.event.left? sample.id ≠ none := by
      rw [Event.left?_eq_some_none.mpr withdraws]
      exact Option.some_ne_none _
    refine kept moment.event ?_ withdraws
    rw [Moment.mem_eventsOf, ← whose inEarlier leaves]
    exact inEarlier
  have inEvents : .gateway (.push sample) (.ok ()) ∈ earlier.map Moment.event :=
    List.mem_map.mpr ⟨_, Moment.mem_eventsOf.mp pushed, rfl⟩
  obtain ⟨other, live, same, accepted⟩ := Site.exists_published_of_pushed inEvents untouched
  obtain ⟨moment, inEarlier, event⟩ := List.mem_map.mp accepted
  have leaves : moment.event.left? sample.id ≠ none := by
    rw [event, Event.left?, if_pos same.symm]
    exact Option.some_ne_none _
  have actor := whose inEarlier leaves
  have own : .gateway (.push other) (.ok ()) ∈ Moment.eventsOf (.pass index) earlier := by
    rw [Moment.mem_eventsOf, ← actor, ← event]
    exact inEarlier
  cases runs.does _ own with
  | acts acts =>
      cases acts with
      | push _ theirs _ => exact clear sample.id other live theirs
      | tidies tidies => cases tidies

end Unique

end Cycle.SideBySide

/-- Up to any moment, what happened while passes ran side by side. -/
theorem Cycle.exists_passed_of_sampleAll {schedule : Schedule} {due : List Metric}
    {endings : List Cycle.Ending} {earlier later : List Moment} (site : Site) {index : Nat}
    (finishes : Program.Finishes (Cycle.Answered schedule) (Cycle.sampleAll due)
      (earlier ++ later) endings)
    (concluded : Moment.eventsOf (.pass index) later = []) :
    ∃ first rest counted, earlier ++ later = (first ++ rest) ++ counted ∧
      Cycle.SideBySide schedule due endings (first ++ rest) ∧
      Moment.eventsOf (.pass index) rest = [] ∧ first ⊆ earlier ∧
      Moment.eventsOf (.pass index) earlier = Moment.eventsOf (.pass index) first ∧
      site.afterAll (earlier.map Moment.event) = site.afterAll (first.map Moment.event) := by
  obtain ⟨passed, counted, aside, counts, whole⟩ := Cycle.finishes_sampleAll_iff.mp finishes
  rcases List.append_eq_append_iff.mp whole with ⟨rest, rfl, rfl⟩ | ⟨middle, rfl, shape⟩
  · rw [Moment.eventsOf_append] at concluded
    exact ⟨earlier, rest, Moment.ofMain counted, whole, aside,
      (List.append_eq_nil_iff.mp concluded).1, List.Subset.refl earlier, rfl, rfl⟩
  · have counting : ∀ moment ∈ middle, moment.actor = .main ∧ moment.event.IsQuiet := by
      intro moment member
      have inCounted : moment ∈ Moment.ofMain counted := shape ▸ List.mem_append_left later member
      obtain ⟨event, found, rfl⟩ := List.mem_map.mp inCounted
      obtain ⟨counter, amount, rfl⟩ := Cycle.exists_count_of_finishes_countLost counts event found
      exact ⟨rfl, fun site => rfl⟩
    have silent : Moment.eventsOf (.pass index) middle = [] := by
      apply List.eq_nil_iff_forall_not_mem.mpr
      intro event member
      cases (counting _ (Moment.mem_eventsOf.mp member)).1
    have quiet : ∀ event ∈ middle.map Moment.event, event.IsQuiet := by
      intro event member
      obtain ⟨moment, inMiddle, rfl⟩ := List.mem_map.mp member
      exact (counting moment inMiddle).2
    refine ⟨passed, [], Moment.ofMain counted, by simpa using whole, by simpa using aside, rfl,
      List.subset_append_left passed middle, ?_, ?_⟩
    · rw [Moment.eventsOf_append, silent, List.append_nil]
    · rw [List.map_append, Site.afterAll_append, Site.afterAll_of_isQuiet quiet]

/-- When nothing of the store and the gateway fails, and the live gauges of a
metric are recorded, then its pass that fails or is cut off leaves none of them
live once it is over, provided that the gauges it accepted itself are recorded
by then.  If nobody else concerns these gauges, nothing less is enough. -/
theorem clear_iff_recorded {schedule : Schedule} {due : List Metric}
    {endings : List Cycle.Ending} {moments earlier later : List Moment} {site : Site}
    {index : Nat} {metric : Metric} {ending : Cycle.Ending}
    (finishes : Program.Finishes (Cycle.Answered schedule) (Cycle.sampleAll due) moments endings)
    (unique : (due.map Metric.name).Nodup)
    (lawful : site.Lawful (moments.map Moment.event))
    (reliable : ∀ moment ∈ moments, ¬ moment.event.IsStoreFailure)
    (accepting : ∀ moment ∈ moments, ¬ moment.event.IsGatewayFailure)
    (found : due[index]? = some metric) (ended : endings[index]? = some ending)
    (unsuccessful : ending.IsUnsuccessful) (split : moments = earlier ++ later)
    (concluded : Moment.eventsOf (.pass index) later = []) (tracked : site.Tracks metric.name) :
    ((∀ sample, .gateway (.push sample) (.ok ()) ∈ Moment.eventsOf (.pass index) earlier →
        (site.afterAll (earlier.map Moment.event)).Records metric.name sample.id) →
      (site.afterAll (earlier.map Moment.event)).Clear metric.name) ∧
    ((∀ sample, .gateway (.push sample) (.ok ()) ∈ Moment.eventsOf (.pass index) earlier →
        ∀ moment ∈ earlier, moment.actor ≠ .pass index → moment.event.left? sample.id = none) →
      (site.afterAll (earlier.map Moment.event)).Clear metric.name →
        ∀ sample, .gateway (.push sample) (.ok ()) ∈ Moment.eventsOf (.pass index) earlier →
          (site.afterAll (earlier.map Moment.event)).Records metric.name sample.id) := by
  subst split
  obtain ⟨first, rest, counted, whole, aside, finished, included, same, reached⟩ :=
    Cycle.exists_passed_of_sampleAll site finishes concluded
  have inMoments {moment : Moment} (member : moment ∈ first ++ rest) : moment ∈ earlier ++ later :=
    whole ▸ List.mem_append_left counted member
  have lawfulFirst : site.Lawful ((first ++ rest).map Moment.event) := by
    rw [whole, List.map_append] at lawful
    exact (Site.lawful_append.mp lawful).1
  rw [same, reached]
  constructor
  · exact aside.clear_of_recorded unique found ended unsuccessful lawfulFirst rfl finished
      (fun moment member => reliable moment (inMoments member))
      (fun moment member => accepting moment (inMoments member)) tracked
  · intro apart
    exact aside.recorded_of_clear unique found ended unsuccessful lawfulFirst rfl finished
      fun sample pushed moment member => apart sample pushed moment (included member)

namespace Sampling.Example

/-- The first pass is cut off after some of its events, and then cleaned up by
what is stored. -/
def cutOff (count : Nat) (stored? : Option String) (ended : List Gateway.Ended) : List Event :=
  (firstPass (.ok ())).take count ++ .deadline ::
    (.store (.get (Store.relatedKey "m")) (.ok stored?) :: withdrawal ended ++
      [.clock Timestamp.epoch, .store (.set (Store.markerKey "m") (Schedule.failureMarker
        Timestamp.epoch 1000 Schedule.standard.failureBackoff).decimal) (.ok ())])

/-- That pass, as the only one of its cycle. -/
def cutOffAlone (count : Nat) (stored? : Option String) (ended : List Gateway.Ended) :
    List Moment :=
  (cutOff count stored? ended).map (Moment.mk (.pass 0)) ++
    Moment.ofMain [.count (.samples .timeout) 1]

theorem finishes_cutOffAlone (count : Nat) {stored? : Option String} {ids : Text.Set}
    {ended : List Gateway.Ended} (decodes : Store.idsIn? stored? = some ids)
    (same : (ended.map Prod.fst).Perm (ids.toList.map .delete)) :
    Program.Finishes (Cycle.Answered Schedule.standard) (Cycle.sampleAll [metric])
      (cutOffAlone count stored? ended) [.timedOut] := by
  obtain ⟨report, finishes⟩ := finishes_firstPass Schedule.standard (.ok ())
  have begins : Work.Begins (pass Schedule.standard metric) ((firstPass (.ok ())).take count) :=
    ⟨(firstPass (.ok ())).drop count, .ok report, by rwa [List.take_append_drop]⟩
  have withdraws : Program.Finishes Work.Answered (withdrawPublished Schedule.standard metric)
      (.store (.get (Store.relatedKey "m")) (.ok stored?) :: withdrawal ended) () := by
    refine finishes_withdrawPublished_iff.mpr ⟨.ok stored?, _, rfl, ?_⟩
    rw [Store.reading_eq_ok_iff.mpr ⟨stored?, rfl, decodes⟩]
    exact ⟨ended, same, rfl⟩
  have cleans := finishes_giveUp_iff.mpr
    ⟨_, _, withdraws, finishes_recordFailure_iff.mpr ⟨Timestamp.epoch, .ok (), rfl⟩, rfl⟩
  have counts : Program.Finishes Work.Answered (Cycle.countLost [.timedOut])
      [.count (.samples .timeout) 1] () :=
    Program.finishes_bind_iff.mpr
      ⟨_, (), [], Program.finishes_request_iff.mpr rfl, .done (), rfl⟩
  exact Cycle.finishes_sampleAll_iff.mpr
    ⟨_, _, .single (.timedOut (Or.inl begins) cleans), counts, rfl⟩

theorem works_cutOffAlone {count : Nat} {stored? : Option String} {ended : List Gateway.Ended}
    (accepting : ∀ call ∈ ended, call.2 = .ok ()) :
    ∀ moment ∈ cutOffAlone count stored? ended,
      ¬ moment.event.IsStoreFailure ∧ ¬ moment.event.IsGatewayFailure := by
  have firstWorks : ∀ event ∈ firstPass (.ok ()),
      ¬ event.IsStoreFailure ∧ ¬ event.IsGatewayFailure := by
    simp [firstPass, publication, withdrawal, Event.ofEnded, Event.IsStoreFailure,
      Event.IsGatewayFailure]
  have withdrawalWorks : ∀ event ∈ withdrawal ended,
      ¬ event.IsStoreFailure ∧ ¬ event.IsGatewayFailure := by
    intro event member
    rcases List.mem_append.mp member with called | counted
    · obtain ⟨⟨call, answer⟩, found, rfl⟩ := List.mem_map.mp called
      obtain rfl := accepting _ found
      exact ⟨id, id⟩
    · simp only [List.mem_cons, List.not_mem_nil, or_false] at counted
      rcases counted with rfl | rfl <;> exact ⟨id, id⟩
  intro moment member
  simp only [cutOffAlone, cutOff, Moment.ofMain, List.mem_append, List.mem_map, List.mem_cons,
    List.not_mem_nil, or_false] at member
  rcases member with ⟨event, early | rfl | (rfl | withdrawn) | rfl | rfl, rfl⟩ | ⟨event, rfl, rfl⟩
  · exact firstWorks event (List.mem_of_mem_take early)
  · exact ⟨id, id⟩
  · exact ⟨id, id⟩
  · exact withdrawalWorks event withdrawn
  · exact ⟨id, id⟩
  · exact ⟨id, id⟩
  · exact ⟨id, id⟩

end Sampling.Example

open Sampling.Example (metric sample cutOffAlone finishes_cutOffAlone works_cutOffAlone)

/-- A pass that is cut off after it recorded its gauge leaves nothing live. -/
theorem clear_of_late_cutOff :
    (Site.empty.afterAll ((cutOffAlone 10 (some (Store.idsText (Sampling.ids [sample "o"])))
      [(.delete (sample "o").id, .ok ())]).map Moment.event)).Clear "m" := by
  have decodes : Store.idsIn? (some (Store.idsText (Sampling.ids [sample "o"]))) =
      some (Sampling.ids [sample "o"]) := Store.ofIdsText?_idsText _
  have apart : Store.relatedKey "m" ≠ Store.markerKey "m" :=
    (Store.markerKey_ne_relatedKey "m" "m").symm
  have found : [metric][0]? = some metric := rfl
  have ended : [Cycle.Ending.timedOut][0]? = some .timedOut := rfl
  refine (clear_iff_recorded (finishes_cutOffAlone 10 decodes (.refl _)) (by simp) ?_
    (fun moment member => (works_cutOffAlone (by simp) moment member).1)
    (fun moment member => (works_cutOffAlone (by simp) moment member).2) found ended trivial
    (List.append_nil _).symm rfl ?_).1 ?_
  · simp [cutOffAlone, Sampling.Example.cutOff, Sampling.Example.firstPass, Sampling.publication,
      Sampling.withdrawal, Event.ofEnded, Site.Admits, Site.after, Store.perform,
      Text.Map.get?_insert, Site.empty, apart]
  · intro id sample live
    cases live
  · intro pushed member
    refine ⟨Sampling.ids [sample "o"], ?_, ?_⟩
    · simp [cutOffAlone, Sampling.Example.cutOff, Sampling.Example.firstPass, Sampling.publication,
        Sampling.withdrawal, Event.ofEnded, Site.after, Store.perform, Site.recorded?,
        Text.Map.get?_insert, Site.empty, apart, metric, decodes]
    · simp [cutOffAlone, Sampling.Example.cutOff, Sampling.Example.firstPass, Sampling.publication,
        Sampling.withdrawal, Event.ofEnded, Moment.ofMain, Moment.mem_eventsOf] at member
      subst member
      exact Text.Set.mem_ofList.mpr List.mem_cons_self

/-- A pass that is cut off before it recorded its gauge leaves it live. -/
theorem not_clear_of_early_cutOff :
    Program.Finishes (Cycle.Answered Schedule.standard) (Cycle.sampleAll [metric])
        (cutOffAlone 2 none []) [.timedOut] ∧
      Site.empty.Lawful ((cutOffAlone 2 none []).map Moment.event) ∧
      (∀ moment ∈ cutOffAlone 2 none [],
        ¬ moment.event.IsStoreFailure ∧ ¬ moment.event.IsGatewayFailure) ∧
      Site.empty.Tracks metric.name ∧
      ¬ (Site.empty.afterAll ((cutOffAlone 2 none []).map Moment.event)).Clear metric.name := by
  refine ⟨finishes_cutOffAlone 2 rfl .nil, ?_, works_cutOffAlone nofun, ?_, ?_⟩
  · exact ⟨trivial, trivial, trivial, rfl, trivial, trivial, trivial, rfl, trivial, trivial⟩
  · intro id sample live
    cases live
  · intro clear
    have live (other : Gauge.Sample) :
        (Text.Map.empty.insert other.id other).get? other.id = some other := by
      rw [Text.Map.get?_insert, if_pos rfl]
    exact clear (sample "o").id (sample "o") (live (sample "o")) rfl

end InventoryGauges
