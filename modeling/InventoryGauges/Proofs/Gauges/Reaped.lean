import InventoryGauges.Proofs.Gauges.Removed
import InventoryGauges.Proofs.Sampling.Failed

/-!
# Reaping a name

To reap a name either removes all that is kept about it, after each gauge that
was recorded is withdrawn, or it keeps what is needed to try again.  So a metric
that is not defined any more is gone after the first cycle in which nothing is
refused, however many cycles before were refused something.
-/

namespace InventoryGauges
namespace Cycle

open Sampling (refusedIds withdrawal withdrawn)

/-- What reaping a name comes to, from the site where it begins. -/
structure Reaps (name : String) (site : Site) (events : List Event) (removed : Bool) : Prop where
  /-- The result tells whether both keys of the name were removed. -/
  result : removed = true ↔
    .store (.delete [Store.markerKey name, Store.relatedKey name]) (.ok ()) ∈ events
  /-- Then nothing is left of them. -/
  gone : removed = true → ∀ key, Store.IsKeyOf name key →
    (site.afterAll events).contents.get? key = none
  /-- To remove them is the last step, once all recorded gauges are withdrawn. -/
  withdrawn : ∀ answer,
    .store (.delete [Store.markerKey name, Store.relatedKey name]) answer ∈ events →
      ∃ earlier,
        events = earlier ++
          [.store (.delete [Store.markerKey name, Store.relatedKey name]) answer] ∧
        ∀ id, site.Records name id → .gateway (.delete id) (.ok ()) ∈ earlier
  /-- Otherwise the marker stays. -/
  marker : removed = false → (site.afterAll events).contents.get? (Store.markerKey name) =
    site.contents.get? (Store.markerKey name)
  /-- A recorded gauge stays recorded, or it is withdrawn. -/
  keeps : ∀ id, site.Records name id →
    .gateway (.delete id) (.ok ()) ∈ events ∨ (site.afterAll events).Records name id
  /-- If the store works, what stays recorded is what was refused. -/
  refused : (∀ event ∈ events, ¬ event.IsStoreFailure) →
    ∃ left, (site.afterAll events).recorded? name = some left ∧
      ∀ id, id ∈ left ↔ ∃ error, .gateway (.delete id) (.error error) ∈ events
  /-- If the store works and nothing is refused, both keys are removed. -/
  accepted : (∀ event ∈ events, ¬ event.IsStoreFailure) →
    (∀ id error, ¬ .gateway (.delete id) (.error error) ∈ events) → removed = true
  /-- The gateway is only called to withdraw recorded gauges. -/
  recorded : ∀ call answer, .gateway call answer ∈ events →
    ∃ id, call = .delete id ∧ site.Records name id
  /-- No other keys are written, nor those of other names or of the definitions. -/
  foreign : ∀ event ∈ events, ∀ key, ¬ Store.IsKeyOf name key → event.written? key = none

variable {schedule : Schedule} {name : String} {site : Site} {events : List Event}
  {removed : Bool}

/-- If nothing can be read, nothing changes. -/
theorem reaps_of_unread (name : String) (site : Site) (error : Store.Error) :
    Reaps name site [.store (.get (Store.relatedKey name)) (.error error)] false where
  result := by simp
  gone := nofun
  withdrawn := by simp
  marker := fun _ => rfl
  keeps := fun id recorded => Or.inr recorded
  refused := fun works => absurd trivial (works _ List.mem_cons_self)
  accepted := fun works => absurd trivial (works _ List.mem_cons_self)
  recorded := by simp
  foreign := by
    intro event member key _
    obtain rfl := List.mem_singleton.mp member
    rfl

section Removal

variable {ended : List Gateway.Ended} {given : Except Store.Error Unit}
  {answer : Except Store.Error (Option String)}

theorem delete_mem_removal_iff {answered : Except Store.Error Unit} :
    .store (.delete [Store.markerKey name, Store.relatedKey name]) answered ∈
        .store (.get (Store.relatedKey name)) answer :: withdrawal ended ++
          [removalWrite name (refusedIds ended) given] ↔
      refusedIds ended = [] ∧ answered = given := by
  have outside : ¬ .store (.delete [Store.markerKey name, Store.relatedKey name]) answered ∈
      withdrawal ended := by
    intro member
    rcases Sampling.called_or_counted member with ⟨_, _, equal⟩ | ⟨_, _, equal⟩ <;> cases equal
  by_cases none : refusedIds ended = []
  · simp [outside, removalWrite, none]
  · simp [outside, removalWrite, none]

theorem reaps_of_withdrawn
    (same : (ended.map Prod.fst).Perm
      (((site.recorded? name).getD Text.Set.empty).toList.map .delete)) :
    Reaps name site
      (.store (.get (Store.relatedKey name)) (.ok (site.contents.get? (Store.relatedKey name))) ::
        withdrawal ended ++ [removalWrite name (refusedIds ended) given])
      (decide (refusedIds ended = []) && given.isOk) where
  result := by
    rw [delete_mem_removal_iff]
    cases given <;> simp [Except.isOk, Except.toBool]
  gone := by
    intro removed key own
    rw [Bool.and_eq_true, decide_eq_true_eq] at removed
    cases given with
    | error error => cases removed.2
    | ok done =>
        have deleted : (removalWrite name [] (.ok done)).written? key = some none :=
          if_pos (by simpa [Store.IsKeyOf] using own)
        rw [removed.1, Site.afterAll_append, Site.afterAll_cons, Site.afterAll_nil,
          Site.get?_contents_after, deleted]
        rfl
  withdrawn := by
    intro answered member
    obtain ⟨none, rfl⟩ := delete_mem_removal_iff.mp member
    refine ⟨_, by rw [none, removalWrite, if_pos rfl], fun id recorded => ?_⟩
    rcases Sampling.withdrawn_or_refused same (Site.records_iff_mem.mp recorded) with accepted | refused
    · exact List.mem_cons_of_mem _ accepted
    · rw [none] at refused
      cases refused
  marker := by
    intro kept
    refine Site.get?_contents_afterAll fun event member => ?_
    rcases List.mem_append.mp member with opening | last
    · exact Sampling.written?_of_mem_read_withdrawal _ event opening
    · obtain rfl := List.mem_singleton.mp last
      cases given with
      | error error => exact written?_removalWrite_error _
      | ok done =>
          refine written?_removalWrite_markerKey fun none => ?_
          simp [none, Except.isOk, Except.toBool] at kept
  keeps := by
    intro id recorded
    rcases Sampling.withdrawn_or_refused same (Site.records_iff_mem.mp recorded) with accepted | refused
    · exact Or.inl (gateway_mem_removal_iff.mpr accepted)
    · refine Or.inr ?_
      cases given with
      | error error =>
          rw [Site.Records, Site.recorded?_afterAll]
          · exact recorded
          · intro event member
            rcases List.mem_append.mp member with opening | last
            · exact Sampling.written?_of_mem_read_withdrawal _ event opening
            · obtain rfl := List.mem_singleton.mp last
              exact written?_removalWrite_error _
      | ok done => exact ⟨_, recorded?_after_removal, Text.Set.mem_ofList.mpr refused⟩
  refused := by
    intro works
    obtain rfl := eq_ok_of_removalWrite (works _ (List.mem_append_right _ List.mem_cons_self))
    refine ⟨_, recorded?_after_removal, fun id => ?_⟩
    simp only [Text.Set.mem_ofList, Sampling.mem_refusedIds, gateway_mem_removal_iff,
      Sampling.delete_mem_withdrawal_iff]
  accepted := by
    intro works accepting
    obtain rfl := eq_ok_of_removalWrite (works _ (List.mem_append_right _ List.mem_cons_self))
    have none : refusedIds ended = [] := by
      refine List.eq_nil_iff_forall_not_mem.mpr fun id refused => ?_
      obtain ⟨error, found⟩ := Sampling.mem_refusedIds.mp refused
      exact accepting id error
        (gateway_mem_removal_iff.mpr (Sampling.delete_mem_withdrawal_iff.mpr found))
    simp [none, Except.isOk, Except.toBool]
  recorded := by
    intro call answered member
    rcases Sampling.cases_of_mem_withdrawal same (gateway_mem_removal_iff.mp member) with
      ⟨id, inIds, _, equal⟩ | ⟨_, _, equal⟩
    · cases equal
      exact ⟨id, rfl, Site.records_iff_mem.mpr inIds⟩
    · cases equal
  foreign := by
    intro event member key outside
    rcases List.mem_append.mp member with opening | last
    · exact Sampling.written?_of_mem_read_withdrawal _ event opening
    · obtain rfl := List.mem_singleton.mp last
      exact Event.written?_of_within (within_removalWrite _ given) outside

end Removal

/-- Reaping a name removes or keeps, whatever fails and is refused. -/
theorem reaps_of_finishes
    (finishes : Program.Finishes Work.Answered (reapMetric schedule name) events removed)
    (lawful : site.Lawful events) (intact : ∀ event ∈ events, ¬ event.IsCorruption) :
    Reaps name site events removed := by
  rcases cases_of_lawful_reapMetric finishes lawful intact with
    ⟨error, rfl, rfl⟩ | ⟨ended, given, same, rfl, rfl⟩
  · exact reaps_of_unread name site error
  · exact reaps_of_withdrawn same

/-- In some events the store answers reads and writes like this, and the gateway
withdrawals. -/
structure AnswersAs (read : Except Store.Error (Option String)) (refuse : String → Gateway.Answer)
    (written : Except Store.Error Unit) (events : List Event) : Prop where
  reads : ∀ key given, .store (.get key) given ∈ events → given = read
  withdrawals : ∀ id given, .gateway (.delete id) given ∈ events → given = refuse id
  deletes : ∀ keys given, .store (.delete keys) given ∈ events → given = written
  sets : ∀ key value given, .store (.set key value) given ∈ events → given = written

section Answers

variable {read : Except Store.Error (Option String)} {refuse : String → Gateway.Answer}
  {written : Except Store.Error Unit}

theorem AnswersAs.nil : AnswersAs read refuse written [] :=
  ⟨by simp, by simp, by simp, by simp⟩

theorem AnswersAs.get (answers : AnswersAs read refuse written events) (key : String) :
    AnswersAs read refuse written (.store (.get key) read :: events) where
  reads := by
    intro other given member
    rcases List.mem_cons.mp member with equal | later
    · cases equal
      rfl
    · exact answers.reads other given later
  withdrawals := by simpa using answers.withdrawals
  deletes := by simpa using answers.deletes
  sets := by simpa using answers.sets

theorem exists_finishes_remove (schedule : Schedule) (name : String) (ids : List String)
    (read : Except Store.Error (Option String)) (refuse : String → Gateway.Answer)
    (written : Except Store.Error Unit) :
    ∃ events removed,
      Program.Finishes Work.Answered (reapMetric.remove schedule name ids) events removed ∧
      (∀ site : Site, site.Lawful events) ∧ AnswersAs read refuse written events := by
  have calls {call : Store.Call} {given : call.Answer}
      (member : .store call given ∈ withdrawal (withdrawn refuse ids) ++
        [removalWrite name (refusedIds (withdrawn refuse ids)) written]) :
      .store call given = removalWrite name (refusedIds (withdrawn refuse ids)) written := by
    rcases List.mem_append.mp member with withdrawing | last
    · rcases Sampling.called_or_counted withdrawing with ⟨_, _, equal⟩ | ⟨_, _, equal⟩ <;>
        cases equal
    · exact List.mem_singleton.mp last
  refine ⟨_, _, finishes_remove_iff.mpr
    ⟨withdrawn refuse ids, Sampling.perm_withdrawn refuse ids, written, rfl, rfl⟩,
    fun site => ?_, fun key given member => ?_, fun id given member => ?_,
    fun keys given member => ?_, fun key value given member => ?_⟩
  · refine Site.lawful_append.mpr ⟨Sampling.lawful_withdrawal _ site, ?_, trivial⟩
    rw [removalWrite]
    cases written with
    | error error => split <;> trivial
    | ok done => split <;> rfl
  · have equal := calls member
    rw [removalWrite] at equal
    split at equal <;> cases equal
  · rcases List.mem_append.mp member with withdrawing | last
    · exact Sampling.eq_refuse_of_mem_withdrawn withdrawing
    · have equal := List.mem_singleton.mp last
      rw [removalWrite] at equal
      split at equal <;> cases equal
  · have equal := calls member
    rw [removalWrite] at equal
    split at equal <;> cases equal
    rfl
  · have equal := calls member
    rw [removalWrite] at equal
    split at equal <;> cases equal
    rfl

end Answers

/-- Whatever the store and the gateway answer, reaping a name comes to its end. -/
theorem exists_finishes_reapMetric (schedule : Schedule) (name : String) (site : Site)
    (readable : Except Store.Error Unit) (refuse : String → Gateway.Answer)
    (written : Except Store.Error Unit) :
    ∃ events removed, Program.Finishes Work.Answered (reapMetric schedule name) events removed ∧
      site.Lawful events ∧
      AnswersAs (readable.map fun () => site.contents.get? (Store.relatedKey name)) refuse written
        events := by
  generalize answered : (readable.map fun () => site.contents.get? (Store.relatedKey name)) = read
  have admitted : site.Admits (.store (.get (Store.relatedKey name)) read) := by
    subst answered
    cases readable with
    | error error => trivial
    | ok done => rfl
  have removing (ids : List String) (continues : ∀ others removed,
      Program.Finishes Work.Answered (reapMetric.remove schedule name ids) others removed →
      Program.Finishes Work.Answered (reapMetric schedule name)
        (.store (.get (Store.relatedKey name)) read :: others) removed) :
      ∃ events removed, Program.Finishes Work.Answered (reapMetric schedule name) events removed ∧
        site.Lawful events ∧ AnswersAs read refuse written events := by
    obtain ⟨others, removed, removes, lawful, answers⟩ :=
      exists_finishes_remove schedule name ids read refuse written
    exact ⟨_, removed, continues others removed removes, ⟨admitted, lawful _⟩, answers.get _⟩
  cases outcome : Store.reading (Store.relatedKey name) Store.idsIn? read with
  | ok ids =>
      refine removing ids.toList fun others removed removes => ?_
      refine finishes_reapMetric_iff.mpr ⟨read, others, rfl, ?_⟩
      rw [outcome]
      exact removes
  | error error =>
      by_cases recoverable : error.isRecoverable
      · refine ⟨[.store (.get (Store.relatedKey name)) read], false,
          finishes_reapMetric_iff.mpr ⟨read, [], rfl, ?_⟩, ⟨admitted, trivial⟩,
          AnswersAs.nil.get _⟩
        rw [outcome]
        dsimp only
        rw [if_pos recoverable]
        exact ⟨rfl, rfl⟩
      · refine removing [] fun others removed removes => ?_
        refine finishes_reapMetric_iff.mpr ⟨read, others, rfl, ?_⟩
        rw [outcome]
        dsimp only
        rw [if_neg recoverable]
        exact removes

end Cycle

namespace Guarded

variable {schedule : Schedule} {name : String} {site : Site} {moments : List Moment}

/-- An operation that does not read a definition of a name guards what is recorded
for it. -/
theorem of_unlisted {operation : Operation} (runs : operation.Runs schedule moments)
    (lawful : site.Lawful (moments.map Moment.event))
    (intact : ∀ moment ∈ moments, ¬ moment.event.IsCorruption)
    (unlisted : ∀ moment ∈ moments, ¬ moment.event.Lists name) :
    Guarded schedule name site moments := by
  refine runs.induct lawful (fun site left right => append) ?_ ?_ ?_ ?_ ?_
  · exact fun site events quiet => of_quiet quiet
  · intro site due endings passed listed aside _
    refine of_untouched fun moment member => ?_
    exact aside.written?_of_unlisted listed unlisted member (Or.inr rfl)
  · intro site other events removed finishes inAll lawful
    exact of_reap finishes lawful
      fun event member => intact _ (inAll (List.mem_map_of_mem (f := Moment.mk .main) member))
  · exact fun site events result finishes lawful => of_purge finishes lawful
  · exact fun site events changes => of_changes changes

end Guarded

section History

variable {schedule : Schedule} {name : String} {site : Site} {history : List (List Moment)}

/-- As long as no definition of a name is read, a history keeps it marked if
identities are stored for it, and guards these. -/
theorem Site.PairedAt.after_history (paired : site.PairedAt name)
    (runs : History schedule site history)
    (unlisted : ∀ moment ∈ history.flatten, ¬ moment.event.Lists name) :
    (site.afterAll (history.flatten.map Moment.event)).PairedAt name := by
  refine runs.preserves (P := fun site => site.PairedAt name) paired
    fun site moments operation member runs lawful paired => ?_
  exact paired.after_operation runs lawful
    (Or.inr fun moment own => unlisted moment (List.mem_flatten.mpr ⟨moments, member, own⟩))

theorem Guarded.of_unlisted_history (runs : History schedule site history)
    (intact : ∀ moment ∈ history.flatten, ¬ moment.event.IsCorruption)
    (unlisted : ∀ moment ∈ history.flatten, ¬ moment.event.Lists name) :
    Guarded schedule name site history.flatten := by
  refine runs.induct (fun site => .of_untouched nofun) (fun site left right => .append) ?_
  intro site moments operation member runs lawful
  have inAll {moment : Moment} (own : moment ∈ moments) : moment ∈ history.flatten :=
    List.mem_flatten.mpr ⟨moments, member, own⟩
  exact .of_unlisted runs lawful (fun moment own => intact moment (inAll own))
    fun moment own => unlisted moment (inAll own)

end History

namespace Cycle

variable {schedule : Schedule} {name : String} {site : Site} {past : List (List Moment)}
  {last : List Moment}

/-- A name that is not defined any more is gone after a cycle in which nothing is
refused, whatever failed and was refused before. -/
theorem gone_after_accepting_cycle (history : History schedule site (past ++ [last]))
    (cycle : Operation.cycle.Runs schedule last) (paired : site.PairedAt name)
    (intact : ∀ moment ∈ (past ++ [last]).flatten, ¬ moment.event.IsCorruption)
    (unlisted : ∀ moment ∈ (past ++ [last]).flatten, ¬ moment.event.Lists name)
    (decodes : ∃ metrics, Store.metricsIn?
      ((site.afterAll (past.flatten.map Moment.event)).contents.get? Store.metricsKey) =
        some metrics)
    (reliable : ∀ moment ∈ last, ¬ moment.event.IsStoreFailure)
    (accepting : ∀ moment ∈ last, ∀ id error,
      moment.event ≠ .gateway (.delete id) (.error error)) :
    (∀ key, Store.IsKeyOf name key →
      (site.afterAll ((past ++ [last]).flatten.map Moment.event)).contents.get? key = none) ∧
    ∀ id, site.Records name id →
      (∃ moment ∈ (past ++ [last]).flatten, moment.event.Withdraws id) ∧
      ((∀ moment ∈ (past ++ [last]).flatten, ∀ sample,
          moment.event = .gateway (.push sample) (.ok ()) → sample.id ≠ id) →
        (site.afterAll ((past ++ [last]).flatten.map Moment.event)).published.get? id = none) := by
  have unmarked : (site.afterAll ((past ++ [last]).flatten.map Moment.event)).contents.get?
      (Store.markerKey name) = none := by
    have lawful := history.lawful
    rw [List.flatten_append, List.flatten_singleton, List.map_append, Site.lawful_append] at lawful
    rw [List.flatten_append, List.flatten_singleton, List.map_append, Site.afterAll_append]
    obtain ⟨text?, metrics, others, rfl, decoded, listed⟩ :=
      marksListed_after_cycle cycle lawful.2 decodes reliable accepting
    refine Option.not_isSome_iff_eq_none.mp fun marked => ?_
    refine unlisted ⟨.main, .store (.get Store.metricsKey) (.ok text?)⟩ ?_
      ⟨rfl, metrics, decoded, listed name marked⟩
    simp [Moment.ofMain]
  have gone : ∀ key, Store.IsKeyOf name key →
      (site.afterAll ((past ++ [last]).flatten.map Moment.event)).contents.get? key = none := by
    rintro key (rfl | rfl)
    · exact unmarked
    · refine Option.not_isSome_iff_eq_none.mp fun stored => ?_
      have marked := paired.after_history history unlisted stored
      rw [unmarked] at marked
      cases marked
  refine ⟨gone, fun id recorded => ?_⟩
  obtain ⟨moment, inAll, withdraws⟩ : ∃ moment ∈ (past ++ [last]).flatten,
      moment.event.Withdraws id := by
    refine Classical.byContradiction fun never => ?_
    have kept : ∀ event ∈ (past ++ [last]).flatten.map Moment.event, ¬ event.Withdraws id := by
      intro event member withdraws
      obtain ⟨moment, inAll, rfl⟩ := List.mem_map.mp member
      exact never ⟨moment, inAll, withdraws⟩
    obtain ⟨ids, stored, member⟩ := (Guarded.of_unlisted_history history intact unlisted).records
      (List.append_nil _).symm recorded kept
    rw [Site.recorded?, gone _ (Or.inr rfl)] at stored
    obtain rfl := Option.some.inj stored
    exact Text.Set.not_mem_empty id member
  refine ⟨⟨moment, inAll, withdraws⟩, fun unpushed => Option.eq_none_iff_forall_ne_some.mpr ?_⟩
  intro sample live
  rcases Site.published_of_afterAll live with ⟨accepted, same⟩ | ⟨-, kept⟩
  · obtain ⟨other, inOthers, pushed⟩ := List.mem_map.mp accepted
    exact unpushed other inOthers sample pushed same
  · exact kept _ (List.mem_map_of_mem inAll) withdraws

/-- Reaping a name comes to its end whatever the store and the gateway answer.  If
no failure is for corruption, it removes all that is kept about the name or keeps
what is needed to try again.  So a name that is not defined any more is gone after
a cycle in which nothing fails and nothing is refused, whatever was refused in
the operations before. -/
theorem removed_or_kept (schedule : Schedule) (name : String) (site : Site) :
    (∀ (readable : Except Store.Error Unit) (refuse : String → Gateway.Answer)
      (written : Except Store.Error Unit),
      ∃ events removed, Program.Finishes Work.Answered (reapMetric schedule name) events removed ∧
        site.Lawful events ∧
        AnswersAs (readable.map fun () => site.contents.get? (Store.relatedKey name)) refuse written
          events) ∧
    (∀ events removed, Program.Finishes Work.Answered (reapMetric schedule name) events removed →
      site.Lawful events → (∀ event ∈ events, ¬ event.IsCorruption) →
        Reaps name site events removed) ∧
    ∀ past last, History schedule site (past ++ [last]) → Operation.cycle.Runs schedule last →
      site.PairedAt name →
      (∀ moment ∈ (past ++ [last]).flatten, ¬ moment.event.IsCorruption) →
      (∀ moment ∈ (past ++ [last]).flatten, ¬ moment.event.Lists name) →
      (∃ metrics, Store.metricsIn?
        ((site.afterAll (past.flatten.map Moment.event)).contents.get? Store.metricsKey) =
          some metrics) →
      (∀ moment ∈ last, ¬ moment.event.IsStoreFailure) →
      (∀ moment ∈ last, ∀ id error, moment.event ≠ .gateway (.delete id) (.error error)) →
        (∀ key, Store.IsKeyOf name key →
          (site.afterAll ((past ++ [last]).flatten.map Moment.event)).contents.get? key = none) ∧
        ∀ id, site.Records name id →
          (∃ moment ∈ (past ++ [last]).flatten, moment.event.Withdraws id) ∧
          ((∀ moment ∈ (past ++ [last]).flatten, ∀ sample,
              moment.event = .gateway (.push sample) (.ok ()) → sample.id ≠ id) →
            (site.afterAll ((past ++ [last]).flatten.map Moment.event)).published.get? id =
              none) :=
  ⟨exists_finishes_reapMetric schedule name site, fun _ _ => reaps_of_finishes,
    fun _ _ => gone_after_accepting_cycle⟩

namespace Example

open Sampling (ids)
open Sampling.Example (sample)

/-- A site where the gauge of the first cycle is live, but no metric is defined. -/
def former : Site :=
  ⟨((Text.Map.empty.insert Store.metricsKey (Metric.listText [])).insert (Store.markerKey "m")
      Timestamp.epoch.decimal).insert (Store.relatedKey "m") (Store.idsText (ids [sample "o"])),
    Text.Map.empty.insert (sample "o").id (sample "o")⟩

/-- The first cycle is refused to withdraw the gauge, the second is not. -/
def retried : List (List Moment) :=
  [reaping (.error (.transport "refused"))] ++ [reaping (.ok ())]

theorem history_retried : History Schedule.standard former retried where
  operations := by
    intro moments member
    simp only [retried, List.cons_append, List.nil_append, List.mem_cons, List.not_mem_nil,
      or_false] at member
    rcases member with rfl | rfl <;> exact ⟨.cycle, runs_reaping _⟩
  lawful := by
    repeat (first | exact trivial | refine ⟨rfl, ?_⟩ | refine ⟨trivial, ?_⟩)

end Example

open Example (former retried history_retried reaping runs_reaping withdrawn finishes_removal)
open Sampling.Example (sample)

/-- Refused, the gauge stays recorded, and after the second cycle nothing is kept. -/
theorem gone_after_retry :
    Reaps "m" former (removal "m" (some (Store.idsText (Sampling.ids [sample "o"])))
      (withdrawn (.error (.transport "refused")))) false ∧
    ∀ key, Store.IsKeyOf "m" key →
      (former.afterAll (retried.flatten.map Moment.event)).contents.get? key = none := by
  obtain ⟨-, reaps, gone⟩ := removed_or_kept Schedule.standard "m" former
  constructor
  · refine reaps _ _ (finishes_removal (.error (.transport "refused"))) ?_ ?_
    · exact ⟨rfl, trivial, trivial, trivial, rfl, trivial⟩
    · simp [removal, removalWrite, withdrawn, Sampling.withdrawal, Sampling.refusedIds,
        Event.ofEnded, Event.IsCorruption]
  · refine (gone _ _ history_retried (runs_reaping _) (fun _ => rfl) ?_ ?_ ?_ ?_ ?_).1
    · simp [reaping, Example.reaped, withdrawn, removal, removalWrite, Moment.ofMain,
        Sampling.withdrawal, Sampling.refusedIds, Event.ofEnded, Event.IsCorruption, Except.isOk,
        Except.toBool]
    · simp [reaping, Example.reaped, withdrawn, removal, removalWrite, Moment.ofMain,
        Sampling.withdrawal, Sampling.refusedIds, Event.ofEnded, Event.Lists, Except.isOk,
        Except.toBool, Store.metricsIn?, Metric.ofListText?_listText]
    · exact ⟨[], Metric.ofListText?_listText []⟩
    · simp [reaping, Example.reaped, withdrawn, removal, removalWrite, Moment.ofMain,
        Sampling.withdrawal, Sampling.refusedIds, Event.ofEnded, Event.IsStoreFailure, Except.isOk,
        Except.toBool]
    · simp [reaping, Example.reaped, withdrawn, removal, removalWrite, Moment.ofMain,
        Sampling.withdrawal, Sampling.refusedIds, Event.ofEnded, Except.isOk, Except.toBool]

end Cycle
end InventoryGauges
