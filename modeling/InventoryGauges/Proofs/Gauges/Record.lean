import InventoryGauges.Proofs.Cycle.Trace
import InventoryGauges.Proofs.Sampling.Footprint

/-!
# Recorded gauges

The identities that are stored for a name are only given up when they were
withdrawn after they were read, or when everything was wiped.
-/

namespace InventoryGauges
namespace Site

/-- The identities that are stored for a name; none if they cannot be read. -/
def recorded? (site : Site) (name : String) : Option Text.Set :=
  Store.idsIn? (site.contents.get? (Store.relatedKey name))

/-- An identity is among those that are stored for a name. -/
def Records (site : Site) (name id : String) : Prop :=
  ∃ ids, site.recorded? name = some ids ∧ id ∈ ids

/-- If it works, to read what is stored for a name gives the identities. -/
theorem exists_reading_of_recorded? {site : Site} {name : String} {ids : Text.Set}
    {answer : Except Store.Error (Option String)}
    (admitted : site.Admits (.store (.get (Store.relatedKey name)) answer))
    (works : ¬ (Event.store (.get (Store.relatedKey name)) answer).IsFailureAt
      (Store.relatedKey name)) (stored : site.recorded? name = some ids) :
    ∃ text?, answer = .ok text? ∧
      Store.reading (Store.relatedKey name) Store.idsIn? answer = .ok ids := by
  obtain ⟨text?, rfl⟩ := Event.exists_ok_of_works works List.mem_cons_self
  refine ⟨text?, rfl, Store.reading_eq_ok_iff.mpr ⟨text?, rfl, ?_⟩⟩
  rw [← stored, admitted]
  rfl

theorem records_iff_mem {site : Site} {name id : String} :
    site.Records name id ↔ id ∈ ((site.recorded? name).getD Text.Set.empty).toList := by
  rw [Records]
  cases site.recorded? name with
  | none => simp [Text.Set.empty]
  | some ids => simp [Text.Set.mem_def]

theorem recorded?_after (site : Site) (event : Event) (name : String) :
    (site.after event).recorded? name =
      Store.idsIn? ((event.written? (Store.relatedKey name)).getD
        (site.contents.get? (Store.relatedKey name))) := by
  rw [recorded?, get?_contents_after]

theorem recorded?_afterAll {site : Site} {events : List Event} {name : String}
    (untouched : ∀ event ∈ events, event.written? (Store.relatedKey name) = none) :
    (site.afterAll events).recorded? name = site.recorded? name := by
  rw [recorded?, get?_contents_afterAll untouched, recorded?]

end Site

/-- After these events, to store this value for a name gives up only what was
withdrawn since the stored identities were read, or everything after a wipe. -/
def Accounts (name : String) (events : List Event) (value? : Option String) : Prop :=
  .wipe (.ok ()) ∈ events ∨
    ∃ text? earlier between,
      events = earlier ++ .store (.get (Store.relatedKey name)) (.ok text?) :: between ∧
        (∀ event ∈ between, event.written? (Store.relatedKey name) = none) ∧
        ∀ ids, Store.idsIn? text? = some ids → ∀ id ∈ ids,
          (∃ next, Store.idsIn? value? = some next ∧ id ∈ next) ∨
            ∃ event ∈ between, event.Withdraws id

/-- After a withdrawal, what is neither written again nor was refused was given
up rightly. -/
theorem Accounts.of_withdrawal {name : String} {before : List Event} {text? value? : Option String}
    {ended : List Gateway.Ended} {targets : List String}
    (same : (ended.map Prod.fst).Perm (targets.map .delete))
    (kept : ∀ ids, Store.idsIn? text? = some ids → ∀ id ∈ ids,
      (∃ next, Store.idsIn? value? = some next ∧ id ∈ next) ∨
        id ∈ targets ∧ ¬ id ∈ Sampling.refusedIds ended) :
    Accounts name (before ++ .store (.get (Store.relatedKey name)) (.ok text?) ::
      Sampling.withdrawal ended) value? := by
  refine Or.inr ⟨text?, before, Sampling.withdrawal ended, rfl,
    fun event => Sampling.written?_of_mem_withdrawal _, fun ids stored id member => ?_⟩
  rcases kept ids stored id member with written | ⟨target, taken⟩
  · exact Or.inl written
  · rcases Sampling.withdrawn_or_refused same target with withdrawn | refused
    · exact Or.inr ⟨_, withdrawn, rfl⟩
    · exact absurd refused taken

/-- What is lost for a name by a write was withdrawn before. -/
theorem Accounts.withdrawn {name id : String} {events : List Event} {value? : Option String}
    {event : Event} {site : Site} (accounts : Accounts name events value?)
    (writes : event.written? (Store.relatedKey name) = some value?) (lawful : site.Lawful events)
    (recorded : (site.afterAll events).Records name id)
    (lost : ¬ ((site.afterAll events).after event).Records name id) :
    ∃ other ∈ events, other.Withdraws id := by
  rcases accounts with wiped | ⟨text?, earlier, between, rfl, untouched, kept⟩
  · exact ⟨_, wiped, trivial⟩
  · obtain ⟨-, admitted, -⟩ := Site.lawful_append.mp lawful
    have same : (site.afterAll (earlier ++ .store (.get (Store.relatedKey name)) (.ok text?) ::
        between)).recorded? name = Store.idsIn? text? := by
      rw [Site.afterAll_append, Site.afterAll_cons, Site.recorded?_afterAll untouched, admitted]
      rfl
    obtain ⟨ids, stored, member⟩ := recorded
    rw [same] at stored
    rcases kept ids stored id member with ⟨next, written, inNext⟩ | ⟨other, inBetween, withdraws⟩
    · refine absurd ⟨next, ?_, inNext⟩ lost
      rw [Site.recorded?_after, writes]
      exact written
    · exact ⟨other, List.mem_append_right _ (List.mem_cons_of_mem _ inBetween), withdraws⟩

/-- Each write of a name's identities in these events gives up only what was
withdrawn before. -/
def Careful (name : String) (events : List Event) : Prop :=
  ∀ first event last value?, events = first ++ event :: last →
    event.written? (Store.relatedKey name) = some value? → Accounts name first value?

namespace Careful

variable {name : String} {events : List Event}

theorem of_untouched
    (untouched : ∀ event ∈ events, event.written? (Store.relatedKey name) = none) :
    Careful name events := by
  rintro first event last value? rfl writes
  rw [untouched event (by simp)] at writes
  cases writes

theorem of_append {rest : List Event} (careful : Careful name (events ++ rest)) :
    Careful name events := by
  rintro first event last value? rfl writes
  exact careful first event (last ++ rest) value? (by simp) writes

/-- What writes nothing for the name may follow. -/
theorem append {rest : List Event} (careful : Careful name events)
    (untouched : ∀ event ∈ rest, event.written? (Store.relatedKey name) = none) :
    Careful name (events ++ rest) := by
  intro first event last value? split writes
  rcases List.append_eq_append_iff.mp split with ⟨middle, rfl, tail⟩ | ⟨middle, rfl, tail⟩
  · rw [untouched event (tail ▸ List.mem_append_right _ List.mem_cons_self)] at writes
    cases writes
  · cases middle with
    | nil =>
        obtain rfl : event :: last = rest := tail
        rw [untouched event List.mem_cons_self] at writes
        cases writes
    | cons head middle =>
        obtain ⟨rfl, rfl⟩ := List.cons.inj tail
        exact careful first event middle value? rfl writes

/-- A write that gives up only what it may can follow. -/
theorem append_write {event : Event} (careful : Careful name events)
    (accounts : ∀ value?, event.written? (Store.relatedKey name) = some value? →
      Accounts name events value?) : Careful name (events ++ [event]) := by
  intro first other last value? split writes
  rcases List.append_eq_append_iff.mp split with ⟨middle, rfl, tail⟩ | ⟨middle, rfl, tail⟩
  · cases middle with
    | nil =>
        obtain ⟨rfl, -⟩ := List.cons.inj tail
        rw [List.append_nil]
        exact accounts value? writes
    | cons head middle => exact absurd (List.cons.inj tail).2 (by simp)
  · cases middle with
    | nil =>
        obtain ⟨rfl, -⟩ := List.cons.inj tail
        rw [List.append_nil] at accounts
        exact accounts value? writes
    | cons head middle =>
        obtain ⟨rfl, rfl⟩ := List.cons.inj tail
        exact careful first other middle value? rfl writes

end Careful

namespace Sampling

open Work (Answered)

variable {schedule : Schedule} {metric : Metric} {events : List Event}

/-- Giving up only writes the marker. -/
theorem written?_of_giveUp {key : String} (different : key ≠ Store.markerKey metric.name)
    (finishes : Program.Finishes Answered (giveUp schedule metric) events ()) :
    ∀ event ∈ events, event.written? key = none := by
  obtain ⟨_, _, withdraws, records, rfl⟩ := finishes_giveUp_iff.mp finishes
  obtain ⟨now, marked, rfl⟩ := finishes_recordFailure_iff.mp records
  obtain ⟨answer, others, rfl, continues⟩ := finishes_withdrawPublished_iff.mp withdraws
  intro event member
  simp only [List.mem_append, List.mem_cons, List.not_mem_nil, or_false] at member
  rcases member with (rfl | withdrawn) | rfl | rfl
  · exact Event.written?_get _ _ answer
  · generalize Store.reading (Store.relatedKey metric.name) Store.idsIn? answer = outcome
      at continues
    cases outcome with
    | error error => exact absurd (continues ▸ withdrawn) List.not_mem_nil
    | ok ids =>
        obtain ⟨ended, -, rfl⟩ := continues
        exact written?_of_mem_withdrawal _ withdrawn
  · rfl
  · exact Event.written?_set_of_ne different _ marked

theorem written?_relatedKey_of_giveUp (name : String)
    (finishes : Program.Finishes Answered (giveUp schedule metric) events ()) :
    ∀ event ∈ events, event.written? (Store.relatedKey name) = none :=
  written?_of_giveUp (Store.markerKey_ne_relatedKey metric.name name).symm finishes

/-- Up to its marker, a pass does not write the identities. -/
theorem written?_relatedKey_of_opening {pushed : List Gateway.Ended} {now : Timestamp}
    {marked : Except Store.Error Unit} (name : String) :
    ∀ event ∈ publication pushed ++ [.clock now,
      .store (.set (Store.markerKey metric.name) now.decimal) marked],
      event.written? (Store.relatedKey name) = none := by
  intro event member
  simp only [List.mem_append, List.mem_cons, List.not_mem_nil, or_false] at member
  rcases member with published | rfl | rfl
  · exact written?_of_mem_publication _ published
  · rfl
  · exact Event.written?_set_of_ne (Store.markerKey_ne_relatedKey _ _).symm _ marked

/-- Reconciling gives up only what was withdrawn. -/
theorem careful_append_reconcile {current : Text.Set} {reconciliation : Reconciliation}
    {before : List Event}
    (untouched : ∀ event ∈ before, event.written? (Store.relatedKey metric.name) = none)
    (finishes : Program.Finishes Answered (reconcile schedule metric current) events
      reconciliation) : Careful metric.name (before ++ events) := by
  obtain ⟨answer, others, rfl, continues⟩ := finishes_reconcile_iff.mp finishes
  cases outcome : Store.reading (Store.relatedKey metric.name) Store.idsIn? answer with
  | error error =>
      rw [outcome] at continues
      obtain ⟨rfl, -⟩ := continues
      apply (Careful.of_untouched untouched).append
      intro event member
      obtain rfl := List.mem_singleton.mp member
      exact Event.written?_get _ _ answer
  | ok previous =>
      rw [outcome] at continues
      obtain ⟨ended, same, written, saved, rfl, -, saves⟩ := continues
      obtain ⟨text?, rfl, stored⟩ := Store.reading_eq_ok_iff.mp outcome
      have opening : Careful metric.name
          (before ++ .store (.get (Store.relatedKey metric.name)) (.ok text?) ::
            withdrawal ended) :=
        (Careful.of_untouched untouched).append (written?_of_mem_read_withdrawal _)
      rcases saves with ⟨-, rfl, -⟩ | ⟨-, answer, rfl, -⟩
      · rwa [List.append_nil]
      · rw [← List.cons_append, ← List.append_assoc]
        apply opening.append_write
        intro value? writes
        cases answer with
        | error error => cases writes
        | ok written =>
            obtain rfl := Option.some.inj ((Event.written?_set_self _ _).symm.trans writes)
            apply Accounts.of_withdrawal same
            intro ids found id member
            obtain rfl := Option.some.inj (stored.symm.trans found)
            by_cases current : id ∈ current
            · exact Or.inl ⟨_, Store.ofIdsText?_idsText _, by simp [current]⟩
            · by_cases refused : id ∈ refusedIds ended
              · exact Or.inl ⟨_, Store.ofIdsText?_idsText _, by simp [refused]⟩
              · exact Or.inr ⟨Text.Set.mem_diff.mpr ⟨member, current⟩, refused⟩

/-- A pass gives up only what it withdrew. -/
theorem careful_of_finishes_pass {result : Except Error Report}
    (finishes : Program.Finishes Answered (pass schedule metric) events result) :
    Careful metric.name events := by
  obtain ⟨answer, others, rfl, continues⟩ := finishes_pass_iff.mp finishes
  cases extracts : extracted metric answer with
  | error error =>
      rw [extracts] at continues
      obtain ⟨cleaned, cleans, rfl, -⟩ := continues
      apply Careful.of_untouched
      intro event member
      simp only [List.mem_cons, List.mem_append, List.not_mem_nil, or_false] at member
      rcases member with rfl | cleaning | rfl
      · rfl
      · exact written?_relatedKey_of_giveUp metric.name cleans event cleaning
      · rfl
  | ok samples =>
      rw [extracts] at continues
      obtain ⟨report, completes, -⟩ := continues
      obtain ⟨pushed, now, marked, reconciled, reconciliation, -, reconciles, rfl, -⟩ :=
        finishes_complete_iff.mp completes
      have opening : ∀ event ∈ .query metric.className metric.queryFilter answer ::
          publication pushed ++ [.clock now, .store (.set (Store.markerKey metric.name) now.decimal)
            marked], event.written? (Store.relatedKey metric.name) = none := by
        intro event member
        rcases List.mem_cons.mp member with rfl | later
        · rfl
        · exact written?_relatedKey_of_opening metric.name event later
      have shape : .query metric.className metric.queryFilter answer :: (publication pushed ++
            .clock now :: .store (.set (Store.markerKey metric.name) now.decimal) marked ::
              (reconciled ++ [.count (.samples .success) 1])) =
          ((.query metric.className metric.queryFilter answer :: publication pushed ++
            [.clock now, .store (.set (Store.markerKey metric.name) now.decimal) marked]) ++
              reconciled) ++ [.count (.samples .success) 1] := by
        simp
      rw [shape]
      apply (careful_append_reconcile opening reconciles).append
      intro event member
      obtain rfl := List.mem_singleton.mp member
      rfl

end Sampling

namespace Cycle

variable {schedule : Schedule} {name : String} {events : List Event}

/-- However a pass goes within a cycle, it gives up only what it withdrew. -/
theorem PassRuns.careful {metric : Metric} {ending : Ending}
    (runs : PassRuns schedule metric events ending) : Careful metric.name events := by
  have begun {begun : List Event} (begins : Work.Begins (Sampling.pass schedule metric) begun) :
      Careful metric.name begun := by
    obtain ⟨rest, result, finishes⟩ := begins
    exact (Sampling.careful_of_finishes_pass finishes).of_append
  have stalled {begun : List Event} (stalls : Work.Stalls (Sampling.pass schedule metric) begun) :
      Careful metric.name begun := by
    obtain ⟨before, className, filter, answer, rest, result, finishes, rfl⟩ := stalls
    apply (Sampling.careful_of_finishes_pass finishes).of_append.append
    intro event member
    obtain rfl := List.mem_singleton.mp member
    rfl
  cases runs with
  | finished finishes => exact Sampling.careful_of_finishes_pass finishes
  | broken stalls => exact stalled stalls
  | timedOut begins cleans =>
      apply (begins.elim begun stalled).append
      intro event member
      rcases List.mem_cons.mp member with rfl | cleaning
      · rfl
      · exact Sampling.written?_relatedKey_of_giveUp metric.name cleans event cleaning

theorem within_removalWrite (refused : List String) (answer : Except Store.Error Unit) :
    (removalWrite name refused answer).Within (Store.IsKeyOf name) := by
  rw [removalWrite]
  split
  · intro key member
    simpa [Store.IsKeyOf] using member
  · exact Or.inr rfl

/-- Reaping a name only uses its own keys. -/
theorem within_of_finishes_reapMetric {removed : Bool}
    (finishes : Program.Finishes Work.Answered (reapMetric schedule name) events removed) :
    ∀ event ∈ events, event.Within (Store.IsKeyOf name) := by
  intro event member
  rcases cases_of_finishes_reapMetric finishes with
    ⟨error, -, rfl, -⟩ | ⟨answer, ended, given, -, -, rfl, -⟩
  · obtain rfl := List.mem_singleton.mp member
    exact Or.inr rfl
  · rcases List.mem_append.mp member with opening | last
    · rcases List.mem_cons.mp opening with rfl | withdrawn
      · exact Or.inr rfl
      · rcases Sampling.called_or_counted withdrawn with ⟨_, _, rfl⟩ | ⟨_, _, rfl⟩ <;> trivial
    · obtain rfl := List.mem_singleton.mp last
      exact within_removalWrite _ given

theorem written?_removalWrite_relatedKey (refused : List String) :
    (removalWrite name refused (.ok ())).written? (Store.relatedKey name) =
      some (if refused = [] then none else some (Store.idsText (Text.Set.ofList refused))) := by
  rw [removalWrite]
  split
  · exact if_pos (by simp)
  · exact Event.written?_set_self _ _

theorem written?_removalWrite_markerKey {refused : List String} (left : refused ≠ []) :
    (removalWrite name refused (.ok ())).written? (Store.markerKey name) = none := by
  rw [removalWrite, if_neg left]
  exact Event.written?_set_of_ne (Store.markerKey_ne_relatedKey name name) _ _

theorem written?_removalWrite_error {refused : List String} {error : Store.Error} (key : String) :
    (removalWrite name refused (.error error)).written? key = none := by
  rw [removalWrite]
  split <;> rfl

theorem eq_ok_of_removalWrite {refused : List String} {given : Except Store.Error Unit}
    (works : ¬ (removalWrite name refused given).IsStoreFailure) : given = .ok () := by
  cases given with
  | ok done => rfl
  | error error =>
      refine absurd ?_ works
      rw [removalWrite]
      split <;> trivial

/-- The gateway is only called to withdraw. -/
theorem gateway_mem_removal_iff {ended : List Gateway.Ended} {given : Except Store.Error Unit}
    {answer : Except Store.Error (Option String)} {call : Gateway.Call}
    {answered : Gateway.Answer} :
    .gateway call answered ∈ .store (.get (Store.relatedKey name)) answer ::
        Sampling.withdrawal ended ++ [removalWrite name (Sampling.refusedIds ended) given] ↔
      .gateway call answered ∈ Sampling.withdrawal ended := by
  have last : .gateway call answered ≠
      removalWrite name (Sampling.refusedIds ended) given := by
    rw [removalWrite]
    split <;> rintro ⟨⟩
  simp [last]

theorem idsIn?_removalWrite (refused : List String) :
    Store.idsIn? (if refused = [] then none else some (Store.idsText (Text.Set.ofList refused))) =
      some (Text.Set.ofList refused) := by
  split
  · rename_i none
    rw [none]
    rfl
  · exact Store.ofIdsText?_idsText _

/-- Nothing is written before the end of reaping a name. -/
theorem written?_before_of_finishes_reapMetric {removed : Bool} {first last : List Event}
    {event : Event}
    (finishes : Program.Finishes Work.Answered (reapMetric schedule name)
      (first ++ event :: last) removed) :
    ∀ other ∈ first, ∀ key, other.written? key = none := by
  intro other member key
  rcases cases_of_finishes_reapMetric finishes with
    ⟨error, -, shape, -⟩ | ⟨answer, ended, given, -, -, shape, -⟩
  · cases first with
    | nil => cases member
    | cons head first => simp at shape
  · have opening : other ∈ .store (.get (Store.relatedKey name)) answer ::
        Sampling.withdrawal ended := by
      rcases List.append_eq_append_iff.mp shape with ⟨middle, equal, -⟩ | ⟨middle, equal, rest⟩
      · rw [equal]
        exact List.mem_append_left middle member
      · cases middle with
        | nil => rwa [equal, List.append_nil] at member
        | cons head middle => simp at rest
    exact Sampling.written?_of_mem_read_withdrawal key other opening

/-- Besides its calls to the store, reaping a name withdraws gauges that are
recorded for it, and counts. -/
theorem cases_of_mem_reapMetric {site : Site} {removed : Bool} {event : Event}
    (finishes : Program.Finishes Work.Answered (reapMetric schedule name) events removed)
    (lawful : site.Lawful events) (member : event ∈ events) :
    (∃ call given, event = .store call given) ∨
      (∃ id given, event = .gateway (.delete id) given ∧ site.Records name id) ∨
      ∃ counter amount, event = .count counter amount := by
  rcases cases_of_finishes_reapMetric finishes with
    ⟨error, -, rfl, -⟩ | ⟨answer, ended, given, -, same, rfl, -⟩
  · exact Or.inl ⟨_, _, List.mem_singleton.mp member⟩
  · rcases List.mem_append.mp member with opening | last
    · rcases List.mem_cons.mp opening with rfl | withdrawn
      · exact Or.inl ⟨_, _, rfl⟩
      · refine Or.inr ?_
        rcases Sampling.cases_of_mem_withdrawal same withdrawn with
          ⟨id, inIds, given, rfl⟩ | counted
        · refine Or.inl ⟨id, given, rfl, Site.records_iff_mem.mpr ?_⟩
          cases answer with
          | error error => exact absurd inIds List.not_mem_nil
          | ok text? =>
              obtain rfl : text? = site.contents.get? (Store.relatedKey name) := lawful.1
              rwa [Store.toOption_reading_ok] at inIds
        · exact Or.inr counted
    · obtain rfl := List.mem_singleton.mp last
      refine Or.inl ?_
      rw [removalWrite]
      split <;> exact ⟨_, _, rfl⟩

/-- Reaping a name gives up only what was withdrawn. -/
theorem careful_of_finishes_reapMetric {removed : Bool}
    (finishes : Program.Finishes Work.Answered (reapMetric schedule name) events removed)
    (intact : ∀ event ∈ events, ¬ event.IsCorruption) : Careful name events := by
  rcases cases_of_finishes_reapMetric finishes with
    ⟨error, -, rfl, -⟩ | ⟨answer, ended, given, lasting, same, rfl, -⟩
  · apply Careful.of_untouched
    intro event member
    obtain rfl := List.mem_singleton.mp member
    rfl
  · have opening : Careful name
        (.store (.get (Store.relatedKey name)) answer :: Sampling.withdrawal ended) :=
      .of_untouched (Sampling.written?_of_mem_read_withdrawal _)
    apply opening.append_write
    intro value? writes
    cases answer with
    | error error =>
        exact absurd (Event.isCorruption_of_not_isRecoverable (lasting error rfl))
          (intact _ List.mem_cons_self)
    | ok text? =>
        refine @Accounts.of_withdrawal name [] text? value? ended _ same ?_
        intro stored found id member
        by_cases refused : id ∈ Sampling.refusedIds ended
        · refine Or.inl ⟨Text.Set.ofList (Sampling.refusedIds ended), ?_, by simpa using refused⟩
          cases given with
          | error error =>
              rw [removalWrite, if_neg (List.ne_nil_of_mem refused)] at writes
              cases writes
          | ok written =>
              obtain rfl := Option.some.inj ((written?_removalWrite_relatedKey _).symm.trans writes)
              exact idsIn?_removalWrite _
        · refine Or.inr ⟨?_, refused⟩
          rw [Store.toOption_reading_ok, found]
          exact member

/-- A purge gives up anything only after it wiped everything. -/
theorem careful_of_finishes_purge {result : Except PurgeError Nat}
    (finishes : Program.Finishes Work.Answered purge events result) : Careful name events := by
  obtain ⟨answer, others, rfl, continues⟩ := finishes_purge_iff.mp finishes
  cases answer with
  | error error =>
      obtain ⟨rfl, -⟩ := continues
      apply Careful.of_untouched
      intro event member
      obtain rfl := List.mem_singleton.mp member
      rfl
  | ok accepted =>
      intro first event last value? split writes
      cases first with
      | nil =>
          obtain ⟨rfl, -⟩ := List.cons.inj split
          cases writes
      | cons head first =>
          obtain ⟨rfl, -⟩ := List.cons.inj split
          exact Or.inl List.mem_cons_self

end Cycle
end InventoryGauges
