import InventoryGauges.Cycle
import InventoryGauges.Proofs.Sampling.Trace

/-!
# Traces of reaping and purging

What is done about former metrics, one name after another, and what a purge
does, as lists of events.
-/

namespace InventoryGauges
namespace Cycle

open Sampling (refusedIds withdrawal)

/-- The write that ends the removal of a former metric: of the gauges that are
left, or of nothing at all. -/
def removalWrite (name : String) (refused : List String) (answer : Except Store.Error Unit) :
    Event :=
  if refused = [] then .store (.delete [Store.markerKey name, Store.relatedKey name]) answer
  else .store (.set (Store.relatedKey name) (Store.idsText (Text.Set.ofList refused))) answer

section Traces

variable {schedule : Schedule} {name : String} {events : List Event}

theorem finishes_remove_iff {ids : List String} {removed : Bool} :
    Program.Finishes Work.Answered (reapMetric.remove schedule name ids) events removed ↔
      ∃ ended : List Gateway.Ended, (ended.map Prod.fst).Perm (ids.map .delete) ∧
        ∃ answer, events = withdrawal ended ++ [removalWrite name (refusedIds ended) answer] ∧
          removed = (decide (refusedIds ended = []) && answer.isOk) := by
  rw [reapMetric.remove, Program.finishes_bind_iff]
  constructor
  · rintro ⟨_, _, last, withdraws, writes, rfl⟩
    obtain ⟨ended, same, rfl, rfl⟩ := Sampling.finishes_withdraw_iff.mp withdraws
    refine ⟨ended, same, ?_⟩
    split at writes
    · rename_i none
      obtain ⟨_, answer, _, deletes, ends, rfl⟩ := Program.finishes_bind_iff.mp writes
      obtain rfl := Work.finishes_deleteBookkeeping_iff.mp deletes
      obtain ⟨rfl, rfl⟩ := Program.finishes_done_iff.mp ends
      have none := List.isEmpty_iff.mp none
      exact ⟨answer, by simp [removalWrite, none], by simp [none]⟩
    · rename_i some
      obtain ⟨_, answer, _, saves, ends, rfl⟩ := Program.finishes_bind_iff.mp writes
      obtain rfl := Work.finishes_saveRelatedIds_iff.mp saves
      obtain ⟨rfl, rfl⟩ := Program.finishes_done_iff.mp ends
      have some : refusedIds ended ≠ [] := fun none => some (List.isEmpty_iff.mpr none)
      exact ⟨answer, by simp [removalWrite, some], by simp [some]⟩
  · rintro ⟨ended, same, answer, rfl, rfl⟩
    refine ⟨_, _, _, Sampling.finishes_withdraw_iff.mpr ⟨ended, same, rfl, rfl⟩, ?_, rfl⟩
    by_cases none : refusedIds ended = []
    · rw [if_pos (List.isEmpty_iff.mpr none)]
      exact Program.finishes_bind_iff.mpr ⟨_, answer, [],
        Work.finishes_deleteBookkeeping_iff.mpr rfl,
        Program.finishes_done_iff.mpr ⟨rfl, by simp [none]⟩, by simp [removalWrite, none]⟩
    · rw [if_neg fun empty => none (List.isEmpty_iff.mp empty)]
      exact Program.finishes_bind_iff.mpr ⟨_, answer, [],
        Work.finishes_saveRelatedIds_iff.mpr rfl,
        Program.finishes_done_iff.mpr ⟨rfl, by simp [none]⟩, by simp [removalWrite, none]⟩

theorem finishes_reapMetric_iff {removed : Bool} :
    Program.Finishes Work.Answered (reapMetric schedule name) events removed ↔
      ∃ answer others, events = .store (.get (Store.relatedKey name)) answer :: others ∧
        match Store.reading (Store.relatedKey name) Store.idsIn? answer with
        | .error error =>
            if error.isRecoverable then others = [] ∧ removed = false
            else Program.Finishes Work.Answered (reapMetric.remove schedule name []) others removed
        | .ok ids =>
            Program.Finishes Work.Answered (reapMetric.remove schedule name ids.toList) others
              removed := by
  rw [reapMetric, Program.finishes_bind_iff]
  constructor
  · rintro ⟨_, result, others, reads, continues, rfl⟩
    obtain ⟨answer, rfl, rfl⟩ := Work.finishes_relatedIds_iff.mp reads
    refine ⟨answer, others, rfl, ?_⟩
    generalize Store.reading (Store.relatedKey name) Store.idsIn? answer = outcome
      at continues ⊢
    cases outcome with
    | error error =>
        dsimp only at continues ⊢
        split at continues
        · rw [if_pos ‹_›]
          exact Program.finishes_done_iff.mp continues
        · rw [if_neg ‹_›]
          exact continues
    | ok ids => exact continues
  · rintro ⟨answer, others, rfl, continues⟩
    refine ⟨_, _, others, Work.finishes_relatedIds_iff.mpr ⟨answer, rfl, rfl⟩, ?_, rfl⟩
    generalize Store.reading (Store.relatedKey name) Store.idsIn? answer = outcome
      at continues ⊢
    cases outcome with
    | error error =>
        dsimp only at continues ⊢
        split at continues
        · rw [if_pos ‹_›]
          exact Program.finishes_done_iff.mpr continues
        · rw [if_neg ‹_›]
          exact continues
    | ok ids => exact continues

/-- Reaping a name stops at once if what is recorded for it may be read later.
Else it withdraws what it read, which is nothing if that was no set of
identities, and then it writes. -/
theorem cases_of_finishes_reapMetric {removed : Bool}
    (finishes : Program.Finishes Work.Answered (reapMetric schedule name) events removed) :
    (∃ error, error.isRecoverable ∧
      events = [.store (.get (Store.relatedKey name)) (.error error)] ∧ removed = false) ∨
    ∃ answer ended given, (∀ error, answer = .error error → ¬ error.isRecoverable) ∧
      (ended.map Prod.fst).Perm
        (((Store.reading (Store.relatedKey name) Store.idsIn? answer).toOption.getD
          Text.Set.empty).toList.map .delete) ∧
      events = .store (.get (Store.relatedKey name)) answer :: withdrawal ended ++
        [removalWrite name (refusedIds ended) given] ∧
      removed = (decide (refusedIds ended = []) && given.isOk) := by
  obtain ⟨answer, others, rfl, continues⟩ := finishes_reapMetric_iff.mp finishes
  cases outcome : Store.reading (Store.relatedKey name) Store.idsIn? answer with
  | error error =>
      rw [outcome] at continues
      dsimp only at continues
      split at continues
      · rename_i recoverable
        obtain ⟨rfl, rfl⟩ := continues
        cases answer with
        | error other =>
            obtain rfl := Except.error.inj outcome
            exact Or.inl ⟨other, recoverable, rfl, rfl⟩
        | ok text? =>
            rw [Store.reading] at outcome
            split at outcome
            · cases outcome
            · obtain rfl := Except.error.inj outcome
              cases recoverable
      · rename_i lasting
        obtain ⟨ended, same, given, rfl, result⟩ := finishes_remove_iff.mp continues
        refine Or.inr ⟨answer, ended, given, ?_, by rw [outcome]; exact same, rfl, result⟩
        rintro other rfl
        obtain rfl := Except.error.inj outcome
        exact lasting
  | ok ids =>
      rw [outcome] at continues
      obtain ⟨ended, same, given, rfl, result⟩ := finishes_remove_iff.mp continues
      refine Or.inr ⟨answer, ended, given, ?_, by rw [outcome]; exact same, rfl, result⟩
      rintro other rfl
      cases outcome

/-- Former metrics are reaped one after another. -/
theorem finishes_reapAll_cons_iff {names : List String} {reaped : Nat} :
    Program.Finishes Work.Answered (reapAll schedule (name :: names)) events reaped ↔
      ∃ first removed last others,
        Program.Finishes Work.Answered (reapMetric schedule name) first removed ∧
          Program.Finishes Work.Answered (reapAll schedule names) last others ∧
          events = first ++ (if removed then [.count .metricsReaped 1] else []) ++ last ∧
          reaped = others + removed.toNat := by
  rw [reapAll, Program.finishes_bind_iff]
  constructor
  · rintro ⟨first, removed, rest, reaps, continues, rfl⟩
    cases removed with
    | true =>
        obtain ⟨_, _, _, counts, goesOn, rfl⟩ := Program.finishes_bind_iff.mp continues
        obtain ⟨last, others, _, reapsAll, ends, rfl⟩ := Program.finishes_bind_iff.mp goesOn
        obtain ⟨rfl, rfl⟩ := Program.finishes_done_iff.mp ends
        rw [Work.count, Program.finishes_request_iff, Work.Answered] at counts
        subst counts
        exact ⟨first, true, last, others, reaps, reapsAll, by simp, rfl⟩
    | false => exact ⟨first, false, rest, reaped, reaps, continues, by simp, rfl⟩
  · rintro ⟨first, removed, last, others, reaps, reapsAll, rfl, rfl⟩
    rw [List.append_assoc]
    refine ⟨first, removed, _, reaps, ?_, rfl⟩
    cases removed with
    | true =>
        exact Program.finishes_bind_iff.mpr ⟨_, (), last, Program.finishes_request_iff.mpr rfl,
          Program.finishes_bind_iff.mpr ⟨last, others, [], reapsAll, .done _,
            (List.append_nil _).symm⟩, rfl⟩
    | false => exact reapsAll

theorem finishes_reap_iff {active : Text.Set} {reaped : Nat} :
    Program.Finishes Work.Answered (reap schedule active) events reaped ↔
      ∃ (answer : Except Store.Error (List String)) (others : List Event),
        events = .store (.scan Store.markerStart) answer :: others ∧
          match answer with
          | .error _ => others = [] ∧ reaped = 0
          | .ok keys => Program.Finishes Work.Answered (reapAll schedule
              ((Text.Set.ofList (keys.filterMap Store.markerName?)).diff active).toList)
              others reaped := by
  rw [reap, Program.finishes_bind_iff]
  constructor
  · rintro ⟨_, result, others, reads, continues, rfl⟩
    obtain ⟨answer, rfl, rfl⟩ := Work.finishes_processedNames_iff.mp reads
    refine ⟨answer, others, rfl, ?_⟩
    cases answer with
    | error error => exact Program.finishes_done_iff.mp continues
    | ok keys => exact continues
  · rintro ⟨answer, others, rfl, continues⟩
    refine ⟨_, _, others, Work.finishes_processedNames_iff.mpr ⟨answer, rfl, rfl⟩, ?_, rfl⟩
    cases answer with
    | error error => exact Program.finishes_done_iff.mpr continues
    | ok keys => exact continues

theorem exists_count_of_finishes_countLost {endings : List Ending}
    (finishes : Program.Finishes Work.Answered (countLost endings) events ()) :
    ∀ event ∈ events, ∃ counter amount, event = .count counter amount := by
  induction endings generalizing events with
  | nil =>
      obtain ⟨rfl, -⟩ := Program.finishes_done_iff.mp finishes
      exact nofun
  | cons ending endings hypothesis =>
      have counting {counter : Counter} {amount : Nat}
          (finishes : Program.Finishes Work.Answered
            (Work.count counter amount >>= fun _ => countLost endings) events ()) :
          ∀ event ∈ events, ∃ counter amount, event = .count counter amount := by
        obtain ⟨_, _, last, counts, continues, rfl⟩ := Program.finishes_bind_iff.mp finishes
        rw [Work.count, Program.finishes_request_iff, Work.Answered] at counts
        subst counts
        intro event member
        rcases List.mem_cons.mp member with rfl | later
        · exact ⟨counter, amount, rfl⟩
        · exact hypothesis continues event later
      cases ending with
      | finished result => exact hypothesis finishes
      | timedOut => exact counting finishes
      | broken => exact counting finishes

/-- Bookkeeping is removed name by name, up to the first failure. -/
theorem finishes_deleteAllBookkeeping_cons_iff {names : List String}
    {result : Except Store.Error Unit} :
    Program.Finishes Work.Answered (Work.access (deleteAllBookkeeping (name :: names))) events
        result ↔
      (∃ error, events =
          [.store (.delete [Store.markerKey name, Store.relatedKey name]) (.error error)] ∧
        result = .error error) ∨
      ∃ others,
        Program.Finishes Work.Answered (Work.access (deleteAllBookkeeping names)) others result ∧
        events = .store (.delete [Store.markerKey name, Store.relatedKey name]) (.ok ()) ::
          others := by
  rw [deleteAllBookkeeping, Store.deleteBookkeeping, Work.finishes_access_bind_iff]
  exact or_congr Iff.rfl ⟨fun ⟨(), others, whole⟩ => ⟨others, whole⟩,
    fun ⟨others, whole⟩ => ⟨(), others, whole⟩⟩

/-- What a purge does after the wipe. -/
theorem finishes_forget_iff {result : Except Store.Error Nat} :
    Program.Finishes Work.Answered (Work.access (do
        let names ← Store.processedNames
        deleteAllBookkeeping names.toList
        return names.size)) events result ↔
      ∃ (answer : Except Store.Error (List String)) (others : List Event),
        events = .store (.scan Store.markerStart) answer :: others ∧
          match answer.map fun keys => Text.Set.ofList (keys.filterMap Store.markerName?) with
          | .error error => others = [] ∧ result = .error error
          | .ok names => ∃ removed,
              Program.Finishes Work.Answered (Work.access (deleteAllBookkeeping names.toList))
                  others removed ∧
                result = removed.map fun _ => names.size := by
  rw [Work.access, Work.finishes_ofCalls_bind_iff]
  constructor
  · rintro ⟨_, outcome, others, scans, continues, rfl⟩
    obtain ⟨answer, rfl, rfl⟩ := Work.finishes_processedNames_iff.mp scans
    refine ⟨answer, others, rfl, ?_⟩
    cases answer with
    | error error => exact continues
    | ok keys =>
        obtain ⟨_, removed, _, removes, ends, rfl⟩ := Work.finishes_ofCalls_bind_iff.mp continues
        cases removed with
        | error error =>
            obtain ⟨rfl, rfl⟩ := ends
            exact ⟨.error error, by rwa [List.append_nil], rfl⟩
        | ok done =>
            obtain ⟨rfl, rfl⟩ := Program.finishes_done_iff.mp ends
            exact ⟨.ok (), by rwa [List.append_nil], rfl⟩
  · rintro ⟨answer, others, rfl, continues⟩
    refine ⟨_, _, others, Work.finishes_processedNames_iff.mpr ⟨answer, rfl, rfl⟩, ?_, rfl⟩
    cases answer with
    | error error => exact continues
    | ok keys =>
        obtain ⟨removed, removes, rfl⟩ := continues
        refine Work.finishes_ofCalls_bind_iff.mpr ⟨others, removed, [], removes, ?_,
          (List.append_nil _).symm⟩
        cases removed with
        | error error => exact ⟨rfl, rfl⟩
        | ok done => exact .done _

/-- After the wipe, a purge scans and removes bookkeeping. -/
theorem cases_of_finishes_forget {result : Except Store.Error Nat}
    (finishes : Program.Finishes Work.Answered (Work.access (do
        let names ← Store.processedNames
        deleteAllBookkeeping names.toList
        return names.size)) events result) :
    ∀ event ∈ events, (∃ answer, event = .store (.scan Store.markerStart) answer) ∨
      ∃ name answer,
        event = .store (.delete [Store.markerKey name, Store.relatedKey name]) answer := by
  have deletes {names : List String} {events : List Event} {result : Except Store.Error Unit}
      (finishes : Program.Finishes Work.Answered (Work.access (deleteAllBookkeeping names)) events
        result) : ∀ event ∈ events, ∃ name answer,
          event = .store (.delete [Store.markerKey name, Store.relatedKey name]) answer := by
    induction names generalizing events with
    | nil =>
        obtain ⟨rfl, -⟩ := Program.finishes_done_iff.mp finishes
        exact nofun
    | cons name names hypothesis =>
        rcases finishes_deleteAllBookkeeping_cons_iff.mp finishes with
          ⟨error, rfl, -⟩ | ⟨others, continues, rfl⟩
        · intro event member
          exact ⟨name, _, List.mem_singleton.mp member⟩
        · intro event member
          rcases List.mem_cons.mp member with rfl | later
          · exact ⟨name, _, rfl⟩
          · exact hypothesis continues event later
  obtain ⟨answer, others, rfl, continues⟩ := finishes_forget_iff.mp finishes
  intro event member
  rcases List.mem_cons.mp member with rfl | later
  · exact Or.inl ⟨answer, rfl⟩
  · cases answer with
    | error error => exact absurd (continues.1 ▸ later) List.not_mem_nil
    | ok keys =>
        obtain ⟨removed, removes, -⟩ := continues
        exact Or.inr (deletes removes event later)

theorem finishes_purge_iff {result : Except PurgeError Nat} :
    Program.Finishes Work.Answered purge events result ↔
      ∃ (answer : Gateway.Answer) (others : List Event), events = .wipe answer :: others ∧
        match answer with
        | .error error => others = [] ∧ result = .error (.gateway error)
        | .ok () => ∃ forgotten,
            Program.Finishes Work.Answered (Work.access (do
              let names ← Store.processedNames
              deleteAllBookkeeping names.toList
              return names.size)) others forgotten ∧ result = forgotten.mapError .store := by
  rw [purge, Program.finishes_bind_iff]
  constructor
  · rintro ⟨_, answer, others, wipes, continues, rfl⟩
    rw [Work.wipe, Program.finishes_request_iff, Work.Answered] at wipes
    subst wipes
    refine ⟨answer, others, rfl, ?_⟩
    cases answer with
    | error error => exact Program.finishes_done_iff.mp continues
    | ok accepted =>
        obtain ⟨_, forgotten, _, forgets, ends, rfl⟩ := Program.finishes_bind_iff.mp continues
        obtain ⟨rfl, rfl⟩ := Program.finishes_done_iff.mp ends
        exact ⟨forgotten, by rwa [List.append_nil], rfl⟩
  · rintro ⟨answer, others, rfl, continues⟩
    refine ⟨_, answer, others, Program.finishes_request_iff.mpr rfl, ?_, rfl⟩
    cases answer with
    | error error => exact Program.finishes_done_iff.mpr continues
    | ok accepted =>
        obtain ⟨forgotten, forgets, rfl⟩ := continues
        exact Program.finishes_bind_iff.mpr ⟨others, forgotten, [], forgets, .done _,
          (List.append_nil _).symm⟩

end Traces

end Cycle
end InventoryGauges
