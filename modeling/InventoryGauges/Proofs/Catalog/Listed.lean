import InventoryGauges.Proofs.Catalog.Unique
import InventoryGauges.Proofs.Cycle.Timeline

/-!
# Definitions at any time

Changes of the catalog may overlap.  Each of them writes what it made of the
definitions that it read, so that one may undo another, but the names of the
stored definitions are unique at any time.
-/

namespace InventoryGauges
namespace Catalog

/-- A change of the catalog may begin with these events. -/
def Begins (events : List Event) : Prop :=
  (∃ metric, Work.Begins (Work.ofCalls (add metric).run) events) ∨
    ∃ name, Work.Begins (Work.access (delete name)) events

theorem Begins.exists_changes {events : List Event} (begins : Begins events) :
    ∃ rest, Changes (events ++ rest) := by
  rcases begins with ⟨metric, rest, result, finishes⟩ | ⟨name, rest, result, finishes⟩
  · exact ⟨rest, changes_of_finishes_add finishes⟩
  · exact ⟨rest, changes_of_finishes_delete finishes⟩

/-- The value is a list of definitions with unique names. -/
def ListedIn (value? : Option String) : Prop :=
  ∃ metrics, Store.metricsIn? value? = some metrics ∧ (metrics.map Metric.name).Nodup

theorem listedIn_none : ListedIn none :=
  ⟨[], rfl, List.nodup_nil⟩

theorem ListedIn.uniqueIn {value? : Option String} (listed : ListedIn value?) :
    UniqueIn value? := by
  obtain ⟨metrics, decoded, unique⟩ := listed
  intro others found
  obtain rfl := Option.some.inj (decoded.symm.trans found)
  exact unique

/-- What a change writes lists definitions if what it read before did. -/
theorem Begins.listedIn {first last : List Event} {event : Event} {value? : Option String}
    (begins : Begins (first ++ event :: last))
    (writes : event.written? Store.metricsKey = some value?) :
    ∃ text?, first = [.store (.get Store.metricsKey) (.ok text?)] ∧
      (ListedIn text? → ListedIn value?) := by
  obtain ⟨rest, changes⟩ := begins.exists_changes
  generalize shape : first ++ event :: last ++ rest = events at changes
  cases changes with
  | nothing => simp at shape
  | read answer =>
      cases first with
      | nil =>
          obtain rfl := (List.cons.inj shape).1
          rw [Event.written?_get] at writes
          cases writes
      | cons head first => simp at shape
  | @write text? metrics written decoded unique answer =>
      cases first with
      | nil =>
          obtain rfl := (List.cons.inj shape).1
          rw [Event.written?_get] at writes
          cases writes
      | cons head first =>
          obtain ⟨rfl, tail⟩ := List.cons.inj shape
          cases first with
          | cons other first => simp at tail
          | nil =>
              obtain rfl := (List.cons.inj tail).1
              obtain ⟨-, rfl⟩ := Event.eq_of_written?_set writes
              refine ⟨text?, rfl, ?_⟩
              rintro ⟨others, found, distinct⟩
              obtain rfl := Option.some.inj (decoded.symm.trans found)
              exact ⟨written, Metric.ofListText?_listText written, unique distinct⟩

end Catalog

namespace Timeline

variable {schedule : Schedule} {site : Site} {operations : List (List Moment)} {steps : List Step}

/-- The poller does not write the definitions. -/
theorem written?_metricsKey (timeline : Timeline schedule site operations steps) {moment : Moment}
    (member : .poller moment ∈ steps) : moment.event.written? Store.metricsKey = none := by
  have done := Step.mem_moments.mpr member
  rw [timeline.moments] at done
  obtain ⟨moments, inOperations, own⟩ := List.mem_flatten.mp done
  obtain ⟨operation, polling, runs⟩ := timeline.operations moments inOperations
  obtain ⟨opening, others, rfl, opens, bookkeeping⟩ := runs.exists_opening polling
  rcases List.mem_append.mp own with early | later
  · rcases opens with rfl | ⟨answer, rfl⟩
    · cases early
    · obtain rfl := List.mem_singleton.mp early
      exact Event.written?_get _ _ answer
  · exact Event.written?_metricsKey_of_isBookkeeping (bookkeeping moment later)

/-- A change that writes made what it writes of the definitions at a time before. -/
theorem exists_read (timeline : Timeline schedule site operations steps)
    (catalog : ∀ index, Catalog.Begins (Step.changesOf index steps)) {before later : List Step}
    {index : Nat} {event : Event} {value? : Option String}
    (split : steps = before ++ .change index event :: later)
    (writes : event.written? Store.metricsKey = some value?) :
    ∃ first step rest, before = first ++ step :: rest ∧
      (Catalog.ListedIn ((site.afterSteps first).contents.get? Store.metricsKey) →
        Catalog.ListedIn value?) := by
  have begins := catalog index
  have own : Step.changesOf index steps =
      Step.changesOf index before ++ event :: Step.changesOf index later := by
    simp [split, Step.changesOf, Step.changing?]
  rw [own] at begins
  obtain ⟨text?, read, lists⟩ := begins.listedIn writes
  have found : .change index (.store (.get Store.metricsKey) (.ok text?)) ∈ before :=
    Step.mem_changesOf.mp (read ▸ List.mem_singleton_self _)
  obtain ⟨first, rest, rfl⟩ := List.append_of_mem found
  have lawful := timeline.lawful
  rw [split, List.append_assoc] at lawful
  have admitted := (Site.lawful_steps_append.mp lawful).2.1
  exact ⟨first, _, rest, rfl, fun listed => lists (admitted ▸ listed)⟩

/-- However changes of the catalog overlap, with operations of the poller and
with each other, what is stored lists definitions with unique names. -/
theorem listedIn (timeline : Timeline schedule site operations steps)
    (catalog : ∀ index, Catalog.Begins (Step.changesOf index steps))
    (start : Catalog.ListedIn (site.contents.get? Store.metricsKey)) {earlier later : List Step}
    (split : steps = earlier ++ later) :
    Catalog.ListedIn ((site.afterSteps earlier).contents.get? Store.metricsKey) := by
  -- A write depends on what was read some steps before it.
  induction length : earlier.length using Nat.strongRecOn generalizing earlier later with
  | ind _ hypothesis =>
      rcases List.eq_nil_or_concat earlier with rfl | ⟨before, step, rfl⟩
      · exact start
      · rw [List.concat_eq_append] at split length ⊢
        rw [List.length_append, List.length_singleton] at length
        rw [List.append_assoc, List.singleton_append] at split
        have last : site.afterSteps (before ++ [step]) =
            (site.afterSteps before).after step.event :=
          Site.afterSteps_append site before [step]
        rw [last, Site.get?_contents_after]
        cases writes : step.event.written? Store.metricsKey with
        | none => exact hypothesis before.length (by omega) split rfl
        | some value? =>
            cases step with
            | poller moment =>
                have member : .poller moment ∈ steps := by simp [split]
                cases (timeline.written?_metricsKey member).symm.trans writes
            | change index event =>
                obtain ⟨first, other, rest, rfl, lists⟩ :=
                  timeline.exists_read catalog split writes
                rw [List.length_append] at length
                rw [List.append_assoc] at split
                exact lists (hypothesis first.length (by omega) split rfl)

end Timeline
end InventoryGauges
