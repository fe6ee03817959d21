import InventoryGauges.Proofs.Execution.Work
import InventoryGauges.Proofs.Schedule.Due
import InventoryGauges.Proofs.Store.Encoding
import Mathlib.Logic.Function.Basic

/-!
# The ledger in a store

What is kept in a store, without the keys and texts that it is kept in: the
times of markers and the gauge identities by name, and the definitions.  Every
change of the bookkeeping acts on the ledger as on maps that have nothing to do
with each other, and reading gives what the ledger says.
-/

namespace InventoryGauges

/-- What is kept in a store. -/
@[ext] structure Ledger where
  /-- The times of the markers; none where there is no marker. -/
  marker? : String → Option Timestamp
  /-- The gauge identities by name, or why they cannot be read. -/
  related : String → Except Store.Error Text.Set
  /-- The definitions in their order, or why they cannot be read. -/
  metrics : Except Store.Error (List Metric)

namespace Ledger

/-- The ledger in which nothing is kept. -/
def empty : Ledger where
  marker? := fun _ => none
  related := fun _ => .ok .empty
  metrics := .ok []

/-- A change of the bookkeeping. -/
inductive Change
  /-- Store the marker of a name. -/
  | mark (name : String) (time : Timestamp)
  /-- Store the gauge identities of a name. -/
  | relate (name : String) (ids : Text.Set)
  /-- Store the definitions. -/
  | define (metrics : List Metric)
  /-- Remove what is kept under a name. -/
  | forget (name : String)

/-- How a store is asked for a change. -/
def Change.access : Change → Store.Access Unit
  | mark name time => Store.markProcessed name time
  | relate name ids => Store.saveRelatedIds name ids
  | define metrics => Store.saveMetrics metrics
  | forget name => Store.deleteBookkeeping name

/-- The ledger after a change. -/
def after (ledger : Ledger) : Change → Ledger
  | .mark name time =>
      { ledger with marker? := Function.update ledger.marker? name (some time) }
  | .relate name ids => { ledger with related := Function.update ledger.related name (.ok ids) }
  | .define metrics => { ledger with metrics := .ok metrics }
  | .forget name =>
      { ledger with
        marker? := Function.update ledger.marker? name none
        related := Function.update ledger.related name (.ok .empty) }

/-- The ledger that is kept in the contents of a store. -/
def ofContents (contents : Store.Contents) : Ledger where
  marker? := fun name =>
    (contents.get? (Store.markerKey name)).map fun text => Store.markerTime (some text)
  related := fun name =>
    Store.reading (Store.relatedKey name) Store.idsIn? (.ok (contents.get? (Store.relatedKey name)))
  metrics :=
    Store.reading Store.metricsKey Store.metricsIn? (.ok (contents.get? Store.metricsKey))

/-- What a change makes of the contents of a store. -/
def Change.leaves (change : Change) (contents : Store.Contents) : Store.Contents :=
  (change.access.run.run Store.answer contents).2

theorem ofContents_leaves (change : Change) (contents : Store.Contents) :
    ofContents (change.leaves contents) = (ofContents contents).after change := by
  cases change with
  | mark name time =>
      have left : (Change.mark name time).leaves contents =
          contents.insert (Store.markerKey name) time.decimal := rfl
      rw [left]
      ext1
      · funext other
        by_cases same : other = name <;>
          simp [ofContents, after, same, Store.markerTime_decimal]
      · simp [ofContents, after]
      · simp [ofContents, after]
  | relate name ids =>
      have left : (Change.relate name ids).leaves contents =
          contents.insert (Store.relatedKey name) (Store.idsText ids) := rfl
      rw [left]
      ext1
      · simp [ofContents, after]
      · funext other
        by_cases same : other = name <;>
          simp [ofContents, after, same, Store.reading, Store.idsIn?]
      · simp [ofContents, after]
  | define metrics =>
      have left : (Change.define metrics).leaves contents =
          contents.insert Store.metricsKey (Metric.listText metrics) := rfl
      rw [left]
      ext1
      · simp [ofContents, after]
      · simp [ofContents, after]
      · simp [ofContents, after, Store.reading, Store.metricsIn?]
  | forget name =>
      have left : (Change.forget name).leaves contents =
          contents.eraseAll [Store.markerKey name, Store.relatedKey name] := rfl
      rw [left]
      ext1
      · funext other
        by_cases same : other = name <;> simp [ofContents, after, same]
      · funext other
        by_cases same : other = name <;>
          simp [ofContents, after, same, Store.reading, Store.idsIn?]
      · simp [ofContents, after]

/-- Changes one after another succeed, and each leaves its ledger in the store. -/
theorem run_forM_access (changes : List Change) (contents : Store.Contents) :
    ∃ left, (changes.forM Change.access).run.run Store.answer contents = (.ok (), left) ∧
      ofContents left = changes.foldl after (ofContents contents) := by
  induction changes generalizing contents with
  | nil => exact ⟨contents, rfl, rfl⟩
  | cons change changes hypothesis =>
      obtain ⟨left, runs, kept⟩ := hypothesis (change.leaves contents)
      refine ⟨left, ?_, ?_⟩
      · rw [← runs]
        cases change <;> rfl
      · rw [kept, ofContents_leaves, List.foldl_cons]

/-- What reading the bookkeeping in a store gives. -/
structure ReadsAs (ledger : Ledger) (contents : Store.Contents) : Prop where
  /-- Times are given for the names that are asked for. -/
  times : ∀ names, ∃ times,
    (Store.lastProcessedTimes names).run.run Store.answer contents = (.ok times, contents) ∧
      ∀ name, times.get? name =
        if name ∈ names then some ((ledger.marker? name).getD .epoch) else none
  /-- Gauge identities are given as they are kept. -/
  related : ∀ name,
    (Store.relatedIds name).run.run Store.answer contents = (ledger.related name, contents)
  /-- Definitions are given as they are kept. -/
  metrics : Store.listMetrics.run.run Store.answer contents = (ledger.metrics, contents)
  /-- The names with a marker are found. -/
  names : ∃ names, Store.processedNames.run.run Store.answer contents = (.ok names, contents) ∧
    ∀ name, name ∈ names ↔ (ledger.marker? name).isSome

theorem run_get_decode {Result : Type} {key : String} {decode? : Option String → Option Result}
    {rest : Option String → Store.Access Result} (contents : Store.Contents)
    (decodes : ∀ value, rest value = Store.decode key (decode? value)) :
    (Store.call (.get key) >>= rest).run.run Store.answer contents =
      (Store.reading key decode? (.ok (contents.get? key)), contents) := by
  have asked : (Store.call (.get key) >>= rest).run.run Store.answer contents =
      (rest (contents.get? key)).run.run Store.answer contents := rfl
  rw [asked, decodes, Store.reading]
  cases decode? (contents.get? key) <;> rfl

/-- Reading gives the ledger in the contents of a store. -/
theorem readsAs_ofContents (contents : Store.Contents) :
    (ofContents contents).ReadsAs contents where
  times := by
    intro names
    refine ⟨_, rfl, fun name => ?_⟩
    have texts : (names.map Store.markerKey).map contents.get? =
        names.map fun name => contents.get? (Store.markerKey name) := List.map_map
    have time (text? : Option String) : Store.markerTime text? =
        (text?.map fun text => Store.markerTime (some text)).getD .epoch := by
      cases text? <;> rfl
    rw [ofContents, ← time]
    exact (congrArg (fun texts => (Text.Map.ofList (Store.pairTimes names texts)).get? name)
      texts).trans (Store.get?_ofList_pairTimes_eq names name _)
  related := fun name => run_get_decode contents fun value => by cases value <;> rfl
  metrics := run_get_decode contents fun value => by cases value <;> rfl
  names := by
    refine ⟨_, rfl, fun name => ?_⟩
    rw [Text.Set.mem_ofList, ofContents, Option.isSome_map]
    exact Store.mem_names_of_scan contents

/-- After any changes, one after another, reading gives what these changes make
of the ledger that was in the store, which is empty in an empty store. -/
theorem readsAs_after_changes :
    ofContents Text.Map.empty = empty ∧
      ∀ (changes : List Change) (start : Store.Contents), ∃ contents,
        (changes.forM Change.access).run.run Store.answer start = (.ok (), contents) ∧
          (changes.foldl after (ofContents start)).ReadsAs contents := by
  refine ⟨rfl, fun changes start => ?_⟩
  obtain ⟨contents, runs, kept⟩ := run_forM_access changes start
  exact ⟨contents, runs, kept ▸ readsAs_ofContents contents⟩

end Ledger
end InventoryGauges
