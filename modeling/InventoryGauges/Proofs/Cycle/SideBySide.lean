import InventoryGauges.Proofs.Sampling.Footprint

/-!
# Passes side by side

Passes of metrics with different names use different keys, so that each of them
finds and leaves what it would find and leave alone.
-/

namespace InventoryGauges
namespace Cycle
namespace SideBySide

variable {schedule : Schedule} {metrics : List Metric} {endings : List Ending}
  {moments : List Moment}

/-- A single pass is side by side with none. -/
theorem single {metric : Metric} {ending : Ending} {events : List Event}
    (runs : PassRuns schedule metric events ending) :
    SideBySide schedule [metric] [ending] (events.map (Moment.mk (.pass 0))) where
  lengths := rfl
  actors := by
    intro moment member
    obtain ⟨event, -, rfl⟩ := List.mem_map.mp member
    exact ⟨0, Nat.zero_lt_one, rfl⟩
  passes := by
    intro index own ends found ended
    cases index with
    | zero =>
        obtain rfl := Option.some.inj found
        obtain rfl := Option.some.inj ended
        rw [Moment.eventsOf_map_mk]
        exact runs
    | succ index => cases found

/-- Where names are unique, a name tells the place. -/
theorem eq_of_name_eq (unique : (metrics.map Metric.name).Nodup) {place index : Nat}
    {other metric : Metric} (there : metrics[place]? = some other)
    (found : metrics[index]? = some metric) (equal : other.name = metric.name) :
    place = index := by
  have same : (metrics.map Metric.name)[place]? = (metrics.map Metric.name)[index]? := by
    rw [List.getElem?_map, List.getElem?_map, there, found]
    exact congrArg some equal
  have bound : place < (metrics.map Metric.name).length := by
    rw [List.length_map]
    exact (List.getElem?_eq_some_iff.mp there).1
  exact (List.getElem?_inj bound unique).mp same

/-- Each moment belongs to the pass of one of the metrics. -/
theorem exists_pass (aside : SideBySide schedule metrics endings moments) {moment : Moment}
    (member : moment ∈ moments) :
    ∃ index metric ending, moment.actor = .pass index ∧ metrics[index]? = some metric ∧
      PassRuns schedule metric (Moment.eventsOf (.pass index) moments) ending ∧
      moment.event ∈ Moment.eventsOf (.pass index) moments := by
  obtain ⟨index, bound, actor⟩ := aside.actors moment member
  have inEndings : index < endings.length := aside.lengths ▸ bound
  have found : metrics[index]? = some metrics[index] := List.getElem?_eq_getElem bound
  refine ⟨index, metrics[index], endings[index], actor, found,
    aside.passes index _ _ found (List.getElem?_eq_getElem inEndings), ?_⟩
  rw [Moment.mem_eventsOf, ← actor]
  exact member

theorem does (aside : SideBySide schedule metrics endings moments) {moment : Moment}
    (member : moment ∈ moments) :
    ∃ index metric, moment.actor = .pass index ∧ metrics[index]? = some metric ∧
      Sampling.Does metric moment.event := by
  obtain ⟨index, metric, ending, actor, found, runs, own⟩ := aside.exists_pass member
  exact ⟨index, metric, actor, found, runs.does _ own⟩

section Unique

variable (aside : SideBySide schedule metrics endings moments)
  (unique : (metrics.map Metric.name).Nodup)
  {index : Nat} {metric : Metric} (found : metrics[index]? = some metric)
include aside unique found

/-- Passes leave each other's keys alone. -/
theorem untouched {moment : Moment} (member : moment ∈ moments)
    (other : moment.actor ≠ .pass index) {key : String} (own : Store.IsKeyOf metric.name key) :
    moment.event.written? key = none := by
  obtain ⟨place, foreign, actor, there, does⟩ := aside.does member
  apply Event.written?_of_within does.within
  intro theirs
  rw [eq_of_name_eq unique there found (Store.eq_of_isKeyOf theirs own)] at actor
  exact other actor

/-- Up to any moment, a pass does what it could do alone, and its keys hold
what they would hold then. -/
theorem alone {site : Site} {earlier later : List Moment} (split : moments = earlier ++ later)
    (lawful : site.Lawful (moments.map Moment.event)) :
    site.Lawful (Moment.eventsOf (.pass index) earlier) ∧
      ∀ key, Store.IsKeyOf metric.name key →
        (site.afterAll (Moment.eventsOf (.pass index) earlier)).contents.get? key =
          (site.afterAll (earlier.map Moment.event)).contents.get? key := by
  have inMoments {moment : Moment} (member : moment ∈ earlier) : moment ∈ moments :=
    split ▸ List.mem_append_left later member
  have within : ∀ event ∈ Moment.eventsOf (.pass index) earlier,
      event.Within (Store.IsKeyOf metric.name) := by
    intro event member
    obtain ⟨place, own, actor, there, does⟩ :=
      aside.does (inMoments (Moment.mem_eventsOf.mp member))
    obtain rfl := Actor.pass.inj actor
    obtain rfl := Option.some.inj (found.symm.trans there)
    exact does.within
  have lawfulEarlier : site.Lawful (earlier.map Moment.event) := by
    rw [split, List.map_append] at lawful
    exact (Site.lawful_append.mp lawful).1
  exact Site.lawful_eventsOf within
    (fun moment member other key own => aside.untouched unique found (inMoments member) other own)
    (fun key own => rfl) lawfulEarlier

end Unique

end SideBySide
end Cycle
end InventoryGauges
