import InventoryGauges.Proofs.Catalog.Trace
import InventoryGauges.Proofs.Store.Encoding

/-!
# Unique names

Changes of the catalog keep the names of the stored definitions unique.
-/

namespace InventoryGauges
namespace Catalog

open Work (Answered)

variable {events : List Event}

/-- The names of stored definitions are unique, if they can be read. -/
def UniqueIn (value? : Option String) : Prop :=
  ∀ metrics, Store.metricsIn? value? = some metrics → (metrics.map Metric.name).Nodup

theorem uniqueIn_listText {metrics : List Metric} (unique : (metrics.map Metric.name).Nodup) :
    UniqueIn (some (Metric.listText metrics)) := by
  intro others decoded
  rw [Store.metricsIn?, Metric.ofListText?_listText] at decoded
  obtain rfl := Option.some.inj decoded
  exact unique

theorem unique_of_reading {site : Site} {answer : Except Store.Error (Option String)}
    {metrics : List Metric} (before : UniqueIn (site.contents.get? Store.metricsKey))
    (admitted : site.Admits (.store (.get Store.metricsKey) answer))
    (read : Store.reading Store.metricsKey Store.metricsIn? answer = .ok metrics) :
    (metrics.map Metric.name).Nodup := by
  obtain ⟨text?, rfl, decoded⟩ := Store.reading_eq_ok_iff.mp read
  obtain rfl : text? = site.contents.get? Store.metricsKey := admitted
  exact before metrics decoded

/-- A change of the catalog keeps the names unique. -/
theorem Changes.uniqueIn {site : Site} (changes : Changes events) (lawful : site.Lawful events)
    (before : UniqueIn (site.contents.get? Store.metricsKey)) :
    UniqueIn ((site.afterAll events).contents.get? Store.metricsKey) := by
  apply Site.get?_contents_afterAll_induct before
  intro event member value? writes
  cases changes with
  | nothing => cases member
  | read answer =>
      obtain rfl := List.mem_singleton.mp member
      rw [Event.written?_get] at writes
      cases writes
  | write decoded unique answer =>
      simp only [List.mem_cons, List.not_mem_nil, or_false] at member
      rcases member with rfl | rfl
      · cases writes
      · obtain ⟨-, rfl⟩ := Event.eq_of_written?_set writes
        exact uniqueIn_listText (unique (unique_of_reading before lawful.1
          (Store.reading_eq_ok_iff.mpr ⟨_, rfl, decoded⟩)))

end Catalog
end InventoryGauges
