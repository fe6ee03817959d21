import InventoryGauges.Proofs.Execution.Event
import InventoryGauges.Sampling

/-!
# Answers of the gateway

What follows from the answers to a publication or a withdrawal: which gauges
are live then, and which were refused.
-/

namespace InventoryGauges
namespace Sampling

/-- The identities whose withdrawal was refused. -/
def refusedIds (ended : List Gateway.Ended) : List String :=
  ended.filterMap fun
    | (.delete id, .error _) => some id
    | _ => none

/-- What a withdrawal does that ends with some answers. -/
def withdrawal (ended : List Gateway.Ended) : List Event :=
  ended.map Event.ofEnded ++
    [.count .gaugesDeleted (ended.length - (refusedIds ended).length),
      .count .deleteFailures (refusedIds ended).length]

/-- The number of refused calls. -/
def refusals (ended : List Gateway.Ended) : Nat :=
  (ended.filter fun call => !call.2.isAccepted).length

/-- What a publication does that ends with some answers. -/
def publication (ended : List Gateway.Ended) : List Event :=
  ended.map Event.ofEnded ++
    [.count .gaugesPushed (ended.length - refusals ended), .count .pushFailures (refusals ended)]

theorem mem_refusedIds {ended : List Gateway.Ended} {id : String} :
    id ∈ refusedIds ended ↔ ∃ error, (Gateway.Call.delete id, .error error) ∈ ended := by
  rw [refusedIds, List.mem_filterMap]
  constructor
  · rintro ⟨⟨call, answer⟩, member, found⟩
    split at found
    · rename_i other error equal
      obtain ⟨rfl, rfl⟩ := Prod.mk.injEq _ _ _ _ ▸ equal
      obtain rfl := Option.some.inj found
      exact ⟨error, member⟩
    · exact absurd found (by simp)
  · rintro ⟨error, member⟩
    exact ⟨_, member, rfl⟩

theorem delete_mem_withdrawal_iff {ended : List Gateway.Ended} {id : String}
    {given : Gateway.Answer} :
    .gateway (.delete id) given ∈ withdrawal ended ↔ (.delete id, given) ∈ ended := by
  rw [withdrawal, List.mem_append, List.mem_map]
  constructor
  · rintro (⟨⟨call, answer⟩, member, equal⟩ | counted)
    · cases equal
      exact member
    · simp at counted
  · exact fun member => Or.inl ⟨_, member, rfl⟩

/-- Calls to the gateway and counts are all that is in such a list. -/
theorem called_or_counted {ended : List Gateway.Ended} {first second : Counter}
    {one other : Nat} {event : Event}
    (member : event ∈ ended.map Event.ofEnded ++ [.count first one, .count second other]) :
    (∃ call answer, event = .gateway call answer) ∨
      ∃ counter amount, event = .count counter amount := by
  rcases List.mem_append.mp member with called | counted
  · obtain ⟨⟨call, answer⟩, -, rfl⟩ := List.mem_map.mp called
    exact Or.inl ⟨call, answer, rfl⟩
  · simp only [List.mem_cons, List.not_mem_nil, or_false] at counted
    rcases counted with rfl | rfl <;> exact Or.inr ⟨_, _, rfl⟩

theorem written?_of_mem_withdrawal {ended : List Gateway.Ended} {event : Event} (key : String)
    (member : event ∈ withdrawal ended) : event.written? key = none := by
  rcases called_or_counted member with ⟨_, _, rfl⟩ | ⟨_, _, rfl⟩ <;> rfl

/-- To read and then to withdraw writes nothing. -/
theorem written?_of_mem_read_withdrawal {ended : List Gateway.Ended} {other : String}
    {answer : Except Store.Error (Option String)} (key : String) :
    ∀ event ∈ .store (.get other) answer :: withdrawal ended, event.written? key = none := by
  intro event member
  rcases List.mem_cons.mp member with rfl | withdrawn
  · exact Event.written?_get key other answer
  · exact written?_of_mem_withdrawal key withdrawn

theorem written?_of_mem_publication {ended : List Gateway.Ended} {event : Event} (key : String)
    (member : event ∈ publication ended) : event.written? key = none := by
  rcases called_or_counted member with ⟨_, _, rfl⟩ | ⟨_, _, rfl⟩ <;> rfl

section Withdrawal

variable {ended : List Gateway.Ended} {ids : List String}
  (same : (ended.map Prod.fst).Perm (ids.map .delete))
include same

/-- Each gauge to be withdrawn was withdrawn or refused. -/
theorem withdrawn_or_refused {id : String} (member : id ∈ ids) :
    .gateway (.delete id) (.ok ()) ∈ withdrawal ended ∨ id ∈ refusedIds ended := by
  have asked : Gateway.Call.delete id ∈ ended.map Prod.fst :=
    same.mem_iff.mpr (List.mem_map_of_mem member)
  obtain ⟨⟨call, answer⟩, found, rfl⟩ := List.mem_map.mp asked
  cases answer with
  | error error => exact Or.inr (mem_refusedIds.mpr ⟨error, found⟩)
  | ok accepted =>
      exact Or.inl (List.mem_append_left _ (List.mem_map.mpr ⟨_, found, rfl⟩))

/-- Only gauges that were to be withdrawn are refused. -/
theorem mem_of_mem_refusedIds {id : String} (refused : id ∈ refusedIds ended) : id ∈ ids := by
  obtain ⟨error, found⟩ := mem_refusedIds.mp refused
  obtain ⟨other, member, equal⟩ :=
    List.mem_map.mp (same.mem_iff.mp (List.mem_map_of_mem (f := Prod.fst) found))
  obtain rfl := Gateway.Call.delete.inj equal
  exact member

/-- What a withdrawal does is to call for the withdrawal of its gauges, and to
count. -/
theorem cases_of_mem_withdrawal {event : Event} (member : event ∈ withdrawal ended) :
    (∃ id ∈ ids, ∃ answer, event = .gateway (.delete id) answer) ∨
      ∃ counter amount, event = .count counter amount := by
  rcases List.mem_append.mp member with called | counted
  · obtain ⟨⟨call, answer⟩, found, rfl⟩ := List.mem_map.mp called
    have asked := same.mem_iff.mp (List.mem_map_of_mem (f := Prod.fst) found)
    obtain ⟨id, inIds, equal⟩ := List.mem_map.mp asked
    exact Or.inl ⟨id, inIds, answer, congrArg (Event.gateway · answer) equal.symm⟩
  · refine Or.inr ?_
    simp only [List.mem_cons, List.not_mem_nil, or_false] at counted
    rcases counted with rfl | rfl <;> exact ⟨_, _, rfl⟩

end Withdrawal

section Publication

variable {ended : List Gateway.Ended} {samples : List Gauge.Sample}
  (same : (ended.map Prod.fst).Perm (samples.map .push))
include same

/-- What a publication does is to push its samples, and to count. -/
theorem cases_of_mem_publication {event : Event} (member : event ∈ publication ended) :
    (∃ sample ∈ samples, ∃ answer, event = .gateway (.push sample) answer) ∨
      ∃ counter amount, event = .count counter amount := by
  rcases List.mem_append.mp member with called | counted
  · obtain ⟨⟨call, answer⟩, found, rfl⟩ := List.mem_map.mp called
    have asked := same.mem_iff.mp (List.mem_map_of_mem (f := Prod.fst) found)
    obtain ⟨sample, inSamples, equal⟩ := List.mem_map.mp asked
    exact Or.inl ⟨sample, inSamples, answer, congrArg (Event.gateway · answer) equal.symm⟩
  · refine Or.inr ?_
    simp only [List.mem_cons, List.not_mem_nil, or_false] at counted
    rcases counted with rfl | rfl <;> exact ⟨_, _, rfl⟩

end Publication

end Sampling
end InventoryGauges
