import InventoryGauges.Catalog
import InventoryGauges.Proofs.Execution.Work

/-!
# Traces of changes of the catalog

What adding and removing a definition does, as lists of events.
-/

namespace InventoryGauges
namespace Catalog

open Work (Answered)

section Traces

variable {events : List Event}

theorem finishes_delete_iff {name : String} {result : Except Store.Error (List Metric)} :
    Program.Finishes Answered (Work.access (delete name)) events result ↔
      ∃ answer others, events = .store (.get Store.metricsKey) answer :: others ∧
        match Store.reading Store.metricsKey Store.metricsIn? answer with
        | .error error => others = [] ∧ result = .error error
        | .ok metrics =>
            let kept := metrics.filter fun metric => metric.name != name
            if kept.length = metrics.length then others = [] ∧ result = .ok kept
            else ∃ answer : Except Store.Error Unit,
              others = [.store (.set Store.metricsKey (Metric.listText kept)) answer] ∧
                result = answer.map fun _ => kept := by
  rw [delete, Work.access, Work.finishes_ofCalls_bind_iff]
  constructor
  · rintro ⟨_, outcome, others, lists, continues, rfl⟩
    obtain ⟨answer, rfl, rfl⟩ := Work.finishes_listMetrics_iff.mp lists
    refine ⟨answer, others, rfl, ?_⟩
    generalize Store.reading Store.metricsKey Store.metricsIn? answer = outcome at continues ⊢
    cases outcome with
    | error error => exact continues
    | ok metrics =>
        dsimp only at continues ⊢
        split at continues
        · rename_i different
          rw [if_neg different]
          obtain ⟨_, answer, _, saves, ends, rfl⟩ :=
            Work.finishes_ofCalls_bind_iff.mp continues
          obtain rfl := Work.finishes_access_call_iff.mp saves
          cases answer with
          | error error =>
              obtain ⟨rfl, rfl⟩ := ends
              exact ⟨.error error, rfl, rfl⟩
          | ok saved =>
              obtain ⟨rfl, rfl⟩ := Program.finishes_done_iff.mp ends
              exact ⟨.ok (), rfl, rfl⟩
        · rename_i equal
          rw [if_pos (Decidable.not_not.mp equal)]
          exact Program.finishes_done_iff.mp continues
  · rintro ⟨answer, others, rfl, continues⟩
    refine ⟨_, _, others, Work.finishes_listMetrics_iff.mpr ⟨answer, rfl, rfl⟩, ?_, rfl⟩
    generalize Store.reading Store.metricsKey Store.metricsIn? answer = outcome at continues ⊢
    cases outcome with
    | error error => exact continues
    | ok metrics =>
        dsimp only at continues ⊢
        split at continues
        · rename_i equal
          rw [if_neg (Decidable.not_not.mpr equal)]
          exact Program.finishes_done_iff.mpr continues
        · rename_i different
          rw [if_pos different]
          obtain ⟨answer, rfl, rfl⟩ := continues
          refine Work.finishes_ofCalls_bind_iff.mpr ⟨_, answer, [],
            Work.finishes_access_call_iff.mpr rfl, ?_, rfl⟩
          cases answer with
          | error error => exact ⟨rfl, rfl⟩
          | ok saved => exact .done _

theorem finishes_access_iff {Result : Type} {reached : Store.Access Result}
    {result : Except Error Result} :
    Program.Finishes Answered (Work.ofCalls (access reached).run) events result ↔
      ∃ outcome, Program.Finishes Answered (Work.access reached) events outcome ∧
        result = outcome.mapError .store := by
  have adapted : (access reached).run =
      reached.run >>= fun outcome => pure (outcome.mapError .store) := rfl
  rw [adapted, Work.ofCalls_bind, Program.finishes_bind_iff]
  constructor
  · rintro ⟨_, outcome, _, reaches, ends, rfl⟩
    obtain ⟨rfl, rfl⟩ := Program.finishes_done_iff.mp ends
    exact ⟨outcome, by rwa [List.append_nil], rfl⟩
  · rintro ⟨outcome, reaches, rfl⟩
    exact ⟨events, outcome, [], reaches, .done _, (List.append_nil _).symm⟩

theorem finishes_add_iff {metric : Metric} {result : Except Error (List Metric)} :
    Program.Finishes Answered (Work.ofCalls (add metric).run) events result ↔
      match metric.check with
      | .error rejection => events = [] ∧ result = .error (.rejected rejection)
      | .ok () => ∃ answer others, events = .store (.get Store.metricsKey) answer :: others ∧
          match Store.reading Store.metricsKey Store.metricsIn? answer with
          | .error error => others = [] ∧ result = .error (.store error)
          | .ok metrics =>
              if metrics.any fun other => other.name == metric.name then
                others = [] ∧ result = .error (.duplicate metric.name)
              else ∃ answer : Except Store.Error Unit,
                others = [.store (.set Store.metricsKey (Metric.listText (metrics ++ [metric])))
                  answer] ∧
                  result = (answer.map fun _ => metrics ++ [metric]).mapError .store := by
  rw [add]
  cases metric.check with
  | error rejection => exact Program.finishes_done_iff
  | ok kept =>
      dsimp only
      rw [Work.finishes_ofCalls_bind_iff]
      constructor
      · rintro ⟨_, outcome, others, lists, continues, rfl⟩
        obtain ⟨listed, loads, rfl⟩ := finishes_access_iff.mp lists
        obtain ⟨answer, rfl, rfl⟩ := Work.finishes_listMetrics_iff.mp loads
        refine ⟨answer, others, rfl, ?_⟩
        generalize Store.reading Store.metricsKey Store.metricsIn? answer = outcome at continues ⊢
        cases outcome with
        | error error => exact continues
        | ok metrics =>
            dsimp only [Except.mapError] at continues ⊢
            split at continues
            · rw [if_pos ‹_›]
              exact Program.finishes_done_iff.mp continues
            · rw [if_neg ‹_›]
              obtain ⟨_, saved, _, saves, ends, rfl⟩ := Work.finishes_ofCalls_bind_iff.mp continues
              obtain ⟨answer, writes, rfl⟩ := finishes_access_iff.mp saves
              obtain rfl := Work.finishes_access_call_iff.mp writes
              cases answer with
              | error error =>
                  obtain ⟨rfl, rfl⟩ := ends
                  exact ⟨.error error, rfl, rfl⟩
              | ok saved =>
                  obtain ⟨rfl, rfl⟩ := Program.finishes_done_iff.mp ends
                  exact ⟨.ok (), rfl, rfl⟩
      · rintro ⟨answer, others, rfl, continues⟩
        refine ⟨_, _, others, finishes_access_iff.mpr
          ⟨_, Work.finishes_listMetrics_iff.mpr ⟨answer, rfl, rfl⟩, rfl⟩, ?_, rfl⟩
        generalize Store.reading Store.metricsKey Store.metricsIn? answer = outcome at continues ⊢
        cases outcome with
        | error error => exact continues
        | ok metrics =>
            dsimp only [Except.mapError] at continues ⊢
            split at continues
            · rw [if_pos ‹_›]
              exact Program.finishes_done_iff.mpr continues
            · rw [if_neg ‹_›]
              obtain ⟨answer, rfl, rfl⟩ := continues
              refine Work.finishes_ofCalls_bind_iff.mpr ⟨_, answer.mapError .store, [],
                finishes_access_iff.mpr ⟨answer, Work.finishes_access_call_iff.mpr rfl, rfl⟩,
                ?_, rfl⟩
              cases answer with
              | error error => exact ⟨rfl, rfl⟩
              | ok saved => exact .done _

/-- What a change of the catalog may do: nothing, to read the definitions, or to
read them and to write others, which have unique names if the former had. -/
inductive Changes : List Event → Prop
  | nothing : Changes []
  | read (answer : Except Store.Error (Option String)) :
      Changes [.store (.get Store.metricsKey) answer]
  | write {text? : Option String} {metrics written : List Metric}
      (decoded : Store.metricsIn? text? = some metrics)
      (unique : (metrics.map Metric.name).Nodup → (written.map Metric.name).Nodup)
      (answer : Except Store.Error Unit) :
      Changes [.store (.get Store.metricsKey) (.ok text?),
        .store (.set Store.metricsKey (Metric.listText written)) answer]

theorem changes_of_finishes_delete {name : String} {result : Except Store.Error (List Metric)}
    (finishes : Program.Finishes Answered (Work.access (delete name)) events result) :
    Changes events := by
  obtain ⟨answer, others, rfl, continues⟩ := finishes_delete_iff.mp finishes
  cases read : Store.reading Store.metricsKey Store.metricsIn? answer with
  | error error =>
      rw [read] at continues
      obtain ⟨rfl, -⟩ := continues
      exact .read answer
  | ok metrics =>
      rw [read] at continues
      dsimp only at continues
      split at continues
      · obtain ⟨rfl, -⟩ := continues
        exact .read answer
      · obtain ⟨saved, rfl, -⟩ := continues
        obtain ⟨text?, rfl, decoded⟩ := Store.reading_eq_ok_iff.mp read
        exact .write decoded
          (fun unique => unique.sublist (List.filter_sublist.map Metric.name)) saved

/-- A definition with a fresh name keeps the names unique. -/
theorem unique_append_of_fresh {metrics : List Metric} {metric : Metric}
    (unique : (metrics.map Metric.name).Nodup)
    (fresh : ¬ metrics.any fun other => other.name == metric.name) :
    ((metrics ++ [metric]).map Metric.name).Nodup := by
  rw [List.map_append, List.nodup_append]
  refine ⟨unique, by simp, ?_⟩
  intro left inLeft right inRight
  obtain ⟨other, member, rfl⟩ := List.mem_map.mp inLeft
  obtain rfl := List.mem_singleton.mp inRight
  intro equal
  exact fresh (List.any_eq_true.mpr ⟨other, member, beq_iff_eq.mpr equal⟩)

theorem changes_of_finishes_add {metric : Metric} {result : Except Error (List Metric)}
    (finishes : Program.Finishes Answered (Work.ofCalls (add metric).run) events result) :
    Changes events := by
  have whole := finishes_add_iff.mp finishes
  generalize metric.check = checked at whole
  cases checked with
  | error rejection =>
      obtain ⟨rfl, -⟩ := whole
      exact .nothing
  | ok kept =>
      obtain ⟨answer, others, rfl, continues⟩ := whole
      cases read : Store.reading Store.metricsKey Store.metricsIn? answer with
      | error error =>
          rw [read] at continues
          obtain ⟨rfl, -⟩ := continues
          exact .read answer
      | ok metrics =>
          rw [read] at continues
          dsimp only at continues
          split at continues
          · obtain ⟨rfl, -⟩ := continues
            exact .read answer
          · rename_i fresh
            obtain ⟨saved, rfl, -⟩ := continues
            obtain ⟨text?, rfl, decoded⟩ := Store.reading_eq_ok_iff.mp read
            exact .write decoded (fun unique => unique_append_of_fresh unique fresh) saved

/-- A change of the catalog only uses the list of definitions. -/
theorem Changes.exists_call (changes : Changes events) :
    ∀ event ∈ events, ∃ call answer, event = .store call answer ∧
      call.Within (· = Store.metricsKey) := by
  cases changes with
  | nothing => exact nofun
  | read answer =>
      intro event member
      exact ⟨.get _, answer, List.mem_singleton.mp member, rfl⟩
  | write decoded unique answer =>
      intro event member
      simp only [List.mem_cons, List.not_mem_nil, or_false] at member
      rcases member with rfl | rfl
      · exact ⟨.get _, _, rfl, rfl⟩
      · exact ⟨.set _ _, answer, rfl, rfl⟩

end Traces

end Catalog
end InventoryGauges
