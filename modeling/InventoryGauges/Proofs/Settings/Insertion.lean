import InventoryGauges.Proofs.Settings.Precedence

/-!
# One more variable

How the layer of the environment changes with one of its variables: not at all,
if the name of the variable has no path, and else in one key.
-/

namespace InventoryGauges
namespace Settings
namespace Variables

/-- Where a variable is put among others does not depend on its content. -/
theorem exists_place_eq (name : String) (entries : List (String × String)) :
    ∃ before after, (∀ content,
        Text.Map.place name content entries = before ++ (name, content) :: after) ∧
      ∀ entry ∈ before ++ after, entry ∈ entries := by
  induction entries with
  | nil => exact ⟨[], [], fun _ => rfl, fun _ => id⟩
  | cons entry entries hypothesis =>
      by_cases earlier : name < entry.1
      · exact ⟨[], entry :: entries, fun _ => by rw [Text.Map.place, if_pos earlier]; rfl,
          fun _ => id⟩
      · by_cases same : name = entry.1
        · exact ⟨[], entries, fun _ => by rw [Text.Map.place, if_neg earlier, if_pos same]; rfl,
            fun _ => List.mem_cons_of_mem entry⟩
        · obtain ⟨before, after, placed, inside⟩ := hypothesis
          refine ⟨entry :: before, after, fun content => ?_, ?_⟩
          · rw [Text.Map.place, if_neg earlier, if_neg same, placed, List.cons_append]
          · exact List.forall_mem_cons.mpr ⟨List.mem_cons_self, fun other member =>
              List.mem_cons_of_mem entry (inside other member)⟩

/-- A variable whose name has no path is of no concern. -/
theorem layer_insert_of_none {path? : String → Option (List String)} {name : String}
    (none : path? name = none) (environment : Text.Map String) (content : String) :
    layer path? (environment.insert name content) = layer path? environment := by
  rw [layer, layer, Text.Map.insert]
  dsimp only
  generalize Value.table [] = value
  induction environment.entries generalizing value with
  | nil => rw [Text.Map.place, List.foldl_cons, none]
  | cons entry entries hypothesis =>
      rw [Text.Map.place]
      split
      · rw [List.foldl_cons, none]
      · split
        · rename_i same
          rw [List.foldl_cons, List.foldl_cons, ← same, none]
        · exact hypothesis _

theorem last?_append {path? : String → Option (List String)} {path : List String}
    (first later : List (String × String)) :
    last? path? path (first ++ later) = (last? path? path later).or (last? path? path first) := by
  induction first with
  | nil => exact Option.or_none.symm
  | cons entry first hypothesis => rw [List.cons_append, last?, last?, hypothesis, Option.or_assoc]

theorem last?_eq_none {path? : String → Option (List String)} {path : List String}
    {entries : List (String × String)} (others : ∀ entry ∈ entries, path? entry.1 ≠ some path) :
    last? path? path entries = none := by
  induction entries with
  | nil => rfl
  | cons entry entries hypothesis =>
      obtain ⟨own, rest⟩ := List.forall_mem_cons.mp others
      rw [last?, hypothesis rest, if_neg own, Option.or_none]

section Plain

variable {environment : Text.Map String} {name part key : String}

theorem sameBut_nested (value other : Value) (part key : String) :
    Value.SameBut part key (nested value [part, key]) (nested other [part, key]) where
  hasLeft := ⟨⟨_, rfl⟩, _, if_pos rfl, _, rfl⟩
  hasRight := ⟨⟨_, rfl⟩, _, if_pos rfl, _, rfl⟩
  lookup?_eq := fun name different => (if_neg different).trans (if_neg different).symm
  given?_eq := by
    intro name different
    have apart : ¬ [part, key] = [part, name] := by simpa using Ne.symm different
    rw [given?_nested, given?_nested, if_neg apart, if_neg apart]

/-- Plain variables laid over values that differ in one key. -/
theorem sameBut_foldl_layOver (entries : List (String × String)) {left right : Value}
    (same : Value.SameBut part key left right) :
    let lay (value : Value) (entry : String × String) :=
      match plainPath? entry.1 with
      | some path => (nested (valueOf entry.2) path).layOver value
      | none => value
    Value.SameBut part key (entries.foldl lay left) (entries.foldl lay right) := by
  intro lay
  induction entries generalizing left right with
  | nil => exact same
  | cons entry entries hypothesis =>
      refine hypothesis ?_
      dsimp only [lay]
      cases found : plainPath? entry.1 with
      | none => exact same
      | some path =>
          obtain ⟨part, key, rfl⟩ := exists_keys_of_plainPath? found
          exact same.under (isSectioned_nested _ _ _ _)

variable (found : plainPath? name = some [part, key])
include found

/-- What two contents of a plain variable lead to differs in its own key only. -/
theorem sameBut_layer_insert (environment : Text.Map String) (content changed : String) :
    Value.SameBut part key (layer plainPath? (environment.insert name content))
      (layer plainPath? (environment.insert name changed)) := by
  obtain ⟨before, after, placed, -⟩ := exists_place_eq name environment.entries
  have names : ∀ entry ∈ before, ∀ path, plainPath? entry.1 = some path →
      ∃ part key, path = [part, key] :=
    fun _ _ _ => exists_keys_of_plainPath?
  have below := (given?_foldl_layOver key names (isSectioned_empty part)).1.isTable
  simp only [layer, Text.Map.insert, placed, List.foldl_append, List.foldl_cons, found]
  exact sameBut_foldl_layOver after ((sameBut_nested _ _ part key).layOver below)

/-- A plain variable counts if no other name stands for its setting. -/
theorem last?_insert (alone : ∀ entry ∈ environment.entries,
      plainPath? entry.1 = some [part, key] → entry.1 = name) (content : String) :
    last? plainPath? [part, key] (environment.insert name content).entries =
      some (valueOf content) := by
  obtain ⟨before, after, placed, inside⟩ := exists_place_eq name environment.entries
  have shape : (environment.insert name content).entries = before ++ (name, content) :: after :=
    placed content
  have increasing := (environment.insert name content).increasing
  rw [shape, List.map_append, List.map_cons, List.pairwise_append, List.pairwise_cons] at increasing
  obtain ⟨-, ⟨later, -⟩, earlier⟩ := increasing
  have others : ∀ entry ∈ before ++ after, plainPath? entry.1 ≠ some [part, key] := by
    intro entry member stands
    have same := alone entry (inside entry member) stands
    rcases List.mem_append.mp member with first | last
    · have less := earlier entry.1 (List.mem_map_of_mem first) name List.mem_cons_self
      exact String.lt_irrefl name (same ▸ less)
    · exact String.lt_irrefl name (same ▸ later entry.1 (List.mem_map_of_mem last))
  obtain ⟨first, last⟩ := List.forall_mem_append.mp others
  rw [shape, last?_append, last?, last?_eq_none last, last?_eq_none first, if_pos found,
    Option.none_or, Option.some_or]

end Plain

end Variables

end Settings
end InventoryGauges
