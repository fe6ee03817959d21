import InventoryGauges.Settings.Value

/-!
# Values laid over each other

What a section gives for a key, once one value lies over another: what the upper
one gives, or else what the lower one gives.
-/

namespace InventoryGauges
namespace Settings
namespace Value

theorem find?_put (key other : String) (value : Value) (entries : List (String × Value)) :
    find? key (put other value entries) =
      if key = other then some value else find? key entries := by
  induction entries with
  | nil => rfl
  | cons entry entries hypothesis =>
      rw [put]
      split
      · rename_i same
        subst same
        rw [find?, find?]
        split <;> rfl
      · rename_i different
        rw [find?, find?, hypothesis]
        split
        · rename_i found
          rw [if_neg fun same => different (same.symm.trans found)]
        · rfl

/-- Entries laid over lower ones give what lies above, itself laid over what
lies below. -/
theorem find?_layEntries (key : String) (upper lower : List (String × Value)) :
    find? key (layEntries upper lower) =
      match find? key upper with
      | some value =>
          some (match find? key lower with
            | some under => value.layOver under
            | none => value)
      | none => find? key lower := by
  induction upper with
  | nil => rw [layEntries, find?]
  | cons entry upper hypothesis =>
      obtain ⟨first, value⟩ := entry
      rw [layEntries, find?_put, find?, hypothesis]
      by_cases same : key = first
      · subst same
        cases find? key lower <;> simp only [if_true]
      · simp only [if_neg same]

/-- A value that is a table. -/
def IsTable (value : Value) : Prop :=
  ∃ entries, value = table entries

/-- What a value gives for a key; only tables give anything. -/
def lookup? (key : String) : Value → Option Value
  | table entries => find? key entries
  | _ => none

/-- What a value gives for a key of a section. -/
def given? (value : Value) (part key : String) : Option Value :=
  (value.lookup? part).bind (lookup? key)

/-- A table whose section of a name is a table, if there is one. -/
structure IsSectioned (part : String) (value : Value) : Prop where
  /-- The value is a table. -/
  isTable : value.IsTable
  /-- Its section is one. -/
  section_isTable : ∀ inside, value.lookup? part = some inside → inside.IsTable

/-- A value of which it is not told what its entries are, if it is a table. -/
def bare : Value → Value
  | table _ => table []
  | value => value

/-- Up to the entries of tables, the upper value counts. -/
theorem bare_layOver (upper lower : Value) : (upper.layOver lower).bare = upper.bare := by
  cases upper <;> cases lower <;> rfl

/-- Over anything but a table, the upper value counts as a whole. -/
theorem layOver_eq_self {upper lower : Value} (flat : ¬ lower.IsTable) :
    upper.layOver lower = upper := by
  cases lower with
  | table entries => exact absurd ⟨entries, rfl⟩ flat
  | text _ | truth _ | integer _ | real | list _ => cases upper <;> rfl

theorem lookup?_eq_none {value : Value} {key : String} (flat : ¬ value.IsTable) :
    value.lookup? key = none := by
  cases value with
  | table entries => exact absurd ⟨entries, rfl⟩ flat
  | text _ | truth _ | integer _ | real | list _ => rfl

theorem isTable_layOver {upper lower : Value} (above : upper.IsTable) (below : lower.IsTable) :
    (upper.layOver lower).IsTable := by
  obtain ⟨entries, rfl⟩ := above
  obtain ⟨others, rfl⟩ := below
  exact ⟨layEntries entries others, by rw [layOver]⟩

theorem lookup?_layOver {upper lower : Value} (above : upper.IsTable) (below : lower.IsTable)
    (key : String) :
    (upper.layOver lower).lookup? key =
      match upper.lookup? key with
      | some value =>
          some (match lower.lookup? key with
            | some under => value.layOver under
            | none => value)
      | none => lower.lookup? key := by
  obtain ⟨entries, rfl⟩ := above
  obtain ⟨others, rfl⟩ := below
  rw [layOver]
  exact find?_layEntries key entries others

/-- A section gives for a key what the upper value gives, laid over what the lower
one gives, or else what the lower one gives. -/
theorem given?_layOver_eq {part : String} {upper lower : Value} (above : upper.IsSectioned part)
    (below : lower.IsTable) (key : String) :
    (upper.layOver lower).given? part key =
      match upper.given? part key with
      | some value =>
          some (match lower.given? part key with
            | some under => value.layOver under
            | none => value)
      | none => lower.given? part key := by
  rw [given?, given?, given?, lookup?_layOver above.isTable below]
  cases high : upper.lookup? part with
  | none => rfl
  | some value =>
      have table := above.section_isTable value high
      cases low : lower.lookup? part with
      | none =>
          dsimp only [Option.bind_some, Option.bind_none]
          cases value.lookup? key <;> rfl
      | some under =>
          dsimp only [Option.bind_some]
          by_cases tabled : under.IsTable
          · exact lookup?_layOver table tabled key
          · rw [layOver_eq_self tabled, lookup?_eq_none tabled]
            cases value.lookup? key <;> rfl

section LayOver

variable {part : String} {upper lower : Value} (above : upper.IsSectioned part)
  (below : lower.IsSectioned part)
include above below

theorem IsSectioned.layOver : (upper.layOver lower).IsSectioned part where
  isTable := isTable_layOver above.isTable below.isTable
  section_isTable := by
    intro inside found
    rw [lookup?_layOver above.isTable below.isTable] at found
    cases high : upper.lookup? part with
    | none =>
        rw [high] at found
        exact below.section_isTable inside found
    | some value =>
        rw [high] at found
        have table := above.section_isTable value high
        cases low : lower.lookup? part with
        | none =>
            rw [low] at found
            exact Option.some.inj found ▸ table
        | some under =>
            rw [low] at found
            exact Option.some.inj found ▸ isTable_layOver table (below.section_isTable under low)

omit below in
/-- A section gives for a key what the upper value gives, or else what the lower
one gives. -/
theorem given?_layOver (below : lower.IsTable) (key : String) :
    ((upper.layOver lower).given? part key).map bare =
      ((upper.given? part key).or (lower.given? part key)).map bare := by
  rw [given?_layOver_eq above below]
  cases upper.given? part key with
  | none => rfl
  | some value =>
      cases lower.given? part key with
      | none => rfl
      | some under => exact congrArg some (bare_layOver value under)

end LayOver

/-! ## Values that differ in one key -/

/-- A table that has a table for a section. -/
structure HasSection (part : String) (value : Value) : Prop where
  /-- The value is a table. -/
  isTable : value.IsTable
  /-- So is its section. -/
  exists_section : ∃ inside, value.lookup? part = some inside ∧ inside.IsTable

/-- Tables that give the same but for one key of a section. -/
structure SameBut (part key : String) (left right : Value) : Prop where
  /-- One has the section. -/
  hasLeft : left.HasSection part
  /-- So has the other one. -/
  hasRight : right.HasSection part
  /-- The other sections are the same. -/
  lookup?_eq : ∀ name, name ≠ part → left.lookup? name = right.lookup? name
  /-- The section gives the same for other keys. -/
  given?_eq : ∀ other, other ≠ key → left.given? part other = right.given? part other

section Differing

variable {part key : String} {left right upper lower value : Value}

theorem HasSection.isSectioned (has : value.HasSection part) : value.IsSectioned part where
  isTable := has.isTable
  section_isTable := by
    obtain ⟨inside, found, table⟩ := has.exists_section
    intro other same
    exact Option.some.inj (found.symm.trans same) ▸ table

/-- What lies above keeps its section. -/
theorem HasSection.layOver (above : upper.HasSection part) (below : lower.IsTable) :
    (upper.layOver lower).HasSection part where
  isTable := isTable_layOver above.isTable below
  exists_section := by
    obtain ⟨inside, found, table⟩ := above.exists_section
    rw [lookup?_layOver above.isTable below, found]
    refine ⟨_, rfl, ?_⟩
    obtain ⟨entries, rfl⟩ := table
    cases lower.lookup? part with
    | none => exact ⟨entries, rfl⟩
    | some under => cases under <;> exact ⟨_, rfl⟩

/-- A section that lies below is kept under tables. -/
theorem HasSection.under (below : lower.HasSection part) (above : upper.IsSectioned part) :
    (upper.layOver lower).HasSection part where
  isTable := isTable_layOver above.isTable below.isTable
  exists_section := by
    obtain ⟨inside, found, table⟩ := below.exists_section
    rw [lookup?_layOver above.isTable below.isTable, found]
    cases high : upper.lookup? part with
    | none => exact ⟨inside, rfl, table⟩
    | some value => exact ⟨_, rfl, isTable_layOver (above.section_isTable value high) table⟩

theorem SameBut.layOver (same : SameBut part key left right) (below : lower.IsTable) :
    SameBut part key (left.layOver lower) (right.layOver lower) where
  hasLeft := same.hasLeft.layOver below
  hasRight := same.hasRight.layOver below
  lookup?_eq := by
    intro name other
    rw [lookup?_layOver same.hasLeft.isTable below, lookup?_layOver same.hasRight.isTable below,
      same.lookup?_eq name other]
  given?_eq := by
    intro other different
    rw [given?_layOver_eq same.hasLeft.isSectioned below,
      given?_layOver_eq same.hasRight.isSectioned below, same.given?_eq other different]

theorem SameBut.under (same : SameBut part key left right) (above : upper.IsSectioned part) :
    SameBut part key (upper.layOver left) (upper.layOver right) where
  hasLeft := same.hasLeft.under above
  hasRight := same.hasRight.under above
  lookup?_eq := by
    intro name other
    rw [lookup?_layOver above.isTable same.hasLeft.isTable,
      lookup?_layOver above.isTable same.hasRight.isTable, same.lookup?_eq name other]
  given?_eq := by
    intro other different
    rw [given?_layOver_eq above same.hasLeft.isTable, given?_layOver_eq above same.hasRight.isTable,
      same.given?_eq other different]

end Differing

end Value
end Settings
end InventoryGauges
