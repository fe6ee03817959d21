/-!
# Finite maps from strings

A map is the list of its entries in strictly increasing order of keys.  Each
operation is described by what it does to look-ups.
-/

namespace InventoryGauges
namespace Text

/-- A finite map from strings. -/
structure Map (Value : Type) where
  /-- The entries in order of keys. -/
  entries : List (String × Value)
  /-- The order of the keys, each of which occurs once. -/
  increasing : (entries.map Prod.fst).Pairwise (· < ·)
  deriving Repr

namespace Map

variable {Value : Type}

/-- The map without entries. -/
def empty : Map Value := ⟨[], by simp⟩

instance : Inhabited (Map Value) := ⟨empty⟩

instance [DecidableEq Value] : DecidableEq (Map Value) := fun left right =>
  decidable_of_iff (left.entries = right.entries) (by
    cases left
    cases right
    simp)

/-- Look a key up in a list of entries. -/
def find? (key : String) : List (String × Value) → Option Value
  | [] => none
  | entry :: entries => if key = entry.1 then some entry.2 else find? key entries

/-- The value of a key. -/
def get? (map : Map Value) (key : String) : Option Value :=
  find? key map.entries

/-- The keys in order. -/
def keys (map : Map Value) : List String :=
  map.entries.map Prod.fst

/-- Put an entry in its place in an ordered list of entries; one of the same
key is replaced. -/
def place (key : String) (value : Value) : List (String × Value) → List (String × Value)
  | [] => [(key, value)]
  | entry :: entries =>
      if key < entry.1 then (key, value) :: entry :: entries
      else if key = entry.1 then (key, value) :: entries
      else entry :: place key value entries

theorem mem_keys_place {key other : String} {value : Value}
    {entries : List (String × Value)} :
    other ∈ (place key value entries).map Prod.fst ↔
      other = key ∨ other ∈ entries.map Prod.fst := by
  induction entries with
  | nil => simp [place]
  | cons entry entries hypothesis =>
      unfold place
      split
      · simp
      · split
        · simp_all
        · simp only [List.map_cons, List.mem_cons, hypothesis]
          grind

theorem pairwise_place {key : String} {value : Value} {entries : List (String × Value)}
    (increasing : (entries.map Prod.fst).Pairwise (· < ·)) :
    ((place key value entries).map Prod.fst).Pairwise (· < ·) := by
  induction entries with
  | nil => simp [place]
  | cons entry entries hypothesis =>
      rw [List.map_cons, List.pairwise_cons] at increasing
      unfold place
      split
      · rw [List.map_cons, List.map_cons, List.pairwise_cons, List.pairwise_cons]
        refine ⟨?_, increasing⟩
        intro other member
        rcases List.mem_cons.mp member with rfl | member
        · assumption
        · have := increasing.1 other member
          grind
      · split
        · rename_i _ equal
          subst equal
          rw [List.map_cons, List.pairwise_cons]
          exact increasing
        · rw [List.map_cons, List.pairwise_cons]
          refine ⟨?_, hypothesis increasing.2⟩
          intro other member
          rw [mem_keys_place] at member
          rcases member with rfl | member
          · grind
          · exact increasing.1 other member

/-- The map in which a key has a value. -/
def insert (map : Map Value) (key : String) (value : Value) : Map Value :=
  ⟨place key value map.entries, pairwise_place map.increasing⟩

/-- The map without some keys. -/
def eraseAll (map : Map Value) (keys : List String) : Map Value :=
  ⟨map.entries.filter fun entry => !keys.contains entry.1,
    map.increasing.sublist (List.filter_sublist.map _)⟩

theorem find?_place {key other : String} {value : Value}
    {entries : List (String × Value)} :
    find? other (place key value entries) =
      if other = key then some value else find? other entries := by
  induction entries with
  | nil => simp [place, find?]
  | cons entry entries hypothesis =>
      unfold place
      split
      · simp [find?]
      · split
        · simp only [find?]
          grind
        · simp only [find?, hypothesis]
          grind

theorem find?_filter {key : String} (keep : String → Bool)
    {entries : List (String × Value)} :
    find? key (entries.filter fun entry => keep entry.1) =
      if keep key then find? key entries else none := by
  induction entries with
  | nil => simp [find?]
  | cons entry entries hypothesis =>
      by_cases kept : keep entry.1
      · simp only [List.filter_cons, kept, if_true, find?, hypothesis]
        grind
      · simp only [List.filter_cons, kept, find?]
        grind

@[simp] theorem get?_empty (key : String) : (empty : Map Value).get? key = none := rfl

@[simp] theorem get?_insert (map : Map Value) (key other : String) (value : Value) :
    (map.insert key value).get? other =
      if other = key then some value else map.get? other :=
  find?_place

@[simp] theorem get?_eraseAll (map : Map Value) (keys : List String) (key : String) :
    (map.eraseAll keys).get? key = if key ∈ keys then none else map.get? key := by
  unfold get? eraseAll
  rw [find?_filter fun key => !keys.contains key]
  by_cases member : key ∈ keys <;> simp [member]

theorem mem_keys_iff_find? {key : String} {entries : List (String × Value)} :
    key ∈ entries.map Prod.fst ↔ (find? key entries).isSome := by
  induction entries with
  | nil => simp [find?]
  | cons entry entries hypothesis =>
      simp only [List.map_cons, List.mem_cons, find?, hypothesis]
      grind

/-- A key is listed exactly when it has a value. -/
theorem mem_keys {map : Map Value} {key : String} :
    key ∈ map.keys ↔ (map.get? key).isSome :=
  mem_keys_iff_find?

/-- The map with the entries of a list, later ones replacing earlier ones. -/
def ofList (entries : List (String × Value)) : Map Value :=
  entries.foldl (fun map entry => map.insert entry.1 entry.2) empty

theorem get?_foldl_insert (map : Map Value) (entries : List (String × Value)) (key : String) :
    (entries.foldl (fun map entry => map.insert entry.1 entry.2) map).get? key =
      ((entries.reverse.find? fun entry => entry.1 == key).map Prod.snd).or (map.get? key) := by
  induction entries generalizing map with
  | nil => rfl
  | cons entry entries hypothesis =>
      rw [List.foldl_cons, hypothesis, get?_insert, List.reverse_cons, List.find?_append]
      by_cases same : entry.1 = key
      · subst same
        cases entries.reverse.find? _ <;> simp
      · cases entries.reverse.find? _ <;> simp [same, Ne.symm same]

/-- A key has the last of its values in a list. -/
theorem get?_ofList (entries : List (String × Value)) (key : String) :
    (ofList entries).get? key =
      (entries.reverse.find? fun entry => entry.1 == key).map Prod.snd := by
  rw [ofList, get?_foldl_insert, get?_empty, Option.or_none]

/-- If values are given by keys, then it is no matter how often a key is listed. -/
theorem get?_ofList_map (keys : List String) (value : String → Value) (key : String) :
    (ofList (keys.map fun key => (key, value key))).get? key =
      if key ∈ keys then some (value key) else none := by
  rw [get?_ofList, ← List.map_reverse]
  cases found : (keys.reverse.map fun key => (key, value key)).find? fun entry =>
      entry.1 == key with
  | none =>
      have absent : ¬ key ∈ keys := by
        intro member
        have other := List.find?_eq_none.mp found (key, value key)
          (List.mem_map.mpr ⟨key, List.mem_reverse.mpr member, rfl⟩)
        exact other (beq_self_eq_true key)
      rw [if_neg absent, Option.map_none]
  | some entry =>
      obtain ⟨other, member, rfl⟩ := List.mem_map.mp (List.mem_of_find?_eq_some found)
      have same := List.find?_some found
      obtain rfl : other = key := beq_iff_eq.mp same
      rw [if_pos (List.mem_reverse.mp member), Option.map_some]

theorem find?_eq_none_of_lt {key : String} {entries : List (String × Value)}
    (later : ∀ other ∈ entries.map Prod.fst, key < other) : find? key entries = none := by
  rw [← Option.not_isSome_iff_eq_none, ← mem_keys_iff_find?]
  intro member
  exact absurd (later key member) (by grind)

theorem find?_cons_eq_none_of_lt {key : String} {entry : String × Value}
    {entries : List (String × Value)}
    (increasing : ((entry :: entries).map Prod.fst).Pairwise (· < ·)) (before : key < entry.1) :
    find? key (entry :: entries) = none := by
  rw [List.map_cons, List.pairwise_cons] at increasing
  apply find?_eq_none_of_lt
  intro other member
  rcases List.mem_cons.mp member with rfl | member
  · exact before
  · exact String.lt_trans before (increasing.1 other member)

/-- Of ordered entries at most one has a key. -/
theorem filter_key_eq {key : String} {entries : List (String × Value)}
    (increasing : (entries.map Prod.fst).Pairwise (· < ·)) :
    (entries.filter fun entry => entry.1 == key) =
      (find? key entries).toList.map fun value => (key, value) := by
  induction entries with
  | nil => rfl
  | cons entry entries hypothesis =>
      rw [List.map_cons, List.pairwise_cons] at increasing
      have others := hypothesis increasing.2
      by_cases same : entry.1 = key
      · subst same
        rw [find?_eq_none_of_lt increasing.1] at others
        simp [find?, others]
      · simp [find?, others, same, Ne.symm same]

/-- Ordered entries that answer the same look-ups are the same. -/
theorem entries_ext {left right : List (String × Value)}
    (leftIncreasing : (left.map Prod.fst).Pairwise (· < ·))
    (rightIncreasing : (right.map Prod.fst).Pairwise (· < ·))
    (same : ∀ key, find? key left = find? key right) : left = right := by
  induction left generalizing right with
  | nil =>
      cases right with
      | nil => rfl
      | cons other others => simpa [find?] using same other.1
  | cons entry entries hypothesis =>
      cases right with
      | nil => simpa [find?] using same entry.1
      | cons other others =>
          have first : find? entry.1 (entry :: entries) = some entry.2 := by simp [find?]
          have second : find? other.1 (other :: others) = some other.2 := by simp [find?]
          have key : entry.1 = other.1 := by
            rcases Std.lt_trichotomy entry.1 other.1 with before | equal | after
            · rw [same, find?_cons_eq_none_of_lt rightIncreasing before] at first
              cases first
            · exact equal
            · rw [← same, find?_cons_eq_none_of_lt leftIncreasing after] at second
              cases second
          have value : entry.2 = other.2 := by
            rw [same, key, second] at first
            exact (Option.some.inj first).symm
          have equal : entry = other := Prod.ext key value
          subst equal
          rw [List.map_cons, List.pairwise_cons] at leftIncreasing rightIncreasing
          congr 1
          apply hypothesis leftIncreasing.2 rightIncreasing.2
          intro name
          by_cases listed : name = entry.1
          · rw [listed, find?_eq_none_of_lt leftIncreasing.1,
              find?_eq_none_of_lt rightIncreasing.1]
          · simpa [find?, listed] using same name

/-- Maps that answer the same look-ups are the same. -/
theorem ext {left right : Map Value} (same : ∀ key, left.get? key = right.get? key) :
    left = right := by
  cases left
  cases right
  congr 1
  exact entries_ext (by assumption) (by assumption) same

end Map
end Text
end InventoryGauges
