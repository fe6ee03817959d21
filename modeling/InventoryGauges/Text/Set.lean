/-!
# Finite sets of strings

A set is the list of its members in strictly increasing order, so that equal
sets are equal values.  Each operation is described by its members.
-/

namespace InventoryGauges
namespace Text

/-- A finite set of strings. -/
structure Set where
  /-- The members, each once, in order. -/
  toList : List String
  /-- The order of the members. -/
  increasing : toList.Pairwise (· < ·)
  deriving DecidableEq, Repr

namespace Set

/-- The set without members. -/
def empty : Set := ⟨[], List.Pairwise.nil⟩

instance : Inhabited Set := ⟨empty⟩

instance : Membership String Set where
  mem set member := member ∈ set.toList

instance (member : String) (set : Set) : Decidable (member ∈ set) :=
  inferInstanceAs (Decidable (member ∈ set.toList))

theorem mem_def {member : String} {set : Set} :
    member ∈ set ↔ member ∈ set.toList := Iff.rfl

@[simp] theorem not_mem_empty (member : String) : ¬ member ∈ empty := by
  simp [mem_def, empty]

/-- Put a member in its place in an ordered list. -/
def place (member : String) : List String → List String
  | [] => [member]
  | first :: rest =>
      if member < first then member :: first :: rest
      else if member = first then first :: rest
      else first :: place member rest

@[simp] theorem mem_place {member other : String} {list : List String} :
    other ∈ place member list ↔ other = member ∨ other ∈ list := by
  induction list with
  | nil => simp [place]
  | cons first rest hypothesis =>
      unfold place
      split
      · simp
      · split
        · simp_all
        · simp only [List.mem_cons, hypothesis]
          grind

theorem pairwise_place {member : String} {list : List String}
    (increasing : list.Pairwise (· < ·)) : (place member list).Pairwise (· < ·) := by
  induction list with
  | nil => simp [place]
  | cons first rest hypothesis =>
      rw [List.pairwise_cons] at increasing
      unfold place
      split
      · rw [List.pairwise_cons, List.pairwise_cons]
        refine ⟨?_, increasing⟩
        intro other member
        rcases List.mem_cons.mp member with rfl | member
        · assumption
        · have := increasing.1 other member
          grind
      · split
        · exact List.pairwise_cons.mpr increasing
        · rw [List.pairwise_cons]
          refine ⟨?_, hypothesis increasing.2⟩
          intro other member
          rw [mem_place] at member
          rcases member with rfl | member
          · grind
          · exact increasing.1 other member

/-- The set with one more member. -/
def insert (set : Set) (member : String) : Set :=
  ⟨place member set.toList, pairwise_place set.increasing⟩

@[simp] theorem mem_insert {set : Set} {member other : String} :
    other ∈ set.insert member ↔ other = member ∨ other ∈ set :=
  mem_place

/-- The set with some more members. -/
def insertAll (set : Set) (members : List String) : Set :=
  members.foldl insert set

@[simp] theorem mem_insertAll {set : Set} {members : List String} {other : String} :
    other ∈ set.insertAll members ↔ other ∈ members ∨ other ∈ set := by
  induction members generalizing set with
  | nil => simp [insertAll]
  | cons member members hypothesis =>
      have := @hypothesis (set.insert member)
      simp only [insertAll, List.foldl_cons, List.mem_cons] at *
      rw [this, mem_insert]
      grind

/-- The set of the strings in a list. -/
def ofList (members : List String) : Set :=
  empty.insertAll members

@[simp] theorem mem_ofList {members : List String} {other : String} :
    other ∈ ofList members ↔ other ∈ members := by
  simp [ofList]

/-- The members of one set that are not in another. -/
def diff (set other : Set) : Set :=
  ⟨set.toList.filter fun member => decide (¬ member ∈ other), set.increasing.filter _⟩

@[simp] theorem mem_diff {set other : Set} {member : String} :
    member ∈ set.diff other ↔ member ∈ set ∧ ¬ member ∈ other := by
  simp [mem_def, diff]

/-- Number of members. -/
def size (set : Set) : Nat :=
  set.toList.length

/-- Two ordered lists with the same members are equal. -/
theorem toList_ext {left right : List String}
    (leftIncreasing : left.Pairwise (· < ·)) (rightIncreasing : right.Pairwise (· < ·))
    (same : ∀ member, member ∈ left ↔ member ∈ right) : left = right := by
  induction left generalizing right with
  | nil =>
      cases right with
      | nil => rfl
      | cons first rest => simpa using (same first).mpr (by simp)
  | cons first rest hypothesis =>
      cases right with
      | nil => simpa using (same first).mp (by simp)
      | cons other others =>
          rw [List.pairwise_cons] at leftIncreasing rightIncreasing
          have equal : first = other := by
            have h1 := (same first).mp (by simp)
            have h2 := (same other).mpr (by simp)
            rw [List.mem_cons] at h1 h2
            rcases h1 with h1 | h1
            · exact h1
            · rcases h2 with h2 | h2
              · exact h2.symm
              · have := leftIncreasing.1 other h2
                have := rightIncreasing.1 first h1
                grind
          subst equal
          congr 1
          apply hypothesis leftIncreasing.2 rightIncreasing.2
          intro member
          have whole := same member
          rw [List.mem_cons, List.mem_cons] at whole
          constructor
          · intro inRest
            rcases whole.mp (Or.inr inRest) with rfl | found
            · have := leftIncreasing.1 _ inRest
              grind
            · exact found
          · intro inOthers
            rcases whole.mpr (Or.inr inOthers) with rfl | found
            · have := rightIncreasing.1 _ inOthers
              grind
            · exact found

/-- Sets with the same members are equal. -/
theorem ext {left right : Set} (same : ∀ member, member ∈ left ↔ member ∈ right) :
    left = right := by
  cases left
  cases right
  congr 1
  exact toList_ext (by assumption) (by assumption) same

end Set
end Text
end InventoryGauges
