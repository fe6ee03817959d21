import InventoryGauges.Proofs.Store.Sharing
import Mathlib.Data.List.Induction

/-!
# The lineage of a stored value

Programs share a key: each reads its value once and may write what it makes of
it.  So what is stored descends from the last write, from the write that was
stored when the program of the last write read, and so on.  A write of which
nothing is left was overwritten by a program that had read before it.
-/

namespace InventoryGauges
namespace Store

/-- The program that reads in a turn. -/
def Turn.reader? (turn : Turn) : Option Nat :=
  match turn.call with
  | .get _ => some turn.index
  | _ => none

/-- The program that writes in a turn. -/
def Turn.writer? (turn : Turn) : Option Nat :=
  match turn.call with
  | .set _ _ => some turn.index
  | _ => none

/-- The programs that have read, in their order. -/
def readers (turns : List Turn) : List Nat :=
  turns.filterMap Turn.reader?

/-- The programs that have written, in their order. -/
def writers (turns : List Turn) : List Nat :=
  turns.filterMap Turn.writer?

/-- The programs that a value descends from, in the order of their writes. -/
structure Lineage where
  /-- The lineage of the stored value. -/
  stored : List Nat
  /-- The lineage of the value that each program has read. -/
  read : Nat → List Nat

namespace Lineage

/-- What a turn makes of the lineages. -/
def after (lineage : Lineage) (turn : Turn) : Lineage where
  stored :=
    match turn.writer? with
    | some index => lineage.read index ++ [index]
    | none => lineage.stored
  read index := if turn.reader? = some index then lineage.stored else lineage.read index

/-- The lineages after some turns. -/
def ofTurns (turns : List Turn) : Lineage :=
  turns.foldl after ⟨[], fun _ => []⟩

end Lineage

/-- A program has written, but what is stored does not descend from that. -/
def Overwritten (turns : List Turn) (index : Nat) : Prop :=
  index ∈ writers turns ∧ index ∉ (Lineage.ofTurns turns).stored

instance (turns : List Turn) (index : Nat) : Decidable (Overwritten turns index) :=
  inferInstanceAs (Decidable (_ ∧ _))

/-- Another program read before a program wrote. -/
def ReadsBefore (turns : List Turn) (index other : Nat) : Prop :=
  ∃ before turn after, turns = before ++ turn :: after ∧ turn.writer? = some index ∧
    other ∈ readers before

/-- Another program read before a program wrote, and wrote after that. -/
def Overlaps (turns : List Turn) (index other : Nat) : Prop :=
  other ≠ index ∧ ∃ before turn after, turns = before ++ turn :: after ∧
    turn.writer? = some index ∧ other ∈ readers before ∧ other ∈ writers after

/-- Programs read before they write. -/
def ReadFirst (turns : List Turn) : Prop :=
  ∀ before turn after, turns = before ++ turn :: after →
    ∀ index, turn.writer? = some index → index ∈ readers before

variable {turns : List Turn} {turn : Turn} {index other : Nat}

namespace Turn

theorem writer?_of_reader? (reads : turn.reader? = some index) : turn.writer? = none := by
  obtain ⟨own, call, answer⟩ := turn
  cases call with
  | get key => rfl
  | set _ _ | getMany _ | delete _ | scan _ | ping => cases reads

theorem index_of_reader? (reads : turn.reader? = some index) : turn.index = index := by
  rw [reader?] at reads
  split at reads
  · exact Option.some.inj reads
  · cases reads

theorem index_of_writer? (writes : turn.writer? = some index) : turn.index = index := by
  rw [writer?] at writes
  split at writes
  · exact Option.some.inj writes
  · cases writes

end Turn

theorem mem_readers_append :
    index ∈ readers (turns ++ [turn]) ↔ index ∈ readers turns ∨ turn.reader? = some index := by
  simp [readers]

theorem mem_writers_append :
    index ∈ writers (turns ++ [turn]) ↔ index ∈ writers turns ∨ turn.writer? = some index := by
  simp [writers]

/-! ## Overlaps -/

theorem ReadsBefore.append (before : ReadsBefore turns index other) (later : List Turn) :
    ReadsBefore (turns ++ later) index other := by
  obtain ⟨first, written, last, rfl, writes, reads⟩ := before
  exact ⟨first, written, last ++ later, by simp, writes, reads⟩

theorem Overlaps.append (overlaps : Overlaps turns index other) (later : List Turn) :
    Overlaps (turns ++ later) index other := by
  obtain ⟨different, first, written, last, rfl, writes, reads, writesLater⟩ := overlaps
  refine ⟨different, first, written, last ++ later, by simp, writes, reads, ?_⟩
  rw [writers, List.filterMap_append]
  exact List.mem_append_left _ writesLater

theorem ReadsBefore.overlaps (before : ReadsBefore turns index other) (different : other ≠ index)
    (writes : turn.writer? = some other) : Overlaps (turns ++ [turn]) index other := by
  obtain ⟨first, written, last, rfl, own, reads⟩ := before
  exact ⟨different, first, written, last ++ [turn], by simp, own, reads,
    mem_writers_append.mpr (Or.inr writes)⟩

theorem readsBefore_of_writer? (reads : other ∈ readers turns)
    (writes : turn.writer? = some index) : ReadsBefore (turns ++ [turn]) index other :=
  ⟨turns, turn, [], rfl, writes, reads⟩

theorem ReadFirst.of_append {later : List Turn} (first : ReadFirst (turns ++ later)) :
    ReadFirst turns := by
  rintro before written after rfl
  exact first before written (after ++ later) (by simp)

theorem readFirst_nil : ReadFirst [] := by
  intro before written after split
  simp at split

theorem ReadFirst.append (first : ReadFirst turns)
    (reads : ∀ index, turn.writer? = some index → index ∈ readers turns) :
    ReadFirst (turns ++ [turn]) := by
  intro before written after split
  rcases List.eq_nil_or_concat after with rfl | ⟨after, last, rfl⟩
  · obtain ⟨rfl, tail⟩ := List.append_inj' split rfl
    obtain rfl := (List.cons.inj tail).1
    exact reads
  · rw [List.concat_eq_append, ← List.cons_append, ← List.append_assoc] at split
    exact first before written after (List.append_inj' split rfl).1

/-! ## Members of a lineage -/

namespace Lineage

theorem ofTurns_append (turns : List Turn) (turn : Turn) :
    ofTurns (turns ++ [turn]) = (ofTurns turns).after turn :=
  List.foldl_append

theorem stored_after_of_writer? (lineage : Lineage) (writes : turn.writer? = some index) :
    (lineage.after turn).stored = lineage.read index ++ [index] := by
  rw [after, writes]

theorem stored_after_of_not_writer? (lineage : Lineage) (writes : turn.writer? = none) :
    (lineage.after turn).stored = lineage.stored := by
  rw [after, writes]

theorem read_after_of_reader? (lineage : Lineage) (reads : turn.reader? = some index) :
    (lineage.after turn).read index = lineage.stored :=
  if_pos reads

theorem read_after_of_not_reader? (lineage : Lineage) (reads : turn.reader? ≠ some index) :
    (lineage.after turn).read index = lineage.read index :=
  if_neg reads

/-- The members of a lineage have written. -/
structure Wrote (turns : List Turn) : Prop where
  stored : ∀ index ∈ (ofTurns turns).stored, index ∈ writers turns
  read : ∀ reader, ∀ index ∈ (ofTurns turns).read reader, index ∈ writers turns

theorem wrote (turns : List Turn) : Wrote turns := by
  induction turns using List.reverseRecOn with
  | nil => exact ⟨nofun, nofun⟩
  | append_singleton turns turn hypothesis =>
      constructor
      · intro index member
        rw [ofTurns_append] at member
        rw [mem_writers_append]
        cases writes : turn.writer? with
        | none =>
            rw [stored_after_of_not_writer? _ writes] at member
            exact Or.inl (hypothesis.stored index member)
        | some writer =>
            rw [stored_after_of_writer? _ writes] at member
            rcases List.mem_append.mp member with old | new
            · exact Or.inl (hypothesis.read writer index old)
            · exact Or.inr (congrArg some (List.mem_singleton.mp new).symm)
      · intro reader index member
        rw [ofTurns_append] at member
        rw [mem_writers_append]
        by_cases reads : turn.reader? = some reader
        · rw [read_after_of_reader? _ reads] at member
          exact Or.inl (hypothesis.stored index member)
        · rw [read_after_of_not_reader? _ reads] at member
          exact Or.inl (hypothesis.read reader index member)

/-- What becomes of a write: what is stored descends from it, and so does what
was read since, unless another program overlaps it. -/
structure Accounts (turns : List Turn) (index : Nat) : Prop where
  stored : index ∈ (ofTurns turns).stored ∨ ∃ other, Overlaps turns index other
  read : ∀ reader ∈ readers turns, index ∈ (ofTurns turns).read reader ∨
    ReadsBefore turns index reader ∨ ∃ other, Overlaps turns index other

theorem Accounts.append (accounts : Accounts turns index)
    (first : ∀ writer, turn.writer? = some writer → writer ∈ readers turns) :
    Accounts (turns ++ [turn]) index := by
  have overlapping : (∃ other, Overlaps turns index other) →
      ∃ other, Overlaps (turns ++ [turn]) index other :=
    fun ⟨other, overlaps⟩ => ⟨other, overlaps.append _⟩
  constructor
  · rw [ofTurns_append]
    cases writes : turn.writer? with
    | none =>
        rw [stored_after_of_not_writer? _ writes]
        exact accounts.stored.imp_right overlapping
    | some writer =>
        rw [stored_after_of_writer? _ writes]
        -- What will be stored descends from what the writer read, whenever that was.
        by_cases own : writer = index
        · exact Or.inl (List.mem_append_right _ (List.mem_singleton.mpr own.symm))
        · rcases accounts.read writer (first writer writes) with member | before | overlaps
          · exact Or.inl (List.mem_append_left _ member)
          · exact Or.inr ⟨writer, before.overlaps own writes⟩
          · exact Or.inr (overlapping overlaps)
  · intro reader member
    rw [ofTurns_append]
    by_cases reads : turn.reader? = some reader
    · rw [read_after_of_reader? _ reads]
      exact accounts.stored.imp_right fun overlaps => Or.inr (overlapping overlaps)
    · rw [read_after_of_not_reader? _ reads]
      rcases accounts.read reader ((mem_readers_append.mp member).resolve_right reads) with
        member | before | overlaps
      · exact Or.inl member
      · exact Or.inr (Or.inl (before.append _))
      · exact Or.inr (Or.inr (overlapping overlaps))

theorem accounts_of_writer? (writes : turn.writer? = some index) :
    Accounts (turns ++ [turn]) index := by
  constructor
  · rw [ofTurns_append, stored_after_of_writer? _ writes]
    exact Or.inl (List.mem_append_right _ List.mem_cons_self)
  · intro reader member
    have reads : reader ∈ readers turns := by
      refine (mem_readers_append.mp member).resolve_right fun reads => ?_
      rw [Turn.writer?_of_reader? reads] at writes
      cases writes
    exact Or.inr (Or.inl (readsBefore_of_writer? reads writes))

theorem accounts (first : ReadFirst turns) (member : index ∈ writers turns) :
    Accounts turns index := by
  induction turns using List.reverseRecOn with
  | nil => cases member
  | append_singleton turns turn hypothesis =>
      rcases mem_writers_append.mp member with old | new
      · exact (hypothesis first.of_append old).append (first turns turn [] rfl)
      · exact accounts_of_writer? new

end Lineage

/-- Only a program that overlaps another can overwrite it. -/
theorem Overwritten.exists_overlaps (overwritten : Overwritten turns index)
    (first : ReadFirst turns) : ∃ other, Overlaps turns index other :=
  (Lineage.accounts first overwritten.1).stored.resolve_left overwritten.2

end Store
end InventoryGauges
