/-!
# Splitting texts

Texts cut at every occurrence of a character, or at the first occurrence of a
text.
-/

namespace InventoryGauges
namespace Text

/-- The parts between the characters that are separators; one part at least. -/
def splitAtAll (isSeparator : Char → Bool) : List Char → List (List Char)
  | [] => [[]]
  | character :: rest =>
      if isSeparator character then [] :: splitAtAll isSeparator rest
      else
        match splitAtAll isSeparator rest with
        | [] => [[character]]
        | part :: parts => (character :: part) :: parts

/-- A text without the separator is one part. -/
theorem splitAtAll_eq_singleton {separator : Char} {text : List Char}
    (whole : separator ∉ text) : splitAtAll (· == separator) text = [text] := by
  induction text with
  | nil => rfl
  | cons character rest hypothesis =>
      obtain ⟨own, others⟩ := not_or.mp (mt List.mem_cons.mpr whole)
      simp [splitAtAll, Ne.symm own, hypothesis others]

/-- A part ends at the first separator. -/
theorem splitAtAll_append_cons {separator : Char} {part rest : List Char}
    (whole : separator ∉ part) :
    splitAtAll (· == separator) (part ++ separator :: rest) =
      part :: splitAtAll (· == separator) rest := by
  induction part with
  | nil => simp [splitAtAll]
  | cons character part hypothesis =>
      obtain ⟨own, others⟩ := not_or.mp (mt List.mem_cons.mpr whole)
      simp [splitAtAll, Ne.symm own, hypothesis others]

/-- What is before and after the first occurrence of a text. -/
def splitAtFirst? (mark : List Char) : List Char → Option (List Char × List Char)
  | [] => if mark.isEmpty then some ([], []) else none
  | character :: rest =>
      if mark.isPrefixOf (character :: rest) then
        some ([], (character :: rest).drop mark.length)
      else
        (splitAtFirst? mark rest).map fun (before, after) => (character :: before, after)

/-- What is before and after the last occurrence of a character. -/
def splitAtLast? (mark : Char) : List Char → Option (List Char × List Char)
  | [] => none
  | character :: rest =>
      match splitAtLast? mark rest with
      | some (before, after) => some (character :: before, after)
      | none => if character = mark then some ([], rest) else none

/-- The parts joined with a text between them. -/
def join (separator : List Char) (parts : List (List Char)) : List Char :=
  List.intercalate separator parts

end Text
end InventoryGauges
