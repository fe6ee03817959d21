import InventoryGauges.Settings.Decode
import InventoryGauges.Settings.Variables
import Mathlib.Data.List.TakeWhile

/-!
# Texts that stand for themselves

A variable is read as a value if its whole text is one, and stands for itself
otherwise.  Which texts are the values that they are read as is told by how they
begin and end, and by what they hold.
-/

namespace InventoryGauges

namespace Text

theorem dropWhile_dropWhile {drops more : Char → Bool}
    (included : ∀ character, drops character → more character) (text : List Char) :
    (text.dropWhile drops).dropWhile more = text.dropWhile more := by
  induction text with
  | nil => rfl
  | cons character text hypothesis =>
      by_cases dropped : drops character
      · rw [List.dropWhile_cons_of_pos dropped, hypothesis,
          List.dropWhile_cons_of_pos (included character dropped)]
      · rw [List.dropWhile_cons_of_neg dropped]

end Text

namespace Settings

theorem Value.text?_eq_some_iff {value : Value} {content : String} :
    value.text? = some content ↔ value = .text content := by
  cases value with
  | text other => exact ⟨fun same => congrArg text (Option.some.inj same), fun same =>
      congrArg some (text.inj same)⟩
  | truth _ | integer _ | real | list _ | table _ => exact ⟨nofun, nofun⟩

namespace Variables

/-! ## Blanks and marks -/

theorem isBlank_of_isSpace (character : Char) (space : isSpace character) :
    Text.isBlank character := by
  simp only [isSpace, List.contains_iff_mem, List.mem_cons, List.not_mem_nil, or_false] at space
  rcases space with rfl | rfl | rfl | rfl | rfl <;> rfl

theorem isSpace_of_isSeparator {character : Char} (separator : isSeparator character) :
    isSpace character = false := by
  simp only [isSeparator, List.contains_iff_mem, List.mem_cons, List.not_mem_nil, or_false]
    at separator
  rcases separator with rfl | rfl | rfl | rfl | rfl <;> rfl

theorem trim_skipSpaces (text : List Char) : Text.trim (skipSpaces text) = Text.trim text := by
  have start : Text.skipBlanks (skipSpaces text) = Text.skipBlanks text :=
    Text.dropWhile_dropWhile isBlank_of_isSpace text
  rw [Text.trim, Text.trim, start]

/-- How a text begins that is not read as a plain one. -/
def marks : List String :=
  ["true", "false", "\x7b", "[", "\"", "'"]

/-- A text that is not read as a plain one. -/
def IsMarked (text : List Char) : Prop :=
  ∃ mark ∈ marks, mark.toList <+: text

instance (text : List Char) : Decidable (IsMarked text) :=
  inferInstanceAs (Decidable (∃ mark ∈ marks, mark.toList <+: text))

/-- A number within 64 bits, or a real number. -/
def IsNumeric (text : List Char) : Prop :=
  (text.contains '.' && (Decimal.real? text).isSome) ∨
    ∃ value, Decimal.signed? text = some value ∧ -Int.pow 2 63 ≤ value ∧ value < Int.pow 2 64

instance (text : List Char) : Decidable (IsNumeric text) :=
  haveI : Decidable (∃ value, Decimal.signed? text = some value ∧
      -Int.pow 2 63 ≤ value ∧ value < Int.pow 2 64) :=
    decidable_of_iff (∃ value ∈ Decimal.signed? text,
      -Int.pow 2 63 ≤ value ∧ value < Int.pow 2 64) (by simp only [Option.mem_def])
  inferInstanceAs (Decidable (_ ∨ _))

/-! ## Plain texts -/

/-- A plain text is read as a text without the blanks around it, unless it is a number. -/
theorem text?_plain (text : List Char) :
    (plain text).text? =
      if IsNumeric (Text.trim text) then none else some (String.ofList (Text.trim text)) := by
  rw [plain]
  by_cases real : (Text.trim text).contains '.' && (Decimal.real? (Text.trim text)).isSome
  · have numeric : IsNumeric (Text.trim text) := Or.inl real
    rw [if_pos real, if_pos numeric]
    rfl
  · rw [if_neg real]
    cases signed : Decimal.signed? (Text.trim text) with
    | none =>
        have other : ¬ IsNumeric (Text.trim text) := by
          rintro (isReal | ⟨value, found, -⟩)
          · exact real isReal
          · cases signed.symm.trans found
        rw [if_neg other]
        rfl
    | some value =>
        simp only [Bool.and_eq_true, decide_eq_true_eq]
        by_cases inRange : -Int.pow 2 63 ≤ value ∧ value < Int.pow 2 64
        · have numeric : IsNumeric (Text.trim text) := Or.inr ⟨value, signed, inRange⟩
          rw [if_pos inRange, if_pos numeric]
          rfl
        · have other : ¬ IsNumeric (Text.trim text) := by
            rintro (isReal | ⟨another, found, bounds⟩)
            · exact real isReal
            · obtain rfl := Option.some.inj (signed.symm.trans found)
              exact inRange bounds
          rw [if_neg inRange, if_neg other]
          rfl

/-- A text without mark is read as a plain one up to a separator. -/
theorem readBare_of_not_isMarked {text : List Char} (unmarked : ¬ IsMarked text) (fuel : Nat) :
    readBare (fuel + 1) text =
      some (plain (text.takeWhile (!isSeparator ·)), text.dropWhile (!isSeparator ·)) := by
  have begins (mark : String) (listed : mark ∈ marks) {rest : List Char}
      (equal : text = mark.toList ++ rest) : False :=
    unmarked ⟨mark, listed, equal ▸ List.prefix_append _ _⟩
  rw [readBare.eq_def]
  dsimp only
  split
  · exact (begins "true" (by decide) rfl).elim
  · exact (begins "false" (by decide) rfl).elim
  · exact (begins "\x7b" (by decide) rfl).elim
  · exact (begins "[" (by decide) rfl).elim
  · exact (begins "\"" (by decide) rfl).elim
  · exact (begins "'" (by decide) rfl).elim
  · exact (begins "'" (by decide) rfl).elim
  · rfl

/-! ## Marked texts -/

theorem length_of_prepend {character : Char} {inside : Option (List Char × List Char)} {bound : Nat}
    (shorter : ∀ result, inside = some result → result.1.length < bound)
    (result : List Char × List Char) (read : Toml.prepend character inside = some result) :
    result.1.length < bound + 1 := by
  obtain ⟨other, found, rfl⟩ := Option.map_eq_some_iff.mp read
  exact Nat.succ_lt_succ (shorter other found)

/-- A quotation is longer than what it holds. -/
theorem length_of_readQuoted (text : List Char) :
    ∀ result, readQuoted text = some result → result.1.length < text.length := by
  change ∀ result, readQuoted.read text = some result → result.1.length < text.length
  fun_induction readQuoted.read text with
  | case1 => nofun
  | case2 rest =>
      rintro _ ⟨⟩
      exact Nat.succ_pos _
  | case4 | case6 | case8 | case9 => nofun
  | case3 a b c d rest character found hypothesis =>
      intro result read
      have bound := length_of_prepend hypothesis result read
      simp only [List.length_cons]
      omega
  | case5 a b c d e f g h rest character found hypothesis =>
      intro result read
      have bound := length_of_prepend hypothesis result read
      simp only [List.length_cons]
      omega
  | case7 letter rest _ _ character found hypothesis =>
      intro result read
      have bound := length_of_prepend hypothesis result read
      simp only [List.length_cons]
      omega
  | case10 character rest _ _ _ _ _ hypothesis =>
      exact length_of_prepend hypothesis

/-- How a marked text goes on. -/
theorem cases_of_isMarked {text : List Char} (marked : IsMarked text) :
    ∃ rest, text = 't' :: 'r' :: 'u' :: 'e' :: rest ∨
      text = 'f' :: 'a' :: 'l' :: 's' :: 'e' :: rest ∨ text = '\x7b' :: rest ∨ text = '[' :: rest ∨
        text = '"' :: rest ∨ text = '\'' :: rest := by
  obtain ⟨mark, listed, rest, rfl⟩ := marked
  refine ⟨rest, ?_⟩
  simp only [marks, List.mem_cons, List.not_mem_nil, or_false] at listed
  rcases listed with rfl | rfl | rfl | rfl | rfl | rfl
  · exact Or.inl rfl
  · exact Or.inr (Or.inl rfl)
  · exact Or.inr (Or.inr (Or.inl rfl))
  · exact Or.inr (Or.inr (Or.inr (Or.inl rfl)))
  · exact Or.inr (Or.inr (Or.inr (Or.inr (Or.inl rfl))))
  · exact Or.inr (Or.inr (Or.inr (Or.inr (Or.inr rfl))))

/-- What a marked text is read as is no text, or a shorter one. -/
theorem length_of_isMarked {fuel : Nat} {text rest : List Char} {content : String}
    (marked : IsMarked text) (read : readBare fuel text = some (.text content, rest)) :
    content.toList.length < text.length := by
  cases fuel with
  | zero => cases read
  | succ fuel =>
      rw [readBare.eq_def] at read
      dsimp only at read
      obtain ⟨others, rfl | rfl | rfl | rfl | rfl | rfl⟩ := cases_of_isMarked marked
      · cases read
      · cases read
      · obtain ⟨_, _, equal⟩ := Option.map_eq_some_iff.mp read
        cases equal
      · obtain ⟨_, _, equal⟩ := Option.map_eq_some_iff.mp read
        cases equal
      · obtain ⟨result, found, equal⟩ := Option.map_eq_some_iff.mp read
        have bound := length_of_readQuoted others result found
        obtain ⟨same, -⟩ := Prod.mk.inj equal
        obtain rfl := Value.text.inj same
        rw [String.toList_ofList, List.length_cons]
        omega
      · rcases others with _ | ⟨character, _ | ⟨quote, more⟩⟩
        · cases read
        · cases read
        · by_cases closes : quote = '\''
          · subst closes
            obtain ⟨same, -⟩ := Prod.mk.inj (Option.some.inj read)
            obtain rfl := Value.text.inj same
            rw [String.toList_singleton]
            exact Nat.succ_lt_succ (Nat.succ_pos _)
          · simp [closes] at read

/-! ## Whole texts -/

/-- The value that a whole text is read as, if it is one. -/
def whole? (text : List Char) : Option Value :=
  (readBare (text.length + 1) (skipSpaces text)).bind fun read =>
    if (skipSpaces read.2).isEmpty then some read.1 else none

theorem valueOf_eq (content : String) :
    valueOf content = (whole? content.toList).getD (.text content) := by
  rw [valueOf, whole?]
  cases readBare (content.toList.length + 1) (skipSpaces content.toList) with
  | none => rfl
  | some read =>
      rw [Option.bind_some]
      dsimp only
      split <;> rfl

/-- A text that stands for itself: if it is marked, then it is no value as a whole, or
else it has a separator, or it is no number and has no blanks around it. -/
def IsVerbatim (content : String) : Prop :=
  let text := content.toList
  if IsMarked (skipSpaces text) then whole? text = none
  else (∃ character ∈ text, isSeparator character) ∨ (Text.trim text = text ∧ ¬ IsNumeric text)

theorem mem_skipSpaces {character : Char} {text : List Char} (other : isSpace character = false) :
    character ∈ skipSpaces text ↔ character ∈ text := by
  refine ⟨fun member => (List.dropWhile_suffix isSpace).mem member, fun member => ?_⟩
  rw [← List.takeWhile_append_dropWhile (p := isSpace) (l := text)] at member
  rcases List.mem_append.mp member with skipped | kept
  · exact absurd (List.mem_takeWhile_imp skipped) (other ▸ Bool.false_ne_true)
  · exact kept

/-- A text without mark is no value as a whole if it has a separator. -/
theorem whole?_of_separator {text : List Char} (unmarked : ¬ IsMarked (skipSpaces text))
    (separated : ∃ character ∈ text, isSeparator character) : whole? text = none := by
  obtain ⟨character, member, separator⟩ := separated
  have among := (mem_skipSpaces (isSpace_of_isSeparator separator)).mpr member
  rw [whole?, readBare_of_not_isMarked unmarked, Option.bind_some]
  dsimp only
  have begins := List.head?_dropWhile_not (!isSeparator ·) (skipSpaces text)
  cases rest : (skipSpaces text).dropWhile (!isSeparator ·) with
  | nil =>
      have none := List.dropWhile_eq_nil_iff.mp rest character among
      rw [separator] at none
      cases none
  | cons first others =>
      rw [rest, List.head?_cons] at begins
      have closing : isSeparator first := by simpa using begins
      rw [skipSpaces, List.dropWhile_cons_of_neg (by rw [isSpace_of_isSeparator closing]; decide)]
      rfl

/-- A text without mark and separator is a plain one. -/
theorem whole?_of_plain {text : List Char} (unmarked : ¬ IsMarked (skipSpaces text))
    (plainly : ¬ ∃ character ∈ text, isSeparator character) :
    whole? text = some (plain (skipSpaces text)) := by
  have none : ∀ character ∈ skipSpaces text, !isSeparator character := by
    intro character member
    rw [Bool.not_eq_true']
    refine Bool.eq_false_iff.mpr fun separator => plainly ⟨character, ?_, separator⟩
    exact (List.dropWhile_suffix isSpace).mem member
  rw [whole?, readBare_of_not_isMarked unmarked, Option.bind_some,
    List.takeWhile_eq_self_iff.mpr none, List.dropWhile_eq_nil_iff.mpr none]
  rfl

/-- The texts that stand for themselves are those. -/
theorem valueOf_eq_text_iff (content : String) :
    valueOf content = .text content ↔ IsVerbatim content := by
  rw [valueOf_eq, IsVerbatim]
  by_cases marked : IsMarked (skipSpaces content.toList)
  · rw [if_pos marked]
    refine ⟨fun stands => ?_, fun none => by rw [none]; rfl⟩
    cases read : whole? content.toList with
    | none => rfl
    | some value =>
        rw [read, Option.getD_some] at stands
        subst stands
        obtain ⟨⟨value, rest⟩, bare, whole⟩ := Option.bind_eq_some_iff.mp read
        dsimp only at whole
        split at whole
        · obtain rfl := Option.some.inj whole
          have shorter := length_of_isMarked marked bare
          have skipped := (List.dropWhile_suffix (l := content.toList) isSpace).length_le
          exact absurd (Nat.lt_of_lt_of_le shorter skipped) (Nat.lt_irrefl _)
        · cases whole
  · rw [if_neg marked]
    by_cases separated : ∃ character ∈ content.toList, isSeparator character
    · rw [whole?_of_separator marked separated]
      exact iff_of_true rfl (Or.inl separated)
    · rw [whole?_of_plain marked separated, Option.getD_some, or_iff_right separated]
      rw [← Value.text?_eq_some_iff, text?_plain, trim_skipSpaces]
      by_cases trimmed : Text.trim content.toList = content.toList
      · rw [trimmed, and_iff_right rfl]
        by_cases numeric : IsNumeric content.toList
        · rw [if_pos numeric]
          exact ⟨nofun, fun other => absurd numeric other⟩
        · rw [if_neg numeric, String.ofList_toList]
          exact iff_of_true rfl numeric
      · refine iff_of_false (fun same => trimmed ?_) fun stands => trimmed stands.1
        split at same
        · cases same
        · have equal := congrArg String.toList (Option.some.inj same)
          rwa [String.toList_ofList] at equal

end Variables
end Settings
end InventoryGauges
