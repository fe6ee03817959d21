import InventoryGauges.Proofs.Filter.Grammar
import Mathlib.Data.List.DropRight

/-!
# Reading the tokens of a filter

Each reader takes exactly the texts of its language off the front of a text.
-/

namespace InventoryGauges
namespace Filter

open Text

variable {text rest : List Char}

/-! ## Blanks -/

theorem isBlanks_nil : IsBlanks [] :=
  List.forall_mem_nil _

theorem IsBlanks.append {first last : List Char} (left : IsBlanks first) (right : IsBlanks last) :
    IsBlanks (first ++ last) := by
  intro character member
  exact (List.mem_append.mp member).elim (left character) (right character)

theorem IsBlanks.skipBlanks_append {blanks : List Char} (blank : IsBlanks blanks)
    (rest : List Char) : skipBlanks (blanks ++ rest) = skipBlanks rest :=
  List.dropWhile_append_of_pos blank

theorem exists_isBlanks_append_skipBlanks (text : List Char) :
    ∃ blanks, IsBlanks blanks ∧ text = blanks ++ skipBlanks text := by
  refine ⟨text.takeWhile isBlank, ?_, List.takeWhile_append_dropWhile.symm⟩
  intro character member
  exact List.mem_takeWhile_imp member

theorem skipBlanks_cons {character : Char} (plain : isBlank character = false)
    (rest : List Char) : skipBlanks (character :: rest) = character :: rest := by
  simp [skipBlanks, plain]

theorem skipBlanks_skipBlanks (text : List Char) :
    skipBlanks (skipBlanks text) = skipBlanks text :=
  List.dropWhile_idempotent isBlank text

/-! ## Tokens -/

/-- A reader takes the texts of a language off the front, provided that what is
left may follow them. -/
structure Takes (drop? : List Char → Option (List Char)) (language : List Char → Prop)
    (follows : List Char → Prop) : Prop where
  /-- No text of the language starts with a blank. -/
  plain : ∀ {core : List Char}, language core →
    ∃ character rest, core = character :: rest ∧ isBlank character = false
  /-- What is taken is a text of the language. -/
  sound : ∀ {text rest : List Char}, drop? text = some rest →
    ∃ core, language core ∧ text = core ++ rest
  /-- Each text of the language is taken. -/
  complete : ∀ {core rest : List Char}, language core → follows rest →
    drop? (core ++ rest) = some rest

namespace Takes

variable {drop? : List Char → Option (List Char)} {language follows : List Char → Prop}

theorem skipBlanks_append (takes : Takes drop? language follows) {core : List Char}
    (inLanguage : language core) (rest : List Char) :
    skipBlanks (core ++ rest) = core ++ rest := by
  obtain ⟨character, others, rfl, plain⟩ := takes.plain inLanguage
  exact skipBlanks_cons plain (others ++ rest)

theorem ne_nil (takes : Takes drop? language follows) {token : List Char}
    (padded : Padded language token) : token ≠ [] := by
  obtain ⟨before, core, after, -, inLanguage, -, rfl⟩ := padded
  obtain ⟨character, others, rfl, -⟩ := takes.plain inLanguage
  simp

theorem exists_padded (takes : Takes drop? language follows)
    (dropped : drop? (skipBlanks text) = some rest) :
    ∃ token, Padded language token ∧ text = token ++ rest := by
  obtain ⟨core, inLanguage, shape⟩ := takes.sound dropped
  obtain ⟨blanks, blank, whole⟩ := exists_isBlanks_append_skipBlanks text
  refine ⟨blanks ++ core, ⟨blanks, core, [], blank, inLanguage, isBlanks_nil, by simp⟩, ?_⟩
  rw [List.append_assoc, ← shape]
  exact whole

/-- After a token, the same is left up to blanks as follows it. -/
theorem exists_dropped (takes : Takes drop? language follows) {token : List Char}
    (padded : Padded language token) (same : skipBlanks text = skipBlanks (token ++ rest))
    (follow : ∀ blanks, IsBlanks blanks → follows (blanks ++ rest)) :
    ∃ left, drop? (skipBlanks text) = some left ∧ skipBlanks left = skipBlanks rest := by
  obtain ⟨before, core, after, blankBefore, inLanguage, blankAfter, rfl⟩ := padded
  refine ⟨after ++ rest, ?_, blankAfter.skipBlanks_append rest⟩
  rw [same, List.append_assoc, blankBefore.skipBlanks_append, List.append_assoc,
    takes.skipBlanks_append inLanguage]
  exact takes.complete inLanguage (follow after blankAfter)

end Takes

/-- Nothing is asked of what is left. -/
def Anything (_rest : List Char) : Prop :=
  True

theorem takes_sign {character : Char} (plain : isBlank character = false) :
    Takes (dropCharacter? character) (IsSign character) Anything where
  plain := by
    rintro core rfl
    exact ⟨character, [], rfl, plain⟩
  sound := by
    intro text rest dropped
    exact ⟨[character], rfl, (dropStart?_eq_some_iff _ _ _).mp dropped⟩
  complete := by
    rintro core rest rfl -
    exact (dropStart?_eq_some_iff _ _ _).mpr rfl

/-! ## Keywords -/

/-- Keywords that can be told apart by what they start with. -/
def AreApart (keywords others : List String) : Prop :=
  ∀ keyword ∈ keywords, ∀ other ∈ others, keyword.toList <+: other.toList → keyword = other

instance (keywords others : List String) : Decidable (AreApart keywords others) :=
  inferInstanceAs (Decidable (∀ keyword ∈ keywords, ∀ other ∈ others,
    keyword.toList <+: other.toList → keyword = other))

theorem eq_of_dropStart? {keyword other : String} {rest left : List Char}
    {keywords others : List String} (apart : AreApart keywords others)
    (apartOther : AreApart others keywords) (member : keyword ∈ keywords)
    (inOthers : other ∈ others)
    (dropped : dropStart? keyword.toList (other.toList ++ rest) = some left) : keyword = other := by
  have shape := (dropStart?_eq_some_iff _ _ _).mp dropped
  have starts : keyword.toList <+: other.toList ++ rest := ⟨left, shape.symm⟩
  rcases List.prefix_or_prefix_of_prefix starts (List.prefix_append other.toList rest) with
    shorter | longer
  · exact apart keyword member other inOthers shorter
  · exact (apartOther other inOthers keyword member longer).symm

theorem takes_keyword {keywords : List String} (apart : AreApart keywords keywords)
    (plain : ∀ keyword ∈ keywords, ∃ character rest,
      keyword.toList = character :: rest ∧ isBlank character = false) :
    Takes (dropKeyword? keywords) (IsKeyword keywords) Anything where
  plain := by
    rintro core ⟨keyword, member, rfl⟩
    exact plain keyword member
  sound := by
    intro text rest dropped
    obtain ⟨keyword, member, found⟩ := List.exists_of_findSome?_eq_some dropped
    exact ⟨keyword.toList, ⟨keyword, member, rfl⟩, (dropStart?_eq_some_iff _ _ _).mp found⟩
  complete := by
    rintro core rest ⟨keyword, member, rfl⟩ -
    have found : dropStart? keyword.toList (keyword.toList ++ rest) = some rest :=
      (dropStart?_eq_some_iff _ _ _).mpr rfl
    cases dropped : dropKeyword? keywords (keyword.toList ++ rest) with
    | none =>
        rw [List.findSome?_eq_none_iff.mp dropped keyword member] at found
        cases found
    | some left =>
        obtain ⟨other, inKeywords, first⟩ := List.exists_of_findSome?_eq_some dropped
        obtain rfl := eq_of_dropStart? apart apart inKeywords member first
        exact first.symm.trans found

theorem dropKeyword?_eq_none {keywords others : List String} {other : String}
    (disjoint : ∀ keyword ∈ keywords, keyword ∉ others) (apart : AreApart keywords others)
    (apartOther : AreApart others keywords) (member : other ∈ others) (rest : List Char) :
    dropKeyword? keywords (other.toList ++ rest) = none := by
  apply List.findSome?_eq_none_iff.mpr
  intro keyword inKeywords
  cases dropped : dropStart? keyword.toList (other.toList ++ rest) with
  | none => rfl
  | some left =>
      obtain rfl := eq_of_dropStart? apart apartOther inKeywords member dropped
      exact absurd member (disjoint keyword inKeywords)

theorem takes_comparisonKeyword :
    Takes (dropKeyword? comparisonKeywords) (IsKeyword comparisonKeywords) Anything :=
  takes_keyword (by decide) (by simp [comparisonKeywords]; decide)

theorem takes_combinatorKeyword :
    Takes (dropKeyword? combinatorKeywords) (IsKeyword combinatorKeywords) Anything :=
  takes_keyword (by decide) (by simp [combinatorKeywords]; decide)

/-! ## Fields -/

/-- No field name goes on with the text. -/
def EndsField (rest : List Char) : Prop :=
  ∀ character ∈ rest.head?, isFieldCharacter character = false ∧ character ≠ '.'

theorem takeWhile_append_of_isRun {run : List Char} (isRun : IsRun run)
    (ends : ∀ character ∈ rest.head?, isFieldCharacter character = false) :
    (run ++ rest).takeWhile isFieldCharacter = run ∧
      (run ++ rest).dropWhile isFieldCharacter = rest := by
  rw [List.takeWhile_append_of_pos isRun.2, List.dropWhile_append_of_pos isRun.2]
  cases rest with
  | nil => simp
  | cons character rest => simp [ends character rfl]

theorem dropField?_append_of_isRun {run : List Char} (isRun : IsRun run)
    (ends : ∀ character ∈ rest.head?, isFieldCharacter character = false) :
    dropField? (run ++ rest) = some (dropFieldParts rest) := by
  obtain ⟨taken, dropped⟩ := takeWhile_append_of_isRun isRun ends
  rw [dropField?, taken, dropped, if_neg isRun.1]

theorem dropFieldParts_of_endsField (ends : EndsField rest) : dropFieldParts rest = rest := by
  rw [dropFieldParts.eq_def]
  split
  · exact absurd rfl (ends '.' rfl).2
  · rfl

theorem dropFieldParts_dot (text : List Char) :
    dropFieldParts ('.' :: text) = (dropField? text).getD ('.' :: text) := by
  rw [dropFieldParts, dropField?]
  split <;> rfl

theorem isField_append_dropped (text : List Char) :
    ∃ parts, text = parts ++ dropFieldParts text ∧
      ∀ first, IsRun first → IsField (first ++ parts) := by
  fun_induction dropFieldParts text with
  | case1 rest =>
      exact ⟨[], rfl, fun first isRun => by simpa using IsField.run isRun⟩
  | case2 rest nonempty hypothesis =>
      obtain ⟨parts, shape, goesOn⟩ := hypothesis
      refine ⟨'.' :: (rest.takeWhile isFieldCharacter ++ parts), ?_, ?_⟩
      · rw [List.cons_append, List.append_assoc, ← shape, List.takeWhile_append_dropWhile]
      · intro first isRun
        exact .dotted isRun (goesOn _ ⟨nonempty, fun _ => List.mem_takeWhile_imp⟩)
  | case3 text =>
      exact ⟨[], rfl, fun first isRun => by simpa using IsField.run isRun⟩

theorem isBlank_eq_false_of_printable {character : Char} (least : 0x21 ≤ character.toNat)
    (greatest : character.toNat ≤ 0x7e) : isBlank character = false := by
  simp only [isBlank, Bool.or_eq_false_iff, Bool.and_eq_false_iff, decide_eq_false_iff_not,
    beq_eq_false_iff_ne]
  omega

theorem printable_of_isFieldCharacter {character : Char}
    (inField : isFieldCharacter character) : 48 ≤ character.toNat ∧ character.toNat ≤ 122 := by
  have letter : character.isAlpha = (decide (character.val ≥ 'A'.val ∧ character.val ≤ 'Z'.val) ||
      (decide (character.val ≥ 'a'.val) && decide (character.val ≤ 'z'.val))) := rfl
  simp only [isFieldCharacter, Char.isAlphanum, letter, Char.isDigit, Bool.or_eq_true,
    Bool.and_eq_true, decide_eq_true_eq, beq_iff_eq, ge_iff_le, UInt32.le_iff_toNat_le,
    Char.toNat_val] at inField
  rcases inField with ((upper | lower) | digit) | rfl
  · exact ⟨Nat.le_trans (by decide) upper.1, Nat.le_trans upper.2 (by decide)⟩
  · exact ⟨Nat.le_trans (by decide) lower.1, Nat.le_trans lower.2 (by decide)⟩
  · exact ⟨Nat.le_trans (by decide) digit.1, Nat.le_trans digit.2 (by decide)⟩
  · decide

theorem isBlank_of_isFieldCharacter {character : Char} (inField : isFieldCharacter character) :
    isBlank character = false := by
  have printable := printable_of_isFieldCharacter inField
  exact isBlank_eq_false_of_printable (by omega) (by omega)

theorem exists_cons_of_isField {core : List Char} (isField : IsField core) :
    ∃ character rest, core = character :: rest ∧ isFieldCharacter character := by
  have first {run : List Char} (isRun : IsRun run) (rest : List Char) :
      ∃ character others, run ++ rest = character :: others ∧ isFieldCharacter character := by
    obtain ⟨nonempty, each⟩ := isRun
    cases run with
    | nil => exact absurd rfl nonempty
    | cons character run => exact ⟨character, run ++ rest, rfl, each character List.mem_cons_self⟩
  cases isField with
  | run isRun => simpa using first isRun []
  | dotted isRun field => exact first isRun _

theorem endsField_of_isBlanks_append {blanks : List Char} (blank : IsBlanks blanks)
    (ends : EndsField rest) : EndsField (blanks ++ rest) := by
  cases blanks with
  | nil => exact ends
  | cons first blanks =>
      rintro _ ⟨⟩
      have firstBlank := blank first List.mem_cons_self
      constructor
      · cases inField : isFieldCharacter first with
        | false => rfl
        | true =>
            rw [isBlank_of_isFieldCharacter inField] at firstBlank
            cases firstBlank
      · rintro rfl
        cases firstBlank

theorem takes_field : Takes dropField? IsField EndsField where
  plain := by
    intro core isField
    obtain ⟨character, rest, shape, inField⟩ := exists_cons_of_isField isField
    exact ⟨character, rest, shape, isBlank_of_isFieldCharacter inField⟩
  sound := by
    intro text rest dropped
    unfold dropField? at dropped
    split at dropped
    · cases dropped
    · rename_i nonempty
      obtain rfl := Option.some.inj dropped
      obtain ⟨parts, shape, goesOn⟩ := isField_append_dropped (text.dropWhile isFieldCharacter)
      refine ⟨_, goesOn _ ⟨nonempty, fun _ => List.mem_takeWhile_imp⟩, ?_⟩
      rw [List.append_assoc, ← shape, List.takeWhile_append_dropWhile]
  complete := by
    intro core rest isField ends
    induction isField with
    | run isRun =>
        rw [dropField?_append_of_isRun isRun fun character head => (ends character head).1,
          dropFieldParts_of_endsField ends]
    | @dotted first field isRun isField hypothesis =>
        rw [List.append_assoc, List.cons_append, dropField?_append_of_isRun isRun (by simp; decide),
          dropFieldParts_dot, hypothesis]
        rfl

/-! ## Quoted texts -/

theorem closes_iff : Closes text ↔ ∃ after, skipBlanks text = ')' :: after := by
  constructor
  · rintro ⟨blanks, after, blank, rfl⟩
    exact ⟨after, by rw [blank.skipBlanks_append, skipBlanks_cons rfl]⟩
  · rintro ⟨after, skipped⟩
    obtain ⟨blanks, blank, shape⟩ := exists_isBlanks_append_skipBlanks text
    exact ⟨blanks, after, blank, skipped ▸ shape⟩

/-- No parenthesis is found beyond a quote. -/
theorem closes_append_quote (inner rest : List Char) :
    Closes (inner ++ '"' :: rest) ↔ Closes inner := by
  rw [closes_iff, closes_iff]
  induction inner with
  | nil => simp [skipBlanks, isBlank]
  | cons character inner hypothesis =>
      cases blank : isBlank character with
      | true => simpa [skipBlanks, blank] using hypothesis
      | false => simp [skipBlanks, blank]

/-- What may stand in quotes after a character of the text. -/
def IsQuotableAfter (previous : Char) (inner : List Char) : Prop :=
  ∀ before after, inner = before ++ '"' :: after →
    (previous :: before).getLast? = some '\\' ∧ ¬ Closes after

theorem isQuotableAfter_nil (previous : Char) : IsQuotableAfter previous [] := by
  intro before after shape
  simp at shape

theorem isQuotableAfter_cons {previous character : Char} {inner : List Char} :
    IsQuotableAfter previous (character :: inner) ↔
      (character = '"' → previous = '\\' ∧ ¬ Closes inner) ∧ IsQuotableAfter character inner := by
  constructor
  · intro quotable
    refine ⟨?_, ?_⟩
    · rintro rfl
      simpa using quotable [] inner rfl
    · rintro before after rfl
      exact quotable (character :: before) after rfl
  · rintro ⟨now, later⟩ before after shape
    cases before with
    | nil =>
        obtain ⟨rfl, rfl⟩ := List.cons.inj shape
        simpa using now rfl
    | cons first before =>
        obtain ⟨rfl, rfl⟩ := List.cons.inj shape
        exact later before after rfl

/-- The opening quote escapes nothing. -/
theorem isQuotableAfter_quote {inner : List Char} :
    IsQuotableAfter '"' inner ↔ IsQuotable inner := by
  have same (before : List Char) :
      ('"' :: before).getLast? = some '\\' ↔ before.getLast? = some '\\' := by
    cases before <;> simp
  simp only [IsQuotableAfter, IsQuotable, EscapesQuotes, same]
  grind

theorem dropTextAndClose?_of_closes {escaped : Bool} {after : List Char}
    (skipped : skipBlanks text = ')' :: after) :
    dropTextAndClose? escaped ('"' :: text) = some (skipBlanks after) := by
  rw [dropTextAndClose?, skipped]
  rfl

theorem dropTextAndClose?_of_not_closes {escaped : Bool} (unclosed : ¬ Closes text) :
    dropTextAndClose? escaped ('"' :: text) =
      if escaped then dropTextAndClose? false text else none := by
  rw [dropTextAndClose?]
  split
  · rename_i after skipped
    exact absurd (closes_iff.mpr ⟨after, skipped⟩) unclosed
  · rfl

/-- After a character, a text starts with what may stand in quotes, the closing
quote and a parenthesis, and what is left follows these and blanks. -/
def LeavesAfter (previous : Char) (text rest : List Char) : Prop :=
  ∃ inner blanks after, IsQuotableAfter previous inner ∧ IsBlanks blanks ∧
    text = inner ++ '"' :: (blanks ++ ')' :: after) ∧ rest = skipBlanks after

theorem leavesAfter_cons {previous character : Char} :
    LeavesAfter previous (character :: text) rest ↔
      (character = '"' ∧ ∃ after, skipBlanks text = ')' :: after ∧ rest = skipBlanks after) ∨
        (character = '"' → previous = '\\' ∧ ¬ Closes text) ∧ LeavesAfter character text rest := by
  constructor
  · rintro ⟨inner, blanks, after, quotable, blank, shape, rfl⟩
    cases inner with
    | nil =>
        obtain ⟨rfl, rfl⟩ := List.cons.inj shape
        refine Or.inl ⟨rfl, after, ?_, rfl⟩
        rw [blank.skipBlanks_append, skipBlanks_cons rfl]
    | cons first inner =>
        obtain ⟨rfl, rfl⟩ := List.cons.inj shape
        obtain ⟨now, later⟩ := isQuotableAfter_cons.mp quotable
        refine Or.inr ⟨fun quote => ⟨(now quote).1, fun closes => (now quote).2 ?_⟩,
          inner, blanks, after, later, blank, rfl, rfl⟩
        exact (closes_append_quote inner _).mp closes
  · rintro (⟨rfl, after, skipped, rfl⟩ | ⟨now, inner, blanks, after, later, blank, rfl, rfl⟩)
    · obtain ⟨blanks, blank, shape⟩ := exists_isBlanks_append_skipBlanks text
      refine ⟨[], blanks, after, isQuotableAfter_nil previous, blank, ?_, rfl⟩
      rw [List.nil_append, ← skipped, ← shape]
    · rw [closes_append_quote] at now
      exact ⟨character :: inner, blanks, after, isQuotableAfter_cons.mpr ⟨now, later⟩, blank,
        rfl, rfl⟩

/-- Reading a quoted text and the parenthesis takes the text up to the first
quote that the parenthesis follows. -/
theorem dropTextAndClose?_eq_some_iff {previous : Char} :
    dropTextAndClose? (previous == '\\') text = some rest ↔ LeavesAfter previous text rest := by
  induction text generalizing previous with
  | nil => simp [dropTextAndClose?, LeavesAfter]
  | cons character text hypothesis =>
      rw [leavesAfter_cons, ← hypothesis]
      by_cases quote : character = '"'
      · subst quote
        by_cases closes : Closes text
        · obtain ⟨after, skipped⟩ := closes_iff.mp closes
          simp [dropTextAndClose?_of_closes skipped, skipped, closes, eq_comm]
        · have unclosed : ∀ after, skipBlanks text ≠ ')' :: after :=
            fun after skipped => closes (closes_iff.mpr ⟨after, skipped⟩)
          simp [dropTextAndClose?_of_not_closes closes, unclosed, closes]
      · simp [dropTextAndClose?, quote]

end Filter
end InventoryGauges
