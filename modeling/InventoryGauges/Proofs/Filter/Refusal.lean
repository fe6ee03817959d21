import InventoryGauges.CommandLine
import InventoryGauges.Proofs.Filter.Texts
import InventoryGauges.Proofs.Filter.Walk

/-!
# Refused filters

What was read of a refused filter is the start of an accepted one.  The offset
of the refusal is its length in bytes, so the mark that is printed below the
filter stands between two characters.
-/

namespace InventoryGauges
namespace Filter

open Text

variable {text unread : List Char}

/-! ## Starts of segments -/

/-- A text that starts some segment. -/
def StartsSegment (text : List Char) : Prop :=
  ∃ rest, IsSegment IsQuotable (text ++ rest)

/-- A text that, after a first segment, starts the further segments of a
combinator and its end. -/
def StartsSegments (first text : List Char) : Prop :=
  ∃ rest segments closing, AreSegments IsQuotable segments ∧ Padded (IsSign ')') closing ∧
    first ++ (text ++ rest) = segments ++ closing

theorem isQuotable_nil : IsQuotable [] :=
  isQuotableAfter_quote.mp (isQuotableAfter_nil '"')

theorem exists_isComparison : ∃ text, IsComparison IsQuotable text :=
  ⟨_, isComparison_iff.mpr ⟨[], isQuotable_nil,
    isComparison_of_tokens "eq" (by decide) (isField_singleton 'a' rfl) []⟩⟩

theorem exists_areSegments : ∃ text, AreSegments IsQuotable text :=
  exists_isComparison.imp fun _ comparison => .one (.comparison comparison)

theorem IsBlanks.padded_append {language : List Char → Prop} {blanks : List Char}
    (blank : IsBlanks blanks) (padded : Padded language text) :
    Padded language (blanks ++ text) := by
  obtain ⟨before, core, after, blankBefore, inLanguage, blankAfter, rfl⟩ := padded
  exact ⟨blanks ++ before, core, after, blank.append blankBefore, inLanguage, blankAfter, by simp⟩

theorem IsBlanks.startsSegment {blanks : List Char} (blank : IsBlanks blanks) :
    StartsSegment blanks := by
  obtain ⟨_, function, opening, field, comma, quoted, closing, named, others⟩ :=
    exists_isComparison
  obtain ⟨opens, isField, separates, inQuotes, closes, -⟩ := others
  refine ⟨function ++ (opening ++ (field ++ (comma ++ (quoted ++ closing)))), .comparison
    ⟨blanks ++ function, opening, field, comma, quoted, closing, blank.padded_append named, opens,
      isField, separates, inQuotes, closes, ?_⟩⟩
  rw [List.append_assoc]

/-- The head of a combinator starts one, with the start of its first segment or
without. -/
theorem startsSegment_of_head {function opening start : List Char}
    (named : Padded (IsKeyword combinatorKeywords) function) (opens : Padded (IsSign '(') opening)
    (goesOn : ∃ rest, AreSegments IsQuotable (start ++ rest)) :
    StartsSegment (function ++ (opening ++ start)) := by
  obtain ⟨rest, listed⟩ := goesOn
  refine ⟨rest ++ [')'], ?_⟩
  have whole := IsSegment.combinator named opens listed (padded_of_core rfl : Padded (IsSign ')') _)
  simpa using whole

theorem exists_startsSegment_of_head_unread (refused : dropCombinatorHead text = .error unread) :
    ∃ read, text = read ++ unread ∧ StartsSegment read := by
  unfold dropCombinatorHead at refused
  split at refused
  · obtain rfl := Except.error.inj refused
    obtain ⟨blanks, blank, whole⟩ := exists_isBlanks_append_skipBlanks text
    exact ⟨blanks, whole, blank.startsSegment⟩
  · rename_i left functionRead
    split at refused
    · obtain rfl := Except.error.inj refused
      obtain ⟨function, named, rfl⟩ := takes_combinatorKeyword.exists_padded functionRead
      obtain ⟨blanks, blank, whole⟩ := exists_isBlanks_append_skipBlanks left
      obtain ⟨segments, listed⟩ := exists_areSegments
      have opens := blank.padded_append (padded_of_core rfl : Padded (IsSign '(') ['('])
      have goesOn : ∃ rest, AreSegments IsQuotable ([] ++ rest) := ⟨segments, listed⟩
      obtain ⟨rest, segment⟩ := startsSegment_of_head named opens goesOn
      exact ⟨function ++ blanks, by rw [List.append_assoc, ← whole], ['('] ++ rest,
        by simpa using segment⟩
    · cases refused

/-! ## Refusals -/

theorem bind_eq_error_iff {Failure Value Result : Type} {first : Except Failure Value}
    {next : Value → Except Failure Result} {failure : Failure} :
    (first >>= next) = .error failure ↔
      first = .error failure ∨ ∃ value, first = .ok value ∧ next value = .error failure := by
  cases first <;> simp [bind, Except.bind]

/-- A segment is refused in the head of a combinator, in its first segment or
after that. -/
theorem cases_of_afterSegment_eq_error (refused : afterSegment text = .error unread) :
    dropCombinatorHead text = .error unread ∨ ∃ opened, dropCombinatorHead text = .ok opened ∧
      (afterSegment opened = .error unread ∨
        ∃ left, afterSegment opened = .ok left ∧ afterSegments left = .error unread) := by
  rw [afterSegment_eq] at refused
  split at refused
  · cases refused
  · simpa only [bind_eq_error_iff] using refused

/-- Further segments are refused where neither a parenthesis nor a comma
follows, in the segment after a comma or after that. -/
theorem cases_of_afterSegments_eq_error (refused : afterSegments text = .error unread) :
    skipBlanks text = unread ∨ ∃ next, skipBlanks text = ',' :: next ∧
      (afterSegment next = .error unread ∨
        ∃ left, afterSegment next = .ok left ∧ afterSegments left = .error unread) := by
  rw [afterSegments_eq] at refused
  split at refused
  · cases refused
  · rename_i next skipped
    exact Or.inr ⟨next, skipped, bind_eq_error_iff.mp refused⟩
  · exact Or.inl (Except.error.inj refused)

mutual

/-- What was read of a refused segment starts a segment. -/
theorem exists_startsSegment {text unread : List Char}
    (refused : afterSegment text = .error unread) :
    ∃ read, text = read ++ unread ∧ StartsSegment read := by
  rcases cases_of_afterSegment_eq_error refused with head | ⟨opened, head, inside⟩
  · exact exists_startsSegment_of_head_unread head
  · have openedShorter := length_lt_of_dropCombinatorHead head
    obtain ⟨function, opening, named, opens, rfl⟩ := exists_padded_of_dropCombinatorHead head
    rcases inside with first | ⟨left, first, others⟩
    · obtain ⟨read, rfl, rest, segment⟩ := exists_startsSegment first
      exact ⟨function ++ (opening ++ read), by simp,
        startsSegment_of_head named opens ⟨rest, .one segment⟩⟩
    · have leftShorter := length_lt_of_afterSegment first
      obtain ⟨segment, isSegment, rfl⟩ := exists_isSegment_of_afterSegment first
      obtain ⟨read, rfl, rest, segments, closing, listed, closes, shape⟩ :=
        exists_startsSegments others isSegment
      refine ⟨function ++ (opening ++ (segment ++ read)), by simp, rest, ?_⟩
      have whole := IsSegment.combinator named opens listed closes
      rw [← shape] at whole
      simpa using whole
  termination_by text.length

/-- What was read of refused segments after a first one goes on with segments. -/
theorem exists_startsSegments {text unread first : List Char}
    (refused : afterSegments text = .error unread) (segment : IsSegment IsQuotable first) :
    ∃ read, text = read ++ unread ∧ StartsSegments first read := by
  obtain ⟨blanks, blank, whole⟩ := exists_isBlanks_append_skipBlanks text
  rcases cases_of_afterSegments_eq_error refused with rfl | ⟨next, skipped, further⟩
  · exact ⟨blanks, whole, [')'], first, blanks ++ [')'], .one segment,
      blank.padded_append (padded_of_core rfl), rfl⟩
  · have skippedShorter := length_skipBlanks_le text
    have nextShorter : next.length < (skipBlanks text).length := by simp [skipped]
    have comma : Padded (IsSign ',') (blanks ++ [',']) := blank.padded_append (padded_of_core rfl)
    rw [skipped] at whole
    rcases further with second | ⟨left, second, others⟩
    · obtain ⟨read, rfl, rest, segmentNext⟩ := exists_startsSegment second
      exact ⟨blanks ++ ',' :: read, by simp [whole], rest ++ [')'], _, [')'],
        .more segment comma (.one segmentNext), padded_of_core rfl, by simp⟩
    · have leftShorter := length_lt_of_afterSegment second
      obtain ⟨following, segmentNext, rfl⟩ := exists_isSegment_of_afterSegment second
      obtain ⟨read, rfl, rest, segments, closing, listed, closes, shape⟩ :=
        exists_startsSegments others segmentNext
      refine ⟨blanks ++ ',' :: (following ++ read), by simp [whole], rest, _, closing,
        .more segment comma listed, closes, ?_⟩
      simp [← shape]
  termination_by text.length

end

/-! ## The offset -/

/-- What was read of a refused filter starts a segment, and the offset is its
length. -/
theorem exists_startsSegment_of_check {filter : String} {error : SyntaxError}
    (refused : check filter = .error error) :
    ∃ read unread, filter.toList = read ++ unread ∧ error.offset = byteLength read ∧
      StartsSegment read := by
  have nonempty : filter.toList ≠ [] := by
    intro empty
    simp [check, empty] at refused
  rw [Cursor.check_eq_of_afterSegment nonempty] at refused
  cases dropped : afterSegment filter.toList with
  | error unread =>
      rw [dropped] at refused
      obtain rfl := Except.error.inj refused
      obtain ⟨read, whole, starts⟩ := exists_startsSegment dropped
      refine ⟨read, unread, whole, ?_, starts⟩
      rw [whole, byteLength_append, Nat.add_sub_cancel]
  | ok unread =>
      obtain ⟨read, segment, whole⟩ := exists_isSegment_of_afterSegment dropped
      rw [dropped] at refused
      dsimp only at refused
      split at refused
      · cases refused
      · obtain rfl := Except.error.inj refused
        refine ⟨read, unread, whole, ?_, [], by rwa [List.append_nil]⟩
        rw [whole, byteLength_append, Nat.add_sub_cancel]

theorem utf8ByteSize_ofList (text : List Char) :
    (String.ofList text).utf8ByteSize = byteLength text := by
  induction text with
  | nil => rfl
  | cons character text hypothesis =>
      rw [String.ofList_cons, String.utf8ByteSize_append, String.utf8ByteSize_singleton,
        hypothesis, byteLength_cons]

theorem charactersWithin_byteLength (read unread : List Char) :
    CommandLine.charactersWithin (byteLength read) (read ++ unread) = read.length := by
  induction read with
  | nil =>
      cases unread with
      | nil => rfl
      | cons character unread =>
          rw [List.nil_append, CommandLine.charactersWithin, byteLength_nil,
            if_neg (Nat.not_le.mpr character.utf8Size_pos)]
          rfl
  | cons character read hypothesis =>
      rw [List.cons_append, CommandLine.charactersWithin, byteLength_cons,
        if_pos (Nat.le_add_right _ _), Nat.add_sub_cancel_left, hypothesis, List.length_cons]

/-- A refused filter is walked over without leaving its characters.  The offset
of the refusal lies between two of them, where the printed mark stands, and what
comes before it is the start of an accepted filter. -/
theorem exists_completion_of_check_eq_error {filter : String} {error : SyntaxError}
    (refused : check filter = .error error) :
    Cursor.check filter = some (.error error) ∧
      error.offset ≤ filter.utf8ByteSize ∧ (⟨error.offset⟩ : String.Pos.Raw).IsValid filter ∧
      ∃ read unread : String, filter = read ++ unread ∧ error.offset = read.utf8ByteSize ∧
        CommandLine.checkFilter filter =
          .failure (CommandLine.lines ["❌ Filter is invalid", "  " ++ filter,
            "  " ++ String.ofList (List.replicate read.length ' ') ++ "^"]) (.filter error) ∧
        ∃ rest, check (read ++ rest) = .ok () := by
  obtain ⟨read, unread, whole, offset, rest, segment⟩ := exists_startsSegment_of_check refused
  have joined : filter = String.ofList read ++ String.ofList unread := by
    rw [← String.ofList_append, ← whole, String.ofList_toList]
  have size : error.offset = (String.ofList read).utf8ByteSize := by
    rw [offset, utf8ByteSize_ofList]
  have valid : (⟨error.offset⟩ : String.Pos.Raw).IsValid filter :=
    String.Pos.Raw.isValid_iff_exists_append.mpr ⟨_, _, joined, by rw [size]; rfl⟩
  refine ⟨by rw [Cursor.check_eq, refused], valid.le_utf8ByteSize, valid, _, _, joined, size, ?_,
    String.ofList rest, ?_⟩
  · rw [CommandLine.checkFilter, refused]
    dsimp only
    rw [offset, whole, charactersWithin_byteLength, String.length_ofList]
  · rw [check_eq_ok_iff_isSegment, String.toList_append, String.toList_ofList,
      String.toList_ofList]
    exact Or.inr segment

theorem exists_completion_of_second_segment :
    check "or(eq(a,\"é\"),ü)" = .error ⟨14⟩ ∧
      (⟨14⟩ : String.Pos.Raw).IsValid "or(eq(a,\"é\"),ü)" ∧
      ∃ read unread : String, "or(eq(a,\"é\"),ü)" = read ++ unread ∧ 14 = read.utf8ByteSize ∧
        ∃ rest, check (read ++ rest) = .ok () := by
  have segment : IsSegment IsQuotable "eq(a,\"é\")".toList :=
    .comparison (isComparison_iff.mpr ⟨['é'], ⟨by decide, (by decide : NeverCloses ['é'])⟩,
      isComparison_of_tokens "eq" (by decide) (isField_singleton 'a' rfl) ['é']⟩)
  have refused : check "or(eq(a,\"é\"),ü)" = .error ⟨14⟩ := by
    have first : afterSegment "eq(a,\"é\"),ü)".toList = .ok ",ü)".toList :=
      segment.afterSegment_append ",ü)".toList
    have second : afterSegment "ü)".toList = .error "ü)".toList := by
      rw [afterSegment_eq]
      rfl
    have further : afterSegments ",ü)".toList = .error "ü)".toList := by
      rw [afterSegments_eq]
      exact congrArg (· >>= afterSegments) second
    have whole : afterSegment "or(eq(a,\"é\"),ü)".toList = .error "ü)".toList := by
      rw [afterSegment_eq]
      exact (congrArg (· >>= afterSegments) first).trans further
    rw [Cursor.check_eq_of_afterSegment (by decide), whole]
    rfl
  obtain ⟨-, -, valid, read, unread, joined, size, -, completed⟩ :=
    exists_completion_of_check_eq_error refused
  exact ⟨refused, valid, read, unread, joined, size, completed⟩

end Filter
end InventoryGauges
