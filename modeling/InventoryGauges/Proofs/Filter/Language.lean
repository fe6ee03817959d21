import InventoryGauges.Proofs.Filter.Reading

/-!
# The language of filters

A filter is accepted exactly if it is empty or all of it is one segment of the
grammar.
-/

namespace InventoryGauges
namespace Filter

open Text

variable {text rest : List Char}

/-! ## Comparisons -/

theorem exists_quoted_of_dropped {left : List Char}
    (opened : dropCharacter? '"' (skipBlanks text) = some left)
    (closed : dropTextAndClose? false left = some rest) :
    ∃ quoted closing, Padded (Quoted IsQuotable) quoted ∧ Padded (IsSign ')') closing ∧
      text = quoted ++ (closing ++ rest) := by
  obtain ⟨before, blankBefore, whole⟩ := exists_isBlanks_append_skipBlanks text
  have quote : skipBlanks text = '"' :: left := (dropStart?_eq_some_iff _ _ _).mp opened
  have leaves : LeavesAfter '"' left rest := dropTextAndClose?_eq_some_iff.mp closed
  obtain ⟨inner, between, after, quotable, blankBetween, rfl, rfl⟩ := leaves
  obtain ⟨last, blankLast, shape⟩ := exists_isBlanks_append_skipBlanks after
  refine ⟨before ++ ('"' :: (inner ++ ['"']) ++ []), between ++ ([')'] ++ last),
    ⟨before, _, [], blankBefore, ⟨inner, isQuotableAfter_quote.mp quotable, rfl⟩, isBlanks_nil,
      rfl⟩,
    ⟨between, _, last, blankBetween, rfl, blankLast, rfl⟩, ?_⟩
  calc text = before ++ '"' :: (inner ++ '"' :: (between ++ ')' :: after)) := by rw [whole, quote]
    _ = before ++ '"' :: (inner ++ '"' :: (between ++ ')' :: (last ++ skipBlanks after))) := by
        rw [← shape]
    _ = _ := by simp

theorem exists_dropped_of_quoted {quoted closing : List Char}
    (inQuotes : Padded (Quoted IsQuotable) quoted) (closes : Padded (IsSign ')') closing)
    (rest : List Char) :
    ∃ left, dropCharacter? '"' (skipBlanks (quoted ++ (closing ++ rest))) = some left ∧
      dropTextAndClose? false left = some (skipBlanks rest) := by
  obtain ⟨before, _, between, blankBefore, ⟨inner, quotable, rfl⟩, blankBetween, rfl⟩ := inQuotes
  obtain ⟨further, _, after, blankFurther, rfl, blankAfter, rfl⟩ := closes
  have leaves : LeavesAfter '"' (inner ++ '"' :: ((between ++ further) ++ ')' :: (after ++ rest)))
      (skipBlanks rest) :=
    ⟨inner, between ++ further, after ++ rest, isQuotableAfter_quote.mpr quotable,
      blankBetween.append blankFurther, rfl, (blankAfter.skipBlanks_append rest).symm⟩
  refine ⟨_, ?_, dropTextAndClose?_eq_some_iff.mpr leaves⟩
  rw [List.append_assoc, blankBefore.skipBlanks_append, List.append_assoc, List.cons_append,
    skipBlanks_cons rfl]
  apply (dropStart?_eq_some_iff _ _ _).mpr
  simp

/-- What is read as a comparison is one. -/
theorem exists_isComparison_of_dropped (dropped : dropComparison? text = some rest) :
    ∃ read, IsComparison IsQuotable read ∧ text = read ++ rest := by
  simp only [dropComparison?, bind, Option.bind_eq_some_iff] at dropped
  obtain ⟨_, functionRead, _, openingRead, _, fieldRead, _, commaRead, left, quoteRead,
    closed⟩ := dropped
  obtain ⟨function, named, rfl⟩ := takes_comparisonKeyword.exists_padded functionRead
  obtain ⟨opening, opens, rfl⟩ := (takes_sign rfl).exists_padded openingRead
  obtain ⟨field, isField, rfl⟩ := takes_field.exists_padded fieldRead
  obtain ⟨comma, separates, rfl⟩ := (takes_sign rfl).exists_padded commaRead
  obtain ⟨quoted, closing, inQuotes, closes, rfl⟩ := exists_quoted_of_dropped quoteRead closed
  refine ⟨_, ⟨function, opening, field, comma, quoted, closing, named, opens, isField, separates,
    inQuotes, closes, rfl⟩, ?_⟩
  simp

theorem endsField_of_padded_comma {comma : List Char} (separates : Padded (IsSign ',') comma)
    (rest : List Char) : EndsField (comma ++ rest) := by
  obtain ⟨before, _, after, blankBefore, rfl, -, rfl⟩ := separates
  rw [List.append_assoc]
  apply endsField_of_isBlanks_append blankBefore
  rintro _ ⟨⟩
  decide

/-- Each comparison is read, and the blanks that follow it. -/
theorem dropComparison?_append {read : List Char} (comparison : IsComparison IsQuotable read)
    (rest : List Char) : dropComparison? (read ++ rest) = some (skipBlanks rest) := by
  obtain ⟨function, opening, field, comma, quoted, closing, named, opens, isField, separates,
    inQuotes, closes, rfl⟩ := comparison
  simp only [List.append_assoc]
  obtain ⟨_, functionRead, same⟩ :=
    takes_comparisonKeyword.exists_dropped named rfl fun _ _ => trivial
  obtain ⟨_, openingRead, same⟩ := (takes_sign rfl).exists_dropped opens same fun _ _ => trivial
  obtain ⟨_, fieldRead, same⟩ := takes_field.exists_dropped isField same fun blanks blank =>
    endsField_of_isBlanks_append blank (endsField_of_padded_comma separates _)
  obtain ⟨_, commaRead, same⟩ := (takes_sign rfl).exists_dropped separates same fun _ _ => trivial
  obtain ⟨_, quoteRead, closed⟩ := exists_dropped_of_quoted inQuotes closes rest
  rw [← same] at quoteRead
  simp [dropComparison?, functionRead, openingRead, fieldRead, commaRead, quoteRead, closed]

/-! ## Combinators -/

theorem exists_padded_of_dropCombinatorHead (dropped : dropCombinatorHead text = .ok rest) :
    ∃ function opening, Padded (IsKeyword combinatorKeywords) function ∧
      Padded (IsSign '(') opening ∧ text = function ++ (opening ++ rest) := by
  unfold dropCombinatorHead at dropped
  split at dropped
  · cases dropped
  · rename_i functionRead
    split at dropped
    · cases dropped
    · rename_i openingRead
      obtain rfl := Except.ok.inj dropped
      obtain ⟨function, named, rfl⟩ := takes_combinatorKeyword.exists_padded functionRead
      obtain ⟨opening, opens, rfl⟩ := (takes_sign rfl).exists_padded openingRead
      exact ⟨function, opening, named, opens, rfl⟩

theorem exists_dropCombinatorHead_append {function opening : List Char}
    (named : Padded (IsKeyword combinatorKeywords) function) (opens : Padded (IsSign '(') opening)
    (rest : List Char) :
    ∃ left, dropCombinatorHead (function ++ (opening ++ rest)) = .ok left ∧
      skipBlanks left = skipBlanks rest := by
  obtain ⟨_, functionRead, same⟩ :=
    takes_combinatorKeyword.exists_dropped named rfl fun _ _ => trivial
  obtain ⟨left, openingRead, same⟩ :=
    (takes_sign rfl).exists_dropped opens same fun _ _ => trivial
  exact ⟨left, by simp [dropCombinatorHead, functionRead, openingRead], same⟩

/-- What starts like a combinator is no comparison. -/
theorem dropComparison?_eq_none {function : List Char}
    (named : Padded (IsKeyword combinatorKeywords) function) (rest : List Char) :
    dropComparison? (function ++ rest) = none := by
  obtain ⟨before, _, after, blankBefore, ⟨keyword, member, rfl⟩, -, rfl⟩ := named
  have unread : dropKeyword? comparisonKeywords (keyword.toList ++ (after ++ rest)) = none :=
    dropKeyword?_eq_none (by decide) (by decide) (by decide) member _
  rw [dropComparison?, List.append_assoc, blankBefore.skipBlanks_append, List.append_assoc,
    takes_combinatorKeyword.skipBlanks_append ⟨keyword, member, rfl⟩, unread]
  rfl

/-! ## Segments -/

/-- What follows a segment and blanks, or what was left unread. -/
def afterSegment (text : List Char) : Except (List Char) (List Char) :=
  (dropSegment text).map Subtype.val

/-- What follows the further segments of a combinator, its end and blanks, or
what was left unread. -/
def afterSegments (text : List Char) : Except (List Char) (List Char) :=
  (dropSegments text).map Subtype.val

theorem afterSegment_eq (text : List Char) :
    afterSegment text =
      match dropComparison? text with
      | some rest => .ok rest
      | none => dropCombinatorHead text >>= fun opened =>
          afterSegment opened >>= afterSegments := by
  rw [afterSegment, dropSegment]
  split
  · rename_i rest comparison
    simp only [comparison, Except.map]
  · rename_i none
    simp only [none]
    split
    · rename_i unread head
      simp only [head, Except.map, bind, Except.bind]
    · rename_i opened head
      simp only [head, bind, Except.bind, afterSegment]
      cases dropSegment opened with
      | error unread => rfl
      | ok first =>
          simp only [Except.map, afterSegments]
          cases dropSegments first.val <;> rfl

theorem afterSegments_eq (text : List Char) :
    afterSegments text =
      match skipBlanks text with
      | ')' :: rest => .ok (skipBlanks rest)
      | ',' :: next => afterSegment next >>= afterSegments
      | unread => .error unread := by
  rw [afterSegments, dropSegments]
  split
  · rename_i rest skipped
    simp only [skipped, Except.map]
  · rename_i next skipped
    simp only [skipped, bind, Except.bind, afterSegment]
    cases dropSegment next with
    | error unread => rfl
    | ok following =>
        simp only [Except.map, afterSegments]
        cases dropSegments following.val <;> rfl
  · rename_i noClose noComma
    split
    · rename_i rest skipped
      exact absurd skipped (noClose rest)
    · rename_i next skipped
      exact absurd skipped (noComma next)
    · rfl

theorem length_lt_of_afterSegment (dropped : afterSegment text = .ok rest) :
    rest.length < text.length := by
  unfold afterSegment at dropped
  cases read : dropSegment text with
  | error unread => simp [read, Except.map] at dropped
  | ok shorter =>
      rw [read] at dropped
      obtain rfl := Except.ok.inj dropped
      exact shorter.property

/-- Blanks before a segment do not matter. -/
theorem afterSegment_congr {left : List Char} (same : skipBlanks left = skipBlanks text) :
    afterSegment left = afterSegment text := by
  rw [afterSegment_eq left, afterSegment_eq text]
  simp only [dropComparison?, dropCombinatorHead, same]

theorem bind_eq_ok_iff {Failure Value Result : Type} {first : Except Failure Value}
    {next : Value → Except Failure Result} {result : Result} :
    (first >>= next) = .ok result ↔ ∃ value, first = .ok value ∧ next value = .ok result := by
  cases first <;> simp [bind, Except.bind]

theorem afterSegment_eq_ok_iff :
    afterSegment text = .ok rest ↔
      dropComparison? text = some rest ∨ dropComparison? text = none ∧ ∃ opened left,
        dropCombinatorHead text = .ok opened ∧ afterSegment opened = .ok left ∧
          afterSegments left = .ok rest := by
  rw [afterSegment_eq]
  cases dropComparison? text <;> simp [bind_eq_ok_iff]

theorem afterSegments_eq_ok_iff :
    afterSegments text = .ok rest ↔
      (∃ after, skipBlanks text = ')' :: after ∧ skipBlanks after = rest) ∨
        ∃ next left, skipBlanks text = ',' :: next ∧ afterSegment next = .ok left ∧
          afterSegments left = .ok rest := by
  rw [afterSegments_eq]
  split
  · rename_i after skipped
    simp [skipped]
  · rename_i next skipped
    simp [skipped, bind_eq_ok_iff]
  · rename_i noClose noComma
    simp only [reduceCtorEq, false_iff, not_or, not_exists, not_and]
    exact ⟨fun after skipped => absurd skipped (noClose after),
      fun next left skipped => absurd skipped (noComma next)⟩

mutual

/-- What is read as a segment is one. -/
theorem exists_isSegment_of_afterSegment {text rest : List Char}
    (dropped : afterSegment text = .ok rest) :
    ∃ read, IsSegment IsQuotable read ∧ text = read ++ rest := by
  rcases afterSegment_eq_ok_iff.mp dropped with
    comparison | ⟨-, opened, left, head, first, others⟩
  · obtain ⟨read, isComparison, shape⟩ := exists_isComparison_of_dropped comparison
    exact ⟨read, .comparison isComparison, shape⟩
  · have openedShorter := length_lt_of_dropCombinatorHead head
    have leftShorter := length_lt_of_afterSegment first
    obtain ⟨function, opening, named, opens, whole⟩ := exists_padded_of_dropCombinatorHead head
    obtain ⟨read, segment, inside⟩ := exists_isSegment_of_afterSegment first
    obtain ⟨segments, closing, listed, closes, shape⟩ :=
      exists_areSegments_of_afterSegments others segment
    refine ⟨function ++ (opening ++ (segments ++ closing)),
      .combinator named opens listed closes, ?_⟩
    rw [whole, inside, shape]
    simp
  termination_by text.length

/-- What is read as the further segments of a combinator goes on with segments
and ends with a parenthesis. -/
theorem exists_areSegments_of_afterSegments {text rest first : List Char}
    (dropped : afterSegments text = .ok rest) (segment : IsSegment IsQuotable first) :
    ∃ segments closing, AreSegments IsQuotable segments ∧ Padded (IsSign ')') closing ∧
      first ++ text = segments ++ (closing ++ rest) := by
  obtain ⟨before, blankBefore, whole⟩ := exists_isBlanks_append_skipBlanks text
  rcases afterSegments_eq_ok_iff.mp dropped with
    ⟨after, skipped, rfl⟩ | ⟨next, left, skipped, second, others⟩
  · obtain ⟨last, blankLast, shape⟩ := exists_isBlanks_append_skipBlanks after
    refine ⟨first, before ++ ([')'] ++ last), .one segment,
      ⟨before, _, last, blankBefore, rfl, blankLast, rfl⟩, ?_⟩
    calc first ++ text = first ++ (before ++ ')' :: after) := by rw [← skipped, ← whole]
      _ = first ++ (before ++ ')' :: (last ++ skipBlanks after)) := by rw [← shape]
      _ = _ := by simp
  · have skippedShorter := length_skipBlanks_le text
    have nextShorter : next.length < (skipBlanks text).length := by simp [skipped]
    have leftShorter := length_lt_of_afterSegment second
    obtain ⟨read, segmentNext, inside⟩ := exists_isSegment_of_afterSegment second
    obtain ⟨segments, closing, listed, closes, shape⟩ :=
      exists_areSegments_of_afterSegments others segmentNext
    refine ⟨first ++ ((before ++ ([','] ++ [])) ++ segments), closing,
      .more segment ⟨before, _, [], blankBefore, rfl, isBlanks_nil, rfl⟩ listed, closes, ?_⟩
    calc first ++ text = first ++ (before ++ ',' :: (read ++ left)) := by
          rw [← inside, ← skipped, ← whole]
      _ = _ := by
          rw [shape]
          simp
  termination_by text.length

end

mutual

/-- Each segment is read, and the blanks that follow it. -/
theorem IsSegment.afterSegment_append {text : List Char} :
    IsSegment IsQuotable text → ∀ rest, afterSegment (text ++ rest) = .ok (skipBlanks rest)
  | .comparison comparison, rest => by
      rw [afterSegment_eq, dropComparison?_append comparison]
  | @IsSegment.combinator _ _ _ segments closing named opens listed closes, rest => by
      obtain ⟨left, head, same⟩ :=
        exists_dropCombinatorHead_append named opens (segments ++ (closing ++ rest))
      have read := listed.afterSegments_append closing closes rest
      simp only [List.append_assoc]
      rw [afterSegment_eq, dropComparison?_eq_none named, head]
      exact (congrArg (· >>= afterSegments) (afterSegment_congr same)).trans read

/-- The segments of a combinator are read one after another up to its end. -/
theorem AreSegments.afterSegments_append {text : List Char} :
    AreSegments IsQuotable text → ∀ closing, Padded (IsSign ')') closing → ∀ rest,
      (afterSegment (text ++ (closing ++ rest)) >>= afterSegments) = .ok (skipBlanks rest)
  | .one segment, closing, closes, rest => by
      obtain ⟨before, _, after, blankBefore, rfl, blankAfter, rfl⟩ := closes
      rw [segment.afterSegment_append]
      apply afterSegments_eq_ok_iff.mpr
      refine Or.inl ⟨after ++ rest, ?_, blankAfter.skipBlanks_append rest⟩
      rw [skipBlanks_skipBlanks, List.append_assoc, blankBefore.skipBlanks_append]
      exact skipBlanks_cons rfl _
  | @AreSegments.more _ _ _ others segment separates listed, closing, closes, rest => by
      have read := listed.afterSegments_append closing closes rest
      obtain ⟨before, _, after, blankBefore, rfl, blankAfter, rfl⟩ := separates
      obtain ⟨left, second, third⟩ := bind_eq_ok_iff.mp read
      simp only [List.append_assoc]
      rw [segment.afterSegment_append]
      apply afterSegments_eq_ok_iff.mpr
      refine Or.inr ⟨after ++ (others ++ (closing ++ rest)), left, ?_, ?_, third⟩
      · rw [skipBlanks_skipBlanks, blankBefore.skipBlanks_append]
        exact skipBlanks_cons rfl _
      · rw [← second]
        exact afterSegment_congr (blankAfter.skipBlanks_append _)

end

theorem afterSegment_eq_ok_nil_iff :
    afterSegment text = .ok [] ↔ IsSegment IsQuotable text := by
  constructor
  · intro dropped
    obtain ⟨read, segment, rfl⟩ := exists_isSegment_of_afterSegment dropped
    rwa [List.append_nil]
  · intro segment
    simpa [skipBlanks] using segment.afterSegment_append []

theorem check_eq_ok_iff_afterSegment {filter : String} (nonempty : filter.toList ≠ []) :
    check filter = .ok () ↔ afterSegment filter.toList = .ok [] := by
  rw [check, afterSegment]
  cases dropSegment filter.toList with
  | error unread => simp [nonempty, Except.map]
  | ok rest =>
      obtain ⟨rest, shorter⟩ := rest
      cases rest <;> simp [nonempty, Except.map]

/-- A filter is accepted exactly if it is empty or all of it is one segment. -/
theorem check_eq_ok_iff_isSegment (filter : String) :
    check filter = .ok () ↔ filter = "" ∨ IsSegment IsQuotable filter.toList := by
  rw [← afterSegment_eq_ok_nil_iff, afterSegment, ← String.toList_eq_nil_iff, check]
  by_cases empty : filter.toList = []
  · simp [empty]
  · cases dropSegment filter.toList with
    | error unread => simp [empty, Except.map]
    | ok rest =>
        obtain ⟨rest, shorter⟩ := rest
        cases rest <;> simp [empty, Except.map]

end Filter
end InventoryGauges
