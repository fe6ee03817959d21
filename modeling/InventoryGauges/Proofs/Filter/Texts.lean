import InventoryGauges.Proofs.Filter.Language

/-!
# The texts of a filter

Where quotes stand only right after a backslash, a filter can be read in one
way only: its quoted texts are settled.  Such a filter is accepted exactly if
no quote within its texts is followed by a closing parenthesis, which would
end the text.
-/

namespace InventoryGauges
namespace Filter

open Text

mutual

/-- A segment whose comparisons have some texts in quotes, in their order. -/
inductive IsSegmentOf : List (List Char) → List Char → Prop
  | comparison {inner text : List Char} (comparison : IsComparison (· = inner) text) :
      IsSegmentOf [inner] text
  | combinator {texts : List (List Char)} {function opening segments closing : List Char}
      (named : Padded (IsKeyword combinatorKeywords) function)
      (opens : Padded (IsSign '(') opening) (listed : AreSegmentsOf texts segments)
      (closes : Padded (IsSign ')') closing) :
      IsSegmentOf texts (function ++ (opening ++ (segments ++ closing)))

/-- One or more segments with commas between them, which have some texts in
quotes. -/
inductive AreSegmentsOf : List (List Char) → List Char → Prop
  | one {texts : List (List Char)} {text : List Char} (segment : IsSegmentOf texts text) :
      AreSegmentsOf texts text
  | more {texts others : List (List Char)} {first comma rest : List Char}
      (segment : IsSegmentOf texts first) (separates : Padded (IsSign ',') comma)
      (further : AreSegmentsOf others rest) :
      AreSegmentsOf (texts ++ others) (first ++ (comma ++ rest))

end

variable {quotable : List Char → Prop} {inner text : List Char} {texts : List (List Char)}

/-! ## Segments with known texts -/

theorem isComparison_iff :
    IsComparison quotable text ↔ ∃ inner, quotable inner ∧ IsComparison (· = inner) text := by
  constructor
  · rintro ⟨function, opening, field, comma, quoted, closing, named, opens, isField, separates,
      ⟨before, _, after, blankBefore, ⟨inner, inQuotes, rfl⟩, blankAfter, rfl⟩, closes, rfl⟩
    exact ⟨inner, inQuotes, function, opening, field, comma, _, closing, named, opens, isField,
      separates, ⟨before, _, after, blankBefore, ⟨inner, rfl, rfl⟩, blankAfter, rfl⟩, closes, rfl⟩
  · rintro ⟨inner, inQuotes, function, opening, field, comma, quoted, closing, named, opens,
      isField, separates, ⟨before, _, after, blankBefore, ⟨_, rfl, rfl⟩, blankAfter, rfl⟩,
      closes, rfl⟩
    exact ⟨function, opening, field, comma, _, closing, named, opens, isField, separates,
      ⟨before, _, after, blankBefore, ⟨_, inQuotes, rfl⟩, blankAfter, rfl⟩, closes, rfl⟩

mutual

theorem IsSegmentOf.isSegment {texts : List (List Char)} {text : List Char} :
    IsSegmentOf texts text → (∀ inner ∈ texts, quotable inner) → IsSegment quotable text
  | .comparison comparison, each =>
      .comparison (isComparison_iff.mpr ⟨_, each _ List.mem_cons_self, comparison⟩)
  | .combinator named opens listed closes, each =>
      .combinator named opens (listed.areSegments each) closes

theorem AreSegmentsOf.areSegments {texts : List (List Char)} {text : List Char} :
    AreSegmentsOf texts text → (∀ inner ∈ texts, quotable inner) → AreSegments quotable text
  | .one segment, each => .one (segment.isSegment each)
  | .more segment separates further, each =>
      .more (segment.isSegment fun inner member => each inner (List.mem_append_left _ member))
        separates
        (further.areSegments fun inner member => each inner (List.mem_append_right _ member))

end

mutual

theorem IsSegment.exists_texts {text : List Char} :
    IsSegment quotable text → ∃ texts, IsSegmentOf texts text ∧ ∀ inner ∈ texts, quotable inner
  | .comparison comparison => by
      obtain ⟨inner, inQuotes, own⟩ := isComparison_iff.mp comparison
      exact ⟨[inner], .comparison own, by simpa using inQuotes⟩
  | .combinator named opens listed closes => by
      obtain ⟨texts, own, each⟩ := listed.exists_texts
      exact ⟨texts, .combinator named opens own closes, each⟩

theorem AreSegments.exists_texts {text : List Char} :
    AreSegments quotable text →
      ∃ texts, AreSegmentsOf texts text ∧ ∀ inner ∈ texts, quotable inner
  | .one segment => by
      obtain ⟨texts, own, each⟩ := segment.exists_texts
      exact ⟨texts, .one own, each⟩
  | .more segment separates others => by
      obtain ⟨texts, own, each⟩ := segment.exists_texts
      obtain ⟨further, ownFurther, eachFurther⟩ := others.exists_texts
      refine ⟨texts ++ further, .more own separates ownFurther, fun inner member => ?_⟩
      exact (List.mem_append.mp member).elim (each inner) (eachFurther inner)

end

theorem IsSegmentOf.ne_nil (segment : IsSegmentOf texts text) : text ≠ [] := by
  cases segment with
  | comparison comparison =>
      obtain ⟨function, -, -, -, -, -, named, -, -, -, -, -, rfl⟩ := comparison
      exact List.append_ne_nil_of_left_ne_nil (takes_comparisonKeyword.ne_nil named) _
  | combinator named _ _ _ =>
      exact List.append_ne_nil_of_left_ne_nil (takes_combinatorKeyword.ne_nil named) _

/-! ## Quotes by turns -/

/-- A text without quotes and backslashes. -/
def IsPlain (text : List Char) : Prop :=
  ∀ character ∈ text, character ≠ '"' ∧ character ≠ '\\'

/-- Quotes open and close by turns around some texts, and what stands outside
of them is plain. -/
inductive Alternates : List (List Char) → List Char → Prop
  | outside {text : List Char} (plain : IsPlain text) : Alternates [] text
  | quoted {texts : List (List Char)} {before inner rest : List Char} (plain : IsPlain before)
      (goesOn : Alternates texts rest) :
      Alternates (inner :: texts) (before ++ '"' :: (inner ++ '"' :: rest))

theorem IsPlain.append {first last : List Char} (left : IsPlain first) (right : IsPlain last) :
    IsPlain (first ++ last) := by
  intro character member
  exact (List.mem_append.mp member).elim (left character) (right character)

theorem IsBlanks.isPlain {blanks : List Char} (blank : IsBlanks blanks) : IsPlain blanks := by
  intro character member
  have isBlank := blank character member
  constructor <;> rintro rfl <;> cases isBlank

theorem isPlain_of_padded {language : List Char → Prop}
    (plain : ∀ {core}, language core → IsPlain core) (padded : Padded language text) :
    IsPlain text := by
  obtain ⟨before, core, after, blankBefore, inLanguage, blankAfter, rfl⟩ := padded
  exact blankBefore.isPlain.append ((plain inLanguage).append blankAfter.isPlain)

theorem isPlain_of_isKeyword {keywords : List String}
    (each : ∀ keyword ∈ keywords, IsPlain keyword.toList) (named : IsKeyword keywords text) :
    IsPlain text := by
  obtain ⟨keyword, member, rfl⟩ := named
  exact each keyword member

theorem isPlain_of_isSign {sign : Char} (noQuote : sign ≠ '"') (noBackslash : sign ≠ '\\')
    (isSign : IsSign sign text) : IsPlain text := by
  obtain rfl := isSign
  intro character member
  obtain rfl := List.mem_singleton.mp member
  exact ⟨noQuote, noBackslash⟩

theorem IsRun.isPlain {run : List Char} (isRun : IsRun run) : IsPlain run := by
  intro character member
  have inField := isRun.2 character member
  constructor <;> rintro rfl <;> cases inField

theorem IsField.isPlain {field : List Char} (isField : IsField field) : IsPlain field := by
  induction isField with
  | run isRun => exact isRun.isPlain
  | dotted isRun _ hypothesis =>
      have dot : IsPlain ['.'] := isPlain_of_isSign (by decide) (by decide) rfl
      exact isRun.isPlain.append (dot.append hypothesis)

instance (text : List Char) : Decidable (IsPlain text) :=
  List.decidableBAll _ text

namespace Alternates

/-- Plain text may stand before. -/
theorem plain_append {before : List Char} (plain : IsPlain before)
    (alternates : Alternates texts text) : Alternates texts (before ++ text) := by
  cases alternates with
  | outside plainText => exact .outside (plain.append plainText)
  | quoted plainFirst goesOn =>
      rw [← List.append_assoc]
      exact .quoted (plain.append plainFirst) goesOn

theorem append {others : List (List Char)} {rest : List Char} (left : Alternates texts text)
    (right : Alternates others rest) : Alternates (texts ++ others) (text ++ rest) := by
  induction left with
  | outside plain => exact right.plain_append plain
  | quoted plain _ hypothesis =>
      simpa using quoted plain hypothesis

end Alternates

theorem IsComparison.alternates (comparison : IsComparison (· = inner) text) :
    Alternates [inner] text := by
  obtain ⟨function, opening, field, comma, _, closing, named, opens, isField, separates,
    ⟨before, _, after, blankBefore, ⟨_, rfl, rfl⟩, blankAfter, rfl⟩, closes, rfl⟩ := comparison
  have functionPlain := isPlain_of_padded (isPlain_of_isKeyword (by decide)) named
  have openingPlain := isPlain_of_padded (isPlain_of_isSign (by decide) (by decide)) opens
  have fieldPlain := isPlain_of_padded IsField.isPlain isField
  have commaPlain := isPlain_of_padded (isPlain_of_isSign (by decide) (by decide)) separates
  have closingPlain := isPlain_of_padded (isPlain_of_isSign (by decide) (by decide)) closes
  have quoted (inner : List Char) :
      Alternates [inner] (before ++ '"' :: (inner ++ '"' :: (after ++ closing))) :=
    .quoted blankBefore.isPlain (.outside (blankAfter.isPlain.append closingPlain))
  simpa using ((((quoted _).plain_append commaPlain).plain_append fieldPlain).plain_append
    openingPlain).plain_append functionPlain

mutual

/-- The quotes of a segment open and close by turns around its texts. -/
theorem IsSegmentOf.alternates {texts : List (List Char)} {text : List Char} :
    IsSegmentOf texts text → Alternates texts text
  | .comparison comparison => comparison.alternates
  | .combinator named opens listed closes => by
      have functionPlain := isPlain_of_padded (isPlain_of_isKeyword (by decide)) named
      have openingPlain := isPlain_of_padded (isPlain_of_isSign (by decide) (by decide)) opens
      have closingPlain := isPlain_of_padded (isPlain_of_isSign (by decide) (by decide)) closes
      have inside := listed.alternates.append (.outside closingPlain)
      rw [List.append_nil] at inside
      exact (inside.plain_append openingPlain).plain_append functionPlain

theorem AreSegmentsOf.alternates {texts : List (List Char)} {text : List Char} :
    AreSegmentsOf texts text → Alternates texts text
  | .one segment => segment.alternates
  | .more segment separates further => by
      have commaPlain := isPlain_of_padded (isPlain_of_isSign (by decide) (by decide)) separates
      exact segment.alternates.append (further.alternates.plain_append commaPlain)

end

/-! ## One reading only -/

/-- Two splits of a text at a quote are the same, or one of them is at a later
quote. -/
theorem cases_of_append_quote {left right rest others : List Char}
    (same : left ++ '"' :: rest = right ++ '"' :: others) :
    (left = right ∧ rest = others) ∨
      (∃ middle, right = left ++ '"' :: middle ∧ rest = middle ++ '"' :: others) ∨
        ∃ middle, left = right ++ '"' :: middle ∧ others = middle ++ '"' :: rest := by
  rcases List.append_eq_append_iff.mp same with ⟨between, rfl, shape⟩ | ⟨between, rfl, shape⟩
  · cases between with
    | nil => exact Or.inl ⟨(List.append_nil _).symm, (List.cons.inj shape).2⟩
    | cons first middle =>
        obtain ⟨rfl, rfl⟩ := List.cons.inj shape
        exact Or.inr (Or.inl ⟨middle, rfl, rfl⟩)
  · cases between with
    | nil => exact Or.inl ⟨List.append_nil _, (List.cons.inj shape).2.symm⟩
    | cons first middle =>
        obtain ⟨rfl, rfl⟩ := List.cons.inj shape
        exact Or.inr (Or.inr ⟨middle, rfl, rfl⟩)

theorem IsPlain.ne_append_quote {before : List Char} (plain : IsPlain before)
    (first last : List Char) : before ≠ first ++ '"' :: last := by
  rintro rfl
  exact (plain '"' (by simp)).1 rfl

/-- What comes right before an escaped quote is no plain text. -/
theorem EscapesQuotes.not_isPlain {before after : List Char}
    (escaped : EscapesQuotes (before ++ '"' :: after)) : ¬ IsPlain before := by
  intro plain
  have backslash := List.mem_of_getLast? (escaped before after rfl)
  exact (plain '\\' backslash).2 rfl

theorem EscapesQuotes.of_append_quote {first last : List Char}
    (escaped : EscapesQuotes (first ++ '"' :: last)) : EscapesQuotes last := by
  rintro before after rfl
  have backslash := escaped (first ++ '"' :: before) after (by simp)
  cases before with
  | nil => simp at backslash
  | cons character before => simpa using backslash

namespace Alternates

/-- The part of a text after an inner escaped quote cannot go on by turns both
inside and outside of quotes: the two would never come together again. -/
theorem not_alternates_rest {texts others : List (List Char)} {inner rest : List Char}
    (escaped : ∀ text ∈ texts, EscapesQuotes text)
    (escapedOthers : ∀ text ∈ others, EscapesQuotes text) (escapedInner : EscapesQuotes inner)
    (outside : Alternates texts (inner ++ '"' :: rest)) : ¬ Alternates others rest := by
  intro inside
  generalize shape : inner ++ '"' :: rest = text at outside
  cases outside with
  | outside plain => exact plain.ne_append_quote inner rest shape.symm
  | @quoted texts before text after plain goesOn =>
      -- The quote that opens outside is the one that closes inside, and so on by turns.
      rcases cases_of_append_quote shape with ⟨-, rfl⟩ | ⟨middle, within, -⟩ | ⟨middle, rfl, -⟩
      · exact not_alternates_rest escapedOthers
          (fun text member => escaped text (List.mem_cons_of_mem _ member))
          (escaped text List.mem_cons_self) inside goesOn
      · exact plain.ne_append_quote inner middle within
      · exact escapedInner.not_isPlain plain
  termination_by texts.length + others.length

/-- Quotes alternate around escaped texts in one way only. -/
theorem unique {others : List (List Char)} (left : Alternates texts text)
    (right : Alternates others text) (escaped : ∀ inner ∈ texts, EscapesQuotes inner)
    (escapedOthers : ∀ inner ∈ others, EscapesQuotes inner) : texts = others := by
  induction left generalizing others with
  | outside plain =>
      cases right with
      | outside _ => rfl
      | quoted _ _ => exact absurd rfl (plain.ne_append_quote _ _)
  | @quoted texts before inner rest plain goesOn hypothesis =>
      generalize shape : before ++ '"' :: (inner ++ '"' :: rest) = text at right
      cases right with
      | outside plainText => exact absurd shape.symm (plainText.ne_append_quote _ _)
      | @quoted others first other last plainFirst goesOnOther =>
          have escapedRest (text : List Char) (member : text ∈ texts) : EscapesQuotes text :=
            escaped text (List.mem_cons_of_mem inner member)
          have escapedLast (text : List Char) (member : text ∈ others) : EscapesQuotes text :=
            escapedOthers text (List.mem_cons_of_mem other member)
          have escapedInner := escaped inner List.mem_cons_self
          have escapedOther := escapedOthers other List.mem_cons_self
          rcases cases_of_append_quote shape with
            ⟨-, same⟩ | ⟨middle, within, -⟩ | ⟨middle, within, -⟩
          · rcases cases_of_append_quote same with
              ⟨rfl, rfl⟩ | ⟨middle, rfl, rfl⟩ | ⟨middle, rfl, rfl⟩
            · rw [hypothesis goesOnOther escapedRest escapedLast]
            · exact absurd goesOnOther (not_alternates_rest escapedRest escapedLast
                escapedOther.of_append_quote goesOn)
            · exact absurd goesOn (not_alternates_rest escapedLast escapedRest
                escapedInner.of_append_quote goesOnOther)
          · exact absurd within (plainFirst.ne_append_quote _ _)
          · exact absurd within (plain.ne_append_quote _ _)

end Alternates

/-- A segment with escaped quotes can be read in one way only. -/
theorem IsSegmentOf.unique {others : List (List Char)} (left : IsSegmentOf texts text)
    (right : IsSegmentOf others text) (escaped : ∀ inner ∈ texts, EscapesQuotes inner)
    (escapedOthers : ∀ inner ∈ others, EscapesQuotes inner) : texts = others :=
  left.alternates.unique right.alternates escaped escapedOthers

/-! ## Acceptance -/

/-- No quote of a text is followed by blanks and a closing parenthesis. -/
def NeverCloses (inner : List Char) : Prop :=
  ∀ before after, inner = before ++ '"' :: after → ¬ Closes after

/-- To look at each quote of a text, its places are gone through. -/
theorem forall_quote_iff {holds : List Char → List Char → Prop} :
    (∀ before after, inner = before ++ '"' :: after → holds before after) ↔
      ∀ index < inner.length, inner[index]? = some '"' →
        holds (inner.take index) (inner.drop (index + 1)) := by
  constructor
  · intro each index _ found
    apply each
    obtain ⟨bound, quote⟩ := List.getElem?_eq_some_iff.mp found
    rw [← quote, List.getElem_cons_drop, List.take_append_drop]
  · rintro each before after rfl
    simpa using each before.length (by simp) (by simp)

instance : DecidablePred Closes := fun text =>
  decidable_of_iff ((skipBlanks text).head? = some ')') (by
    rw [closes_iff]
    cases skipBlanks text <;> simp [eq_comm])

instance : DecidablePred EscapesQuotes := fun _ => decidable_of_iff _ forall_quote_iff.symm

instance : DecidablePred NeverCloses := fun _ => decidable_of_iff _ forall_quote_iff.symm

example : EscapesQuotes "say \\\"hi\\\"".toList ∧ NeverCloses "say \\\"hi\\\"".toList := by decide

theorem IsSegmentOf.isSegment_isQuotable_iff (segment : IsSegmentOf texts text)
    (escaped : ∀ inner ∈ texts, EscapesQuotes inner) :
    IsSegment IsQuotable text ↔ ∀ inner ∈ texts, NeverCloses inner := by
  constructor
  · intro quotable
    obtain ⟨others, own, each⟩ := quotable.exists_texts
    obtain rfl := segment.unique own escaped fun inner member => (each inner member).1
    exact fun inner member => (each inner member).2
  · intro never
    exact segment.isSegment fun inner member => ⟨escaped inner member, never inner member⟩

theorem IsSegmentOf.check_eq_ok_iff {filter : String}
    (segment : IsSegmentOf texts filter.toList) :
    check filter = .ok () ↔ IsSegment IsQuotable filter.toList := by
  rw [check_eq_ok_iff_afterSegment segment.ne_nil, afterSegment_eq_ok_nil_iff]

/-! ## Filters without blanks -/

theorem padded_of_core {language : List Char → Prop} (inLanguage : language text) :
    Padded language text :=
  ⟨[], text, [], isBlanks_nil, inLanguage, isBlanks_nil, by simp⟩

theorem isComparison_of_tokens (keyword : String) {field : List Char}
    (member : keyword ∈ comparisonKeywords) (isField : IsField field) (inner : List Char) :
    IsComparison (· = inner)
      (keyword.toList ++ '(' :: (field ++ ',' :: '"' :: (inner ++ ['"', ')']))) := by
  refine ⟨_, ['('], field, [','], '"' :: (inner ++ ['"']), [')'],
    padded_of_core ⟨keyword, member, rfl⟩, padded_of_core rfl, padded_of_core isField,
    padded_of_core rfl, padded_of_core ⟨inner, rfl, rfl⟩, padded_of_core rfl, ?_⟩
  simp

theorem isSegmentOf_of_tokens (keyword : String) {segments : List Char}
    (member : keyword ∈ combinatorKeywords) (listed : AreSegmentsOf texts segments) :
    IsSegmentOf texts (keyword.toList ++ (['('] ++ (segments ++ [')']))) :=
  .combinator (padded_of_core ⟨keyword, member, rfl⟩) (padded_of_core rfl) listed
    (padded_of_core rfl)

theorem isField_singleton (character : Char) (inField : isFieldCharacter character) :
    IsField [character] :=
  .run ⟨List.cons_ne_nil _ _, by simpa using inField⟩

/-! ## The accepted filters -/

/-- A filter with escaped quotes is accepted exactly if no quote within its
texts could end the text. -/
theorem check_eq_ok_iff_neverCloses {filter : String} (segment : IsSegmentOf texts filter.toList)
    (escaped : ∀ inner ∈ texts, EscapesQuotes inner) :
    check filter = .ok () ↔ ∀ inner ∈ texts, NeverCloses inner := by
  rw [segment.check_eq_ok_iff, segment.isSegment_isQuotable_iff escaped]

theorem accepts_nested_escapes :
    IsSegmentOf ["f(\\\"x\\\" y)".toList, "\\\"".toList]
        "and(eq(a,\"f(\\\"x\\\" y)\"),or(ne(b,\"\\\"\")))".toList ∧
      check "and(eq(a,\"f(\\\"x\\\" y)\"),or(ne(b,\"\\\"\")))" = .ok () := by
  have first : IsSegmentOf ["f(\\\"x\\\" y)".toList] "eq(a,\"f(\\\"x\\\" y)\")".toList :=
    .comparison (isComparison_of_tokens "eq" (by decide) (isField_singleton 'a' rfl) _)
  have second : IsSegmentOf ["\\\"".toList] "or(ne(b,\"\\\"\"))".toList :=
    isSegmentOf_of_tokens "or" (by decide) (.one (.comparison
      (isComparison_of_tokens "ne" (by decide) (isField_singleton 'b' rfl) _)))
  have whole := isSegmentOf_of_tokens "and" (by decide)
    (.more first (padded_of_core rfl) (.one second))
  exact ⟨whole, (check_eq_ok_iff_neverCloses whole (by decide)).mpr (by decide)⟩

/-- A text with a call in quotes is no text of an accepted filter. -/
theorem check_quotedCall_ne_ok :
    IsSegment EscapesQuotes "eq(a,\"f(\\\"x\\\")\")".toList ∧
      check "eq(a,\"f(\\\"x\\\")\")" ≠ .ok () := by
  have segment : IsSegmentOf ["f(\\\"x\\\")".toList] "eq(a,\"f(\\\"x\\\")\")".toList :=
    .comparison (isComparison_of_tokens "eq" (by decide) (isField_singleton 'a' rfl) _)
  have escaped : ∀ inner ∈ ["f(\\\"x\\\")".toList], EscapesQuotes inner := by decide
  refine ⟨segment.isSegment escaped, ?_⟩
  rw [Ne, segment.check_eq_ok_iff, segment.isSegment_isQuotable_iff escaped]
  decide

end Filter
end InventoryGauges
