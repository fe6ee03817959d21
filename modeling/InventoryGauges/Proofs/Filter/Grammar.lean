import InventoryGauges.Filter

/-!
# The grammar of filters

The language of filters by itself, without the order in which a filter is read.
What may stand between quotes is a parameter.
-/

namespace InventoryGauges
namespace Filter

open Text

/-- A text of blanks. -/
def IsBlanks (text : List Char) : Prop :=
  ∀ character ∈ text, isBlank character

/-- A text of a language with blanks around it. -/
def Padded (language : List Char → Prop) (text : List Char) : Prop :=
  ∃ before core after, IsBlanks before ∧ language core ∧ IsBlanks after ∧
    text = before ++ (core ++ after)

/-- One of some keywords. -/
def IsKeyword (keywords : List String) (text : List Char) : Prop :=
  ∃ keyword ∈ keywords, text = keyword.toList

/-- A single character. -/
def IsSign (character : Char) (text : List Char) : Prop :=
  text = [character]

/-- A part of a field name. -/
def IsRun (text : List Char) : Prop :=
  text ≠ [] ∧ ∀ character ∈ text, isFieldCharacter character

/-- A field name: parts joined by single dots. -/
inductive IsField : List Char → Prop
  | run {text : List Char} (run : IsRun text) : IsField text
  | dotted {first rest : List Char} (run : IsRun first) (field : IsField rest) :
      IsField (first ++ '.' :: rest)

/-- A text in quotes. -/
def Quoted (quotable : List Char → Prop) (text : List Char) : Prop :=
  ∃ inner, quotable inner ∧ text = '"' :: (inner ++ ['"'])

/-- Each quote of a text comes right after a backslash. -/
def EscapesQuotes (inner : List Char) : Prop :=
  ∀ before after, inner = before ++ '"' :: after → before.getLast? = some '\\'

/-- Blanks and a closing parenthesis start a text. -/
def Closes (text : List Char) : Prop :=
  ∃ blanks rest, IsBlanks blanks ∧ text = blanks ++ ')' :: rest

/-- Each quote of a text comes right after a backslash, and no closing
parenthesis follows it. -/
def IsQuotable (inner : List Char) : Prop :=
  EscapesQuotes inner ∧ ∀ before after, inner = before ++ '"' :: after → ¬ Closes after

/-- A comparison of a field with a quoted text. -/
def IsComparison (quotable : List Char → Prop) (text : List Char) : Prop :=
  ∃ function opening field comma quoted closing,
    Padded (IsKeyword comparisonKeywords) function ∧ Padded (IsSign '(') opening ∧
    Padded IsField field ∧ Padded (IsSign ',') comma ∧ Padded (Quoted quotable) quoted ∧
    Padded (IsSign ')') closing ∧
    text = function ++ (opening ++ (field ++ (comma ++ (quoted ++ closing))))

mutual

/-- A segment: a comparison, or a combinator over segments. -/
inductive IsSegment (quotable : List Char → Prop) : List Char → Prop
  | comparison {text : List Char} (comparison : IsComparison quotable text) :
      IsSegment quotable text
  | combinator {function opening segments closing : List Char}
      (named : Padded (IsKeyword combinatorKeywords) function)
      (opens : Padded (IsSign '(') opening) (listed : AreSegments quotable segments)
      (closes : Padded (IsSign ')') closing) :
      IsSegment quotable (function ++ (opening ++ (segments ++ closing)))

/-- One or more segments with commas between them. -/
inductive AreSegments (quotable : List Char → Prop) : List Char → Prop
  | one {text : List Char} (segment : IsSegment quotable text) : AreSegments quotable text
  | more {first comma rest : List Char} (segment : IsSegment quotable first)
      (separates : Padded (IsSign ',') comma) (others : AreSegments quotable rest) :
      AreSegments quotable (first ++ (comma ++ rest))

end

end Filter
end InventoryGauges
