import InventoryGauges.Text.Blank

/-!
# Query filters

The language that narrows a class query: comparisons such as
`eq(field, "text")` and the combinators `and` and `or` over one or more
segments, with blanks around every token.  A filter is checked from left to
right, and a rejected one reports the byte offset where reading stopped.
-/

namespace InventoryGauges
namespace Filter

open Text

/-- Keywords of the comparisons. -/
def comparisonKeywords : List String :=
  ["eq", "le", "lt", "ge", "gt", "ne", "wcard"]

/-- Keywords of the combinators. -/
def combinatorKeywords : List String :=
  ["and", "or"]

/-- Why a filter is refused: reading stopped at this byte. -/
structure SyntaxError where
  /-- Number of bytes read before the refusal. -/
  offset : Nat
  deriving DecidableEq, Repr

namespace SyntaxError

/-- The refusal in words. -/
def message (error : SyntaxError) : String :=
  s!"invalid query filter (parsing stopped at offset {error.offset})"

end SyntaxError

/-- A character of a field name part. -/
def isFieldCharacter (character : Char) : Bool :=
  character.isAlphanum || character == '_'

/-- Read the first keyword that starts the text. -/
def dropKeyword? (keywords : List String) (text : List Char) : Option (List Char) :=
  keywords.findSome? fun keyword => dropStart? keyword.toList text

/-- Read the dotted parts after the first part of a field name.  A dot that no
field character follows is left unread. -/
def dropFieldParts (text : List Char) : List Char :=
  match text with
  | '.' :: rest =>
      if rest.takeWhile isFieldCharacter = [] then text
      else dropFieldParts (rest.dropWhile isFieldCharacter)
  | _ => text
  termination_by text.length
  decreasing_by
    have shorter := (List.dropWhile_suffix isFieldCharacter (l := rest)).length_le
    simp only [List.length_cons]
    omega

/-- Read a field name: runs of field characters joined by single dots. -/
def dropField? (text : List Char) : Option (List Char) :=
  if text.takeWhile isFieldCharacter = [] then none
  else some (dropFieldParts (text.dropWhile isFieldCharacter))

/-- Read the rest of a quoted text and the closing parenthesis.  A quote ends
the text if a parenthesis follows it; otherwise it must be escaped, that is,
come right after a backslash of the text. -/
def dropTextAndClose? (escaped : Bool) : List Char → Option (List Char)
  | [] => none
  | '"' :: rest =>
      match skipBlanks rest with
      | ')' :: after => some (skipBlanks after)
      | _ => if escaped then dropTextAndClose? false rest else none
  | character :: rest => dropTextAndClose? (character == '\\') rest

/-- Read one expected character. -/
def dropCharacter? (expected : Char) (text : List Char) : Option (List Char) :=
  dropStart? [expected] text

/-- Read a comparison and the blanks around it. -/
def dropComparison? (text : List Char) : Option (List Char) := do
  let text ← dropKeyword? comparisonKeywords (skipBlanks text)
  let text ← dropCharacter? '(' (skipBlanks text)
  let text ← dropField? (skipBlanks text)
  let text ← dropCharacter? ',' (skipBlanks text)
  let text ← dropCharacter? '"' (skipBlanks text)
  dropTextAndClose? false text

/-- Read the keyword and the parenthesis that open a combinator.  A refusal
holds what was left unread. -/
def dropCombinatorHead (text : List Char) : Except (List Char) (List Char) :=
  match dropKeyword? combinatorKeywords (skipBlanks text) with
  | none => .error (skipBlanks text)
  | some rest =>
      match dropCharacter? '(' (skipBlanks rest) with
      | none => .error (skipBlanks rest)
      | some rest => .ok rest

/-! ## What is left is shorter -/

theorem length_lt_of_dropStart? {start text rest : List Char}
    (nonempty : start ≠ []) (dropped : dropStart? start text = some rest) :
    rest.length < text.length := by
  obtain rfl := (dropStart?_eq_some_iff start text rest).mp dropped
  have := List.length_pos_iff.mpr nonempty
  simp only [List.length_append]
  omega

theorem length_lt_of_dropKeyword? {keywords : List String} {text rest : List Char}
    (nonempty : ∀ keyword ∈ keywords, keyword.toList ≠ [])
    (dropped : dropKeyword? keywords text = some rest) :
    rest.length < text.length := by
  obtain ⟨keyword, member, found⟩ := List.exists_of_findSome?_eq_some dropped
  exact length_lt_of_dropStart? (nonempty keyword member) found

theorem length_dropFieldParts_le (text : List Char) :
    (dropFieldParts text).length ≤ text.length := by
  fun_induction dropFieldParts text with
  | case1 => exact Nat.le_refl _
  | case2 rest _ hypothesis =>
      have := (List.dropWhile_suffix isFieldCharacter (l := rest)).length_le
      simp only [List.length_cons]
      omega
  | case3 => exact Nat.le_refl _

theorem length_le_of_dropField? {text rest : List Char}
    (dropped : dropField? text = some rest) : rest.length ≤ text.length := by
  unfold dropField? at dropped
  split at dropped
  · simp at dropped
  · obtain rfl := Option.some.inj dropped
    exact Nat.le_trans (length_dropFieldParts_le _)
      (List.dropWhile_suffix isFieldCharacter).length_le

theorem length_lt_of_dropTextAndClose? {escaped : Bool} {text rest : List Char}
    (dropped : dropTextAndClose? escaped text = some rest) :
    rest.length < text.length := by
  fun_induction dropTextAndClose? escaped text with
  | case1 => simp at dropped
  | case2 escaped after tail close =>
      obtain rfl := Option.some.inj dropped
      have skipped := length_skipBlanks_le after
      have skippedTail := length_skipBlanks_le tail
      rw [close] at skipped
      simp only [List.length_cons] at *
      omega
  | case3 tail _ hypothesis =>
      have := hypothesis dropped
      simp only [List.length_cons]
      omega
  | case4 => simp at dropped
  | case5 escaped character tail _ hypothesis =>
      have := hypothesis dropped
      simp only [List.length_cons]
      omega

theorem length_lt_of_dropComparison? {text rest : List Char}
    (dropped : dropComparison? text = some rest) : rest.length < text.length := by
  simp only [dropComparison?, bind, Option.bind_eq_some_iff] at dropped
  obtain ⟨afterKeyword, keyword, afterOpen, openParenthesis, afterField, field,
    afterComma, comma, afterQuote, quote, close⟩ := dropped
  have h1 := length_lt_of_dropKeyword? (by decide) keyword
  have h2 := length_lt_of_dropStart? (by simp) openParenthesis
  have h3 := length_le_of_dropField? field
  have h4 := length_lt_of_dropStart? (by simp) comma
  have h5 := length_lt_of_dropStart? (by simp) quote
  have h6 := length_lt_of_dropTextAndClose? close
  have b1 := length_skipBlanks_le text
  have b2 := length_skipBlanks_le afterKeyword
  have b3 := length_skipBlanks_le afterOpen
  have b4 := length_skipBlanks_le afterField
  have b5 := length_skipBlanks_le afterComma
  omega

theorem length_lt_of_dropCombinatorHead {text rest : List Char}
    (dropped : dropCombinatorHead text = .ok rest) : rest.length < text.length := by
  unfold dropCombinatorHead at dropped
  split at dropped
  · simp at dropped
  · rename_i afterKeyword keyword
    split at dropped
    · simp at dropped
    · rename_i openParenthesis
      obtain rfl := Except.ok.inj dropped
      have h1 := length_lt_of_dropKeyword? (by decide) keyword
      have h2 := length_lt_of_dropStart? (by simp) openParenthesis
      have b1 := length_skipBlanks_le text
      have b2 := length_skipBlanks_le afterKeyword
      omega

/-! ## Segments -/

/-- What follows a read piece: strictly less text than before it. -/
abbrev Rest (text : List Char) :=
  { rest : List Char // rest.length < text.length }

mutual

/-- Read a segment and the blanks after it: a comparison if one can be read,
else a combinator.  A refusal holds what was left unread. -/
def dropSegment (text : List Char) : Except (List Char) (Rest text) :=
  match comparison : dropComparison? text with
  | some rest => .ok ⟨rest, length_lt_of_dropComparison? comparison⟩
  | none =>
      match head : dropCombinatorHead text with
      | .error unread => .error unread
      | .ok opened =>
          have headShorter := length_lt_of_dropCombinatorHead head
          match dropSegment opened with
          | .error unread => .error unread
          | .ok ⟨first, firstShorter⟩ =>
              match dropSegments first with
              | .error unread => .error unread
              | .ok ⟨rest, restShorter⟩ =>
                  .ok ⟨rest, by omega⟩
  termination_by text.length

/-- Read the further segments of a combinator up to its closing parenthesis,
and the blanks after that. -/
def dropSegments (text : List Char) : Except (List Char) (Rest text) :=
  match skipped : skipBlanks text with
  | ')' :: rest =>
      .ok ⟨skipBlanks rest, by
        have := length_skipBlanks_le text
        have := length_skipBlanks_le rest
        simp_all only [List.length_cons]
        omega⟩
  | ',' :: next =>
      have nextShorter : next.length < text.length := by
        have := length_skipBlanks_le text
        simp_all only [List.length_cons]
        omega
      match dropSegment next with
      | .error unread => .error unread
      | .ok ⟨following, followingShorter⟩ =>
          match dropSegments following with
          | .error unread => .error unread
          | .ok ⟨rest, restShorter⟩ =>
              .ok ⟨rest, by omega⟩
  | unread => .error unread
  termination_by text.length

end

/-- Check a filter: it is empty, or one segment is all of it. -/
def check (filter : String) : Except SyntaxError Unit :=
  let text := filter.toList
  let stoppedBefore (unread : List Char) : SyntaxError :=
    ⟨byteLength text - byteLength unread⟩
  if text = [] then .ok ()
  else
    match dropSegment text with
    | .error unread => .error (stoppedBefore unread)
    | .ok ⟨[], _⟩ => .ok ()
    | .ok ⟨unread, _⟩ => .error (stoppedBefore unread)

end Filter
end InventoryGauges
