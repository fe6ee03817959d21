import InventoryGauges.Proofs.Filter.Language
import InventoryGauges.Url.Percent

/-!
# Filters read by bytes

The check of a filter as a walk over its bytes.  The place of reading is a byte
offset, what is read is a slice of the text from there on, and there is no slice
from within a character or beyond the end.
-/

namespace InventoryGauges
namespace Filter
namespace Cursor

open Text

/-- Why a walk goes no further. -/
inductive Halt
  /-- A slice was asked for that does not start between characters. -/
  | outside
  /-- The text does not go on as it should from this place. -/
  | stopped (place : Nat)
  deriving DecidableEq, Repr

/-- The text from a byte on. -/
def slice : List Char → Nat → Except Halt (List Char)
  | text, 0 => .ok text
  | [], _ + 1 => .error .outside
  | character :: text, place + 1 =>
      if character.utf8Size ≤ place + 1 then slice text (place + 1 - character.utf8Size)
      else .error .outside

/-- The byte of a character of a field name part. -/
def isFieldByte (byte : UInt8) : Bool :=
  0x30 ≤ byte && byte ≤ 0x39 || 0x41 ≤ byte && byte ≤ 0x5a || 0x61 ≤ byte && byte ≤ 0x7a ||
    byte == 0x5f

/-! ## Tokens -/

section Tokens

variable (text : List Char)

/-- Go past blanks. -/
def skip (place : Nat) : Except Halt Nat := do
  let rest ← slice text place
  return place + (byteLength rest - byteLength (skipBlanks rest))

/-- Go past an expected character. -/
def eat (expected : Char) (place : Nat) : Except Halt Nat := do
  let rest ← slice text place
  if rest.head? = some expected then return place + expected.utf8Size
  else throw (.stopped place)

/-- Go past the first keyword that starts what is left. -/
def eatKeyword (keywords : List String) (place : Nat) : Except Halt Nat := do
  let rest ← slice text place
  match keywords.find? fun keyword => keyword.toList.isPrefixOf rest with
  | some keyword => return place + byteLength keyword.toList
  | none => throw (.stopped place)

/-- Go past the bytes of a field name part. -/
def eatRun (place : Nat) : Except Halt Nat := do
  let rest ← slice text place
  let length := ((Url.bytesOf rest).takeWhile isFieldByte).length
  if length = 0 then throw (.stopped place)
  else return place + length

variable {text}

theorem slice_append (read rest : List Char) :
    slice (read ++ rest) (byteLength read) = .ok rest := by
  induction read with
  | nil => rw [List.nil_append, byteLength_nil, slice]
  | cons character read hypothesis =>
      obtain ⟨place, size⟩ := Nat.exists_eq_add_one.mpr
        (Nat.lt_of_lt_of_le character.utf8Size_pos (Nat.le_add_right _ (byteLength read)))
      rw [byteLength_cons, size, List.cons_append, slice, if_pos (size ▸ Nat.le_add_right _ _),
        ← size, Nat.add_sub_cancel_left]
      exact hypothesis

/-- A slice starts between characters. -/
theorem slice_eq_ok_iff {place : Nat} {rest : List Char} :
    slice text place = .ok rest ↔ ∃ read, text = read ++ rest ∧ place = byteLength read := by
  constructor
  · intro sliced
    induction text generalizing place with
    | nil =>
        cases place with
        | zero => exact ⟨[], Except.ok.inj sliced, rfl⟩
        | succ place => cases sliced
    | cons character text hypothesis =>
        cases place with
        | zero => exact ⟨[], Except.ok.inj sliced, rfl⟩
        | succ place =>
            rw [slice] at sliced
            split at sliced
            · obtain ⟨read, rfl, rest⟩ := hypothesis sliced
              refine ⟨character :: read, rfl, ?_⟩
              rw [byteLength_cons, ← rest, Nat.add_sub_cancel' ‹_›]
            · cases sliced
  · rintro ⟨read, rfl, rfl⟩
    exact slice_append read rest

variable {place next : Nat}

theorem eq_add_of_slice {rest : List Char} (sliced : slice text place = .ok rest) :
    byteLength text = place + byteLength rest := by
  obtain ⟨read, rfl, rfl⟩ := slice_eq_ok_iff.mp sliced
  exact byteLength_append read rest

theorem exists_slice_of_skip (skipped : skip text place = .ok next) :
    ∃ rest, slice text place = .ok rest ∧ slice text next = .ok (skipBlanks rest) := by
  obtain ⟨rest, sliced, ended⟩ := bind_eq_ok_iff.mp skipped
  obtain rfl := Except.ok.inj ended
  obtain ⟨read, rfl, rfl⟩ := slice_eq_ok_iff.mp sliced
  obtain ⟨blanks, -, shape⟩ := exists_isBlanks_append_skipBlanks rest
  refine ⟨rest, sliced, slice_eq_ok_iff.mpr ⟨read ++ blanks, ?_, ?_⟩⟩
  · rw [List.append_assoc, ← shape]
  · have length := congrArg byteLength shape
    rw [byteLength_append] at length ⊢
    omega

theorem le_of_skip (skipped : skip text place = .ok next) :
    place ≤ next ∧ next ≤ byteLength text := by
  obtain ⟨rest, sliced, left⟩ := exists_slice_of_skip skipped
  have whole := eq_add_of_slice sliced
  have further := eq_add_of_slice left
  obtain ⟨_, again, ended⟩ := bind_eq_ok_iff.mp skipped
  have moved := Except.ok.inj ended
  omega

theorem lt_of_eat {expected : Char} (eaten : eat text expected place = .ok next) :
    place < next ∧ next ≤ byteLength text := by
  obtain ⟨rest, sliced, ended⟩ := bind_eq_ok_iff.mp eaten
  have whole := eq_add_of_slice sliced
  have positive := expected.utf8Size_pos
  split at ended
  · rename_i first
    obtain ⟨others, rfl⟩ := List.head?_eq_some_iff.mp first
    rw [byteLength_cons] at whole
    have moved : place + expected.utf8Size = next := Except.ok.inj ended
    omega
  · cases ended

theorem le_of_eatKeyword {keywords : List String}
    (eaten : eatKeyword text keywords place = .ok next) : place ≤ next := by
  obtain ⟨rest, -, ended⟩ := bind_eq_ok_iff.mp eaten
  split at ended
  · exact Except.ok.inj ended ▸ Nat.le_add_right _ _
  · cases ended

theorem le_of_eatRun (eaten : eatRun text place = .ok next) : place ≤ next := by
  obtain ⟨rest, -, ended⟩ := bind_eq_ok_iff.mp eaten
  dsimp only at ended
  split at ended
  · cases ended
  · exact Except.ok.inj ended ▸ Nat.le_add_right _ _

end Tokens

/-! ## Comparisons -/

section Comparisons

variable (text : List Char)

/-- Go past the dotted parts after the first part of a field name. -/
def eatParts (place : Nat) : Except Halt Nat :=
  match eaten : eat text '.' place with
  | .error .outside => .error .outside
  | .error (.stopped _) => .ok place
  | .ok dotted =>
      match run : eatRun text dotted with
      | .error .outside => .error .outside
      | .error (.stopped _) => .ok place
      | .ok next =>
          have := lt_of_eat eaten
          have := le_of_eatRun run
          eatParts next
  termination_by byteLength text - place

/-- Go past a field name. -/
def eatField (place : Nat) : Except Halt Nat := do
  let next ← eatRun text place
  eatParts text next

/-- Look for the quote that closes a text which begins at a byte, byte by byte,
and go past it and the closing parenthesis. -/
def scan (opened index : Nat) : Except Halt Nat :=
  match found : (Url.bytesOf text)[index]? with
  | none => .error (.stopped index)
  | some byte =>
      have := (List.getElem?_eq_some_iff.mp found).1
      if byte = 0x22 then
        match skip text (index + 1) >>= eat text ')' with
        | .ok closed => skip text closed
        | .error .outside => .error .outside
        | .error (.stopped place) =>
            if opened < index ∧ (Url.bytesOf text)[index - 1]? = some 0x5c then
              scan opened (index + 1)
            else .error (.stopped place)
      else scan opened (index + 1)
  termination_by (Url.bytesOf text).length - index

/-- Go past a quoted text and the closing parenthesis. -/
def eatTextAndClose (place : Nat) : Except Halt Nat := do
  let opened ← eat text '"' place
  scan text opened opened

/-- Go past a comparison and the blanks around it. -/
def eatComparison (place : Nat) : Except Halt Nat := do
  let place ← skip text place
  let place ← eatKeyword text comparisonKeywords place
  let place ← skip text place
  let place ← eat text '(' place
  let place ← skip text place
  let place ← eatField text place
  let place ← skip text place
  let place ← eat text ',' place
  let place ← skip text place
  eatTextAndClose text place

variable {text} {place next : Nat}

theorem le_of_eatParts (eaten : eatParts text place = .ok next) : place ≤ next := by
  fun_induction eatParts text place with
  | case1 => cases eaten
  | case2 => exact Nat.le_of_eq (Except.ok.inj eaten)
  | case3 => cases eaten
  | case4 => exact Nat.le_of_eq (Except.ok.inj eaten)
  | case5 place dotted dot further run dotFurther runFurther hypothesis =>
      exact Nat.le_trans (Nat.le_trans (Nat.le_of_lt dotFurther.1) runFurther) (hypothesis eaten)

theorem le_of_scan {opened index : Nat} (scanned : scan text opened index = .ok next) :
    index ≤ next ∧ next ≤ byteLength text := by
  fun_induction scan text opened index with
  | case1 => cases scanned
  | case2 _ closed found _ _ =>
      obtain ⟨skipped, blanks, closes⟩ := bind_eq_ok_iff.mp found
      have first := le_of_skip blanks
      have second := lt_of_eat closes
      have third := le_of_skip scanned
      omega
  | case3 => cases scanned
  | case4 _ _ _ _ _ _ hypothesis => exact (hypothesis scanned).imp_left Nat.le_of_succ_le
  | case5 => cases scanned
  | case6 _ _ _ _ _ hypothesis => exact (hypothesis scanned).imp_left Nat.le_of_succ_le

theorem lt_of_eatComparison (eaten : eatComparison text place = .ok next) :
    place < next ∧ next ≤ byteLength text := by
  simp only [eatComparison, eatField, eatTextAndClose, bind_eq_ok_iff] at eaten
  obtain ⟨_, blanks, _, function, _, blanksThen, _, opening, _, blanksInside, _, ⟨_, run, parts⟩,
    _, blanksAfter, _, comma, _, blanksLast, _, quote, scanned⟩ := eaten
  have h1 := le_of_skip blanks
  have h2 := le_of_eatKeyword function
  have h3 := le_of_skip blanksThen
  have h4 := lt_of_eat opening
  have h5 := le_of_skip blanksInside
  have h6 := le_of_eatRun run
  have h7 := le_of_eatParts parts
  have h8 := le_of_skip blanksAfter
  have h9 := lt_of_eat comma
  have h10 := le_of_skip blanksLast
  have h11 := lt_of_eat quote
  have h12 := le_of_scan scanned
  omega

end Comparisons

/-! ## Segments -/

section Segments

variable (text : List Char)

/-- Go past the keyword and the parenthesis that open a combinator. -/
def eatCombinatorHead (place : Nat) : Except Halt Nat := do
  let place ← skip text place
  let place ← eatKeyword text combinatorKeywords place
  let place ← skip text place
  eat text '(' place

variable {text} in
theorem lt_of_eatCombinatorHead {place next : Nat}
    (eaten : eatCombinatorHead text place = .ok next) : place < next ∧ next ≤ byteLength text := by
  simp only [eatCombinatorHead, bind_eq_ok_iff] at eaten
  obtain ⟨_, blanks, _, function, _, blanksThen, opening⟩ := eaten
  have h1 := le_of_skip blanks
  have h2 := le_of_eatKeyword function
  have h3 := le_of_skip blanksThen
  have h4 := lt_of_eat opening
  omega

/-- A place further on in a text. -/
abbrev Further (place : Nat) :=
  { next : Nat // place < next ∧ next ≤ byteLength text }

mutual

/-- Go past a segment and the blanks after it: a comparison, or from the same
place on a combinator. -/
def eatSegment (place : Nat) : Except Halt (Further text place) :=
  match comparison : eatComparison text place with
  | .ok next => .ok ⟨next, lt_of_eatComparison comparison⟩
  | .error .outside => .error .outside
  | .error (.stopped _) =>
      match head : eatCombinatorHead text place with
      | .error halt => .error halt
      | .ok opened =>
          have headFurther := lt_of_eatCombinatorHead head
          match eatSegment opened with
          | .error halt => .error halt
          | .ok ⟨first, firstFurther⟩ =>
              match eatSegments first with
              | .error halt => .error halt
              | .ok ⟨next, nextFurther⟩ => .ok ⟨next, by omega⟩
  termination_by byteLength text - place

/-- Go past the further segments of a combinator, its closing parenthesis and
the blanks after that. -/
def eatSegments (place : Nat) : Except Halt (Further text place) :=
  match blanks : skip text place with
  | .error halt => .error halt
  | .ok between =>
      have blanksFurther := le_of_skip blanks
      match closing : eat text ')' between with
      | .error .outside => .error .outside
      | .ok closed =>
          have closedFurther := lt_of_eat closing
          match last : skip text closed with
          | .error halt => .error halt
          | .ok next =>
              have lastFurther := le_of_skip last
              .ok ⟨next, by omega⟩
      | .error (.stopped _) =>
          match comma : eat text ',' between with
          | .error halt => .error halt
          | .ok separated =>
              have commaFurther := lt_of_eat comma
              match eatSegment separated with
              | .error halt => .error halt
              | .ok ⟨following, followingFurther⟩ =>
                  match eatSegments following with
                  | .error halt => .error halt
                  | .ok ⟨next, nextFurther⟩ => .ok ⟨next, by omega⟩
  termination_by byteLength text - place

end

end Segments

/-- The check of a filter as a walk; none if a slice was asked for that does not
start between characters. -/
def check (filter : String) : Option (Except SyntaxError Unit) :=
  let text := filter.toList
  if text = [] then some (.ok ())
  else
    match eatSegment text 0 with
    | .error .outside => none
    | .error (.stopped place) => some (.error ⟨place⟩)
    | .ok ⟨next, _⟩ => some (if byteLength text ≤ next then .ok () else .error ⟨next⟩)

end Cursor
end Filter
end InventoryGauges
