import InventoryGauges.Json.Reader
import InventoryGauges.Json.Writer
import InventoryGauges.Proofs.Json.Number
import Mathlib.Tactic.SplitIfs

/-!
# JSON texts read back

A value without real numbers, and not nested too deeply, is what its compact
text stands for.  A part of a text is read back whatever follows it, as long as
that ends the part.
-/

namespace InventoryGauges
namespace Json

open JsonNumber

/-! ## Texts -/

theorem hexValue?_hexDigit {value : Nat} (bound : value < 16) :
    hexValue? (hexDigit value) = some value := by
  revert bound
  revert value
  decide

theorem hexQuad?_control {code : Nat} (bound : code < 0x20) :
    hexQuad? '0' '0' (hexDigit (code / 16)) (hexDigit (code % 16)) = some code := by
  have high : hexValue? (hexDigit (code / 16)) = some (code / 16) :=
    hexValue?_hexDigit (by omega)
  have low : hexValue? (hexDigit (code % 16)) = some (code % 16) :=
    hexValue?_hexDigit (by omega)
  have zero : hexValue? '0' = some 0 := by decide
  simp only [hexQuad?, high, low, zero, Option.bind_eq_bind, Option.bind_some, Option.pure_def]
  congr 1
  omega

theorem readText_escape (character : Char) (text : List Char) :
    readText (escape character ++ text) = prepend character (readText text) := by
  unfold escape
  split_ifs with quote backslash backspace feed line carriage tab control
  · subst quote; simp [readText, escapedCharacter?]
  · subst backslash; simp [readText, escapedCharacter?]
  · subst backspace; simp [readText, escapedCharacter?]
  · subst feed; simp [readText, escapedCharacter?]
  · subst line; simp [readText, escapedCharacter?]
  · subst carriage; simp [readText, escapedCharacter?]
  · subst tab; simp [readText, escapedCharacter?]
  · have plain : plainEscape? character.toNat = some character := by
      have low : ¬ (0xd800 ≤ character.toNat ∧ character.toNat < 0xe000) := by omega
      simp [plainEscape?, low]
    simp only [List.cons_append, List.nil_append, readText, hexQuad?_control control, plain]
  · have printable : ¬ (character.toNat < 0x20 || character == '\\') = true := by
      simp [control, backslash]
    rw [List.singleton_append, readText]
    · simp [printable]
    · exact quote
    · intro _ _ _ _ _ h; exact absurd h backslash
    · intro _ _ h; exact absurd h backslash

theorem readText_flatMap_escape (content rest : List Char) :
    readText (content.flatMap escape ++ '"' :: rest) = some (content, rest) := by
  induction content with
  | nil => rfl
  | cons character content hypothesis =>
      rw [List.flatMap_cons, List.append_assoc, readText_escape, hypothesis]
      rfl

theorem writeText_append (content : String) (rest : List Char) :
    writeText content ++ rest = '"' :: (content.toList.flatMap escape ++ '"' :: rest) := by
  simp [writeText]

/-! ## Starts of values -/

/-- Whether a value comes back when its text is read with at most `depth`
arrays and objects inside each other: its numbers are whole. -/
def Fits : Nat → Json → Prop
  | _, number value => value.IsWhole
  | 0, array _ | 0, object _ => False
  | depth + 1, array items => ∀ item ∈ items, Fits depth item
  | depth + 1, object members => ∀ entry ∈ members, Fits depth entry.2
  | _, _ => True

theorem skipSpaces_cons {character : Char} {rest : List Char}
    (solid : isSpace character = false) :
    skipSpaces (character :: rest) = character :: rest := by
  simp [skipSpaces, solid]

/-- A text starts neither with a space nor with a closing character. -/
def StartsValue (text : List Char) : Prop :=
  ∃ first rest, text = first :: rest ∧ isSpace first = false ∧ first ≠ ']' ∧ first ≠ '}'

theorem StartsValue.append {text : List Char} (starts : StartsValue text) (rest : List Char) :
    StartsValue (text ++ rest) := by
  obtain ⟨first, others, rfl, solid⟩ := starts
  exact ⟨first, others ++ rest, rfl, solid⟩

theorem StartsValue.skipSpaces_eq {text : List Char} (starts : StartsValue text) :
    skipSpaces text = text := by
  obtain ⟨first, others, rfl, solid, -⟩ := starts
  exact skipSpaces_cons solid

theorem startsValue_digitsOf (number : Nat) : StartsValue (Decimal.digitsOf number) := by
  cases digits : Decimal.digitsOf number with
  | nil => exact absurd digits (Decimal.digitsOf_ne_nil number)
  | cons first rest =>
      have isDigit : Decimal.isDigit first = true :=
        Decimal.isDigit_of_mem_digitsOf (by rw [digits]; simp)
      refine ⟨first, rest, rfl, ?_, ?_, ?_⟩
      · rw [← Bool.not_eq_true]
        intro space
        simp only [isSpace, Bool.or_eq_true, beq_iff_eq] at space
        rcases space with ((rfl | rfl) | rfl) | rfl <;> exact absurd isDigit (by decide)
      · rintro rfl
        exact absurd isDigit (by decide)
      · rintro rfl
        exact absurd isDigit (by decide)

theorem startsValue_write {depth : Nat} {value : Json} (fits : Fits depth value) :
    StartsValue value.write := by
  cases value with
  | null => exact ⟨_, _, rfl, by decide⟩
  | boolean flag => cases flag <;> exact ⟨_, _, by rw [write], by decide⟩
  | string content => exact ⟨_, _, rfl, by decide⟩
  | array items => exact ⟨_, _, by rw [write], by decide⟩
  | object members => exact ⟨_, _, by rw [write], by decide⟩
  | number value =>
      cases value with
      | real value => exact absurd fits (by simp [Fits, IsWhole])
      | integer value =>
          rw [write, writeNumber, Decimal.integerText]
          split
          · exact ⟨_, _, rfl, by decide⟩
          · exact startsValue_digitsOf _

/-! ## Sequences -/

/-- Elements with commas between them and the closing character. -/
def writeSequence {Element : Type} (writeElement : Element → List Char) (close : Char) :
    List Element → List Char
  | [] => [close]
  | [element] => writeElement element ++ [close]
  | element :: elements =>
      writeElement element ++ ',' :: writeSequence writeElement close elements

/-- A member of an object as it is written. -/
def writeMember (entry : String × Json) : List Char :=
  writeText entry.1 ++ ':' :: entry.2.write

@[simp] theorem writeSequence_cons_cons {Element : Type} (writeElement : Element → List Char)
    (close : Char) (first second : Element) (elements : List Element) :
    writeSequence writeElement close (first :: second :: elements) =
      writeElement first ++ ',' :: writeSequence writeElement close (second :: elements) := rfl

theorem writeItems_eq (items : List Json) :
    writeItems items = writeSequence write ']' items := by
  induction items with
  | nil => rfl
  | cons item items hypothesis =>
      cases items with
      | nil => rfl
      | cons other items =>
          rw [writeSequence_cons_cons, ← hypothesis]
          rfl

theorem writeMembers_eq (members : List (String × Json)) :
    writeMembers members = writeSequence writeMember '}' members := by
  induction members with
  | nil => rfl
  | cons entry members hypothesis =>
      cases members with
      | nil => simp [writeMembers, writeSequence, writeMember]
      | cons other members =>
          rw [writeSequence_cons_cons, ← hypothesis]
          simp [writeMembers, writeMember]

section Sequences

variable {Element : Type} {element : Reader Element} {writeElement : Element → List Char}
  {close : Char}

/-- A reader of elements takes back what was written, whatever ends it. -/
def ReadsBack (element : Reader Element) (writeElement : Element → List Char)
    (value : Element) : Prop :=
  StartsValue (writeElement value) ∧
    ∀ rest, EndsValue rest → element (writeElement value ++ rest) = some (value, rest)

theorem length_le_writeSequence (writeElement : Element → List Char) (close : Char)
    (elements : List Element) :
    elements.length ≤ (writeSequence writeElement close elements).length := by
  induction elements with
  | nil => simp
  | cons first elements hypothesis =>
      cases elements with
      | nil => simp [writeSequence]
      | cons second elements =>
          simp only [writeSequence, List.length_append, List.length_cons] at hypothesis ⊢
          omega

theorem endsValue_cons {character : Char} {rest : List Char}
    (closes : character = ',' ∨ character = ']' ∨ character = '}') :
    EndsValue (character :: rest) := by
  intro other member
  cases member
  exact closes

/-- Elements with commas between them are read one by one. -/
theorem readElements_writeSequence {first : Element} {elements : List Element} {fuel : Nat}
    {rest : List Char} (closes : close = ']' ∨ close = '}')
    (readsBack : ∀ value ∈ first :: elements, ReadsBack element writeElement value)
    (enough : elements.length < fuel) :
    readElements element close fuel
        (writeSequence writeElement close (first :: elements) ++ rest) =
      some (first :: elements, rest) := by
  have solid : isSpace close = false := by rcases closes with rfl | rfl <;> decide
  induction elements generalizing first fuel with
  | nil =>
      obtain ⟨fuel, rfl⟩ : ∃ other, fuel = other + 1 := ⟨fuel - 1, by omega⟩
      have read := (readsBack first (by simp)).2 (close :: rest)
        (endsValue_cons (Or.inr closes))
      simp only [writeSequence, List.append_assoc, List.cons_append, List.nil_append,
        readElements, read]
      rw [skipSpaces_cons solid]
      simp
  | cons second elements hypothesis =>
      obtain ⟨fuel, rfl⟩ : ∃ other, fuel = other + 1 := ⟨fuel - 1, by omega⟩
      have read := (readsBack first (by simp)).2
        (',' :: (writeSequence writeElement close (second :: elements) ++ rest))
        (endsValue_cons (Or.inl rfl))
      have tail : readElements element close fuel
          (writeSequence writeElement close (second :: elements) ++ rest) =
            some (second :: elements, rest) :=
        hypothesis (fun value member => readsBack value (List.mem_cons_of_mem first member))
          (by simpa using enough)
      have comma : ¬ ',' = close := by rcases closes with rfl | rfl <;> decide
      simp only [writeSequence, List.append_assoc, List.cons_append, readElements, read]
      rw [skipSpaces_cons (by decide)]
      simp [comma, tail]

theorem readSequence_writeSequence {elements : List Element} {rest : List Char}
    (closes : close = ']' ∨ close = '}')
    (readsBack : ∀ value ∈ elements, ReadsBack element writeElement value) :
    readSequence element close (writeSequence writeElement close elements ++ rest) =
      some (elements, rest) := by
  cases elements with
  | nil =>
      have solid : isSpace close = false := by rcases closes with rfl | rfl <;> decide
      simp only [writeSequence, List.cons_append, List.nil_append, readSequence]
      rw [skipSpaces_cons solid]
      simp
  | cons first elements =>
      have starts : StartsValue (writeSequence writeElement close (first :: elements) ++ rest) := by
        cases elements <;> simp only [writeSequence, List.append_assoc] <;>
          exact (readsBack first (by simp)).1.append _
      have enough : elements.length <
          (writeSequence writeElement close (first :: elements) ++ rest).length := by
        have := length_le_writeSequence writeElement close (first :: elements)
        simp only [List.length_cons, List.length_append] at this ⊢
        omega
      have read : readElements element close _
          (writeSequence writeElement close (first :: elements) ++ rest) =
            some (first :: elements, rest) :=
        readElements_writeSequence closes readsBack enough
      obtain ⟨character, others, whole, solid, noBracket, noBrace⟩ := starts
      have open_ : ¬ character = close := by
        rcases closes with rfl | rfl
        · exact noBracket
        · exact noBrace
      rw [whole] at read ⊢
      rw [readSequence, skipSpaces_cons solid]
      simpa [open_] using read

end Sequences

theorem readsBack_readMember {value : Reader Json} {entry : String × Json}
    (readsBack : ReadsBack value write entry.2) :
    ReadsBack (readMember value) writeMember entry := by
  refine ⟨⟨'"', _, rfl, by decide⟩, ?_⟩
  intro rest ends
  rw [writeMember, List.append_assoc, writeText_append, readMember, skipSpaces_cons (by decide)]
  simp only [readText_flatMap_escape, List.cons_append]
  rw [skipSpaces_cons (by decide)]
  simp [readsBack.2 rest ends]

/-! ## Values -/

/-- A value that is no array and no object. -/
def IsScalar : Json → Prop
  | array _ | object _ => False
  | _ => True

theorem readScalar_integerText {value : Int} {rest : List Char}
    (whole : (JsonNumber.integer value).IsWhole) (ends : EndsValue rest) :
    readScalar (Decimal.integerText value ++ rest) = some (number (.integer value), rest) := by
  have read := read?_integerText whole ends
  have isNumber : ∃ first others, Decimal.integerText value ++ rest = first :: others ∧
      (first = '-' ∨ Decimal.isDigit first = true) := by
    unfold Decimal.integerText
    split
    · exact ⟨_, _, rfl, Or.inl rfl⟩
    · cases digits : Decimal.digitsOf value.natAbs with
      | nil => exact absurd digits (Decimal.digitsOf_ne_nil _)
      | cons first others =>
          exact ⟨first, others ++ rest, rfl,
            Or.inr (Decimal.isDigit_of_mem_digitsOf (by rw [digits]; simp))⟩
  obtain ⟨first, others, equal, starts⟩ := isNumber
  rw [equal] at read ⊢
  unfold readScalar
  split <;> first
    | (injection ‹_ :: _ = _ :: _› with same _
       subst same
       exact absurd starts (by decide))
    | simp [read]

theorem readScalar_write {depth : Nat} {value : Json} {rest : List Char}
    (fits : Fits depth value) (scalar : value.IsScalar) (ends : EndsValue rest) :
    readScalar (value.write ++ rest) = some (value, rest) := by
  cases value with
  | null => simp [write, readScalar, readWord]
  | boolean flag => cases flag <;> simp [write, readScalar, readWord]
  | string content =>
      rw [write, writeText_append, readScalar, readText_flatMap_escape]
      simp
  | array items => exact absurd scalar (by simp [IsScalar])
  | object members => exact absurd scalar (by simp [IsScalar])
  | number value =>
      cases value with
      | real value => exact absurd fits (by simp [Fits, IsWhole])
      | integer value => exact readScalar_integerText (by simpa [Fits] using fits) ends

theorem readValue_eq_readScalar {depth : Nat} {text : List Char}
    (starts : StartsValue text) (noArray : text.head? ≠ some '[')
    (noObject : text.head? ≠ some '{') : readValue depth text = readScalar text := by
  cases depth with
  | zero => rw [readValue, starts.skipSpaces_eq]
  | succ depth =>
      unfold readValue
      rw [starts.skipSpaces_eq]
      split
      · exact absurd rfl noArray
      · exact absurd rfl noObject
      · rfl

theorem head?_write_of_isScalar {depth : Nat} {value : Json} (fits : Fits depth value)
    (scalar : value.IsScalar) :
    value.write.head? ≠ some '[' ∧ value.write.head? ≠ some '{' := by
  cases value with
  | null => simp [write]
  | boolean flag => cases flag <;> simp [write]
  | string content => simp [write, writeText]
  | array items => exact absurd scalar (by simp [IsScalar])
  | object members => exact absurd scalar (by simp [IsScalar])
  | number value =>
      cases value with
      | real value => exact absurd fits (by simp [Fits, IsWhole])
      | integer value =>
          rw [write, writeNumber, Decimal.integerText]
          split
          · simp
          · cases digits : Decimal.digitsOf value.natAbs with
            | nil => simp
            | cons first others =>
                have isDigit : Decimal.isDigit first = true :=
                  Decimal.isDigit_of_mem_digitsOf (by rw [digits]; simp)
                constructor <;>
                  · intro equal
                    injection equal with equal
                    subst equal
                    exact absurd isDigit (by decide)

theorem readValue_write_of_isScalar {depth : Nat} {value : Json} {rest : List Char}
    (fits : Fits depth value) (scalar : value.IsScalar) (ends : EndsValue rest) :
    readValue depth (value.write ++ rest) = some (value, rest) := by
  have starts := startsValue_write fits
  have heads := head?_write_of_isScalar fits scalar
  have sameHead : (value.write ++ rest).head? = value.write.head? := by
    obtain ⟨first, others, equal, -⟩ := starts
    rw [equal]
    rfl
  rw [readValue_eq_readScalar (starts.append rest) (sameHead ▸ heads.1) (sameHead ▸ heads.2)]
  exact readScalar_write fits scalar ends

/-- Fitting values are read back. -/
theorem readsBack_readValue {depth : Nat} {value : Json} (fits : Fits depth value) :
    ReadsBack (readValue depth) write value := by
  refine ⟨startsValue_write fits, ?_⟩
  intro rest ends
  induction depth generalizing value rest with
  | zero =>
      exact readValue_write_of_isScalar fits (by cases value <;> simp_all [IsScalar, Fits]) ends
  | succ depth hypothesis =>
      cases value with
      | array items =>
          have readsBack : ∀ item ∈ items, ReadsBack (readValue depth) write item :=
            fun item member => ⟨startsValue_write (fits item member),
              fun rest ends => hypothesis (fits item member) rest ends⟩
          rw [write, writeItems_eq, List.cons_append, readValue, skipSpaces_cons (by decide)]
          simp [readSequence_writeSequence (Or.inl rfl) readsBack]
      | object members =>
          have readsBack : ∀ entry ∈ members,
              ReadsBack (readMember (readValue depth)) writeMember entry :=
            fun entry member => readsBack_readMember ⟨startsValue_write (fits entry member),
              fun rest ends => hypothesis (fits entry member) rest ends⟩
          rw [write, writeMembers_eq, List.cons_append, readValue, skipSpaces_cons (by decide)]
          simp [readSequence_writeSequence (Or.inr rfl) readsBack]
      | null | boolean flag | number number | string content =>
          exact readValue_write_of_isScalar fits (by simp [IsScalar]) ends

/-- A fitting value is what its compact text stands for. -/
theorem ofString?_compact {value : Json} (fits : Fits depthLimit value) :
    ofString? value.compact = some value := by
  have read := (readsBack_readValue fits).2 [] (by simp [EndsValue])
  rw [List.append_nil] at read
  simp [ofString?, compact, read?, read, skipSpaces]

end Json
end InventoryGauges
