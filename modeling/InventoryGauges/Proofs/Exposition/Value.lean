import InventoryGauges.Exposition
import InventoryGauges.Proofs.Decimal.Reading

/-!
# Values in expositions

The text of a value is one word.  Main statement: it is read as the value, to the bit.
-/

namespace InventoryGauges

namespace Decimal

/-- A character of a decimal without exponent. -/
def IsPositional (character : Char) : Prop :=
  isDigit character ∨ character = '.'

theorem isPositional_of_mem_positional {decimal : Scaled} {character : Char}
    (member : character ∈ decimal.positional) : IsPositional character := by
  obtain ⟨whole, fraction, shape, -, digits, others, -⟩ := exists_positional_eq decimal
  rcases shape with ⟨text, -⟩ | text
  · exact Or.inl (digits character (text ▸ member))
  · rw [text, List.mem_append, List.mem_cons] at member
    rcases member with before | rfl | after
    · exact Or.inl (digits character before)
    · exact Or.inr rfl
    · exact Or.inl (others character after)

/-- A decimal starts with a digit. -/
theorem exists_positional_eq_cons (decimal : Scaled) :
    ∃ first rest, decimal.positional = first :: rest ∧ isDigit first := by
  obtain ⟨whole, fraction, shape, some, digits, -, -⟩ := exists_positional_eq decimal
  obtain ⟨first, rest, rfl⟩ := List.exists_cons_of_ne_nil some
  have digit := digits first List.mem_cons_self
  rcases shape with ⟨text, -⟩ | text
  · exact ⟨first, rest, text, digit⟩
  · exact ⟨first, _, text, digit⟩

theorem positional_ne_nil (decimal : Scaled) : decimal.positional ≠ [] := by
  obtain ⟨first, rest, text, -⟩ := exists_positional_eq_cons decimal
  rw [text]
  exact List.cons_ne_nil _ _

theorem toLower_of_isDigit {character : Char} (digit : isDigit character) :
    character.toLower = character := by
  rw [isDigit, Bool.and_eq_true, decide_eq_true_eq, decide_eq_true_eq, Char.le_def,
    Char.le_def] at digit
  have letters : '9'.val < 'A'.val := by decide
  refine dif_neg fun upper => ?_
  exact absurd (UInt32.lt_of_lt_of_le letters upper.1) (UInt32.not_lt.mpr digit.2)

/-- What starts with a digit is none of the words. -/
theorem magnitude?_of_isDigit {first : Char} (digit : isDigit first) (rest : List Char)
    (negative : Bool) :
    magnitude? negative (first :: rest) = unsigned? negative (first :: rest) := by
  have other {letter : Char} {letters : List Char} (word : ¬ isDigit letter) :
      String.ofList ((first :: rest).map Char.toLower) ≠ String.ofList (letter :: letters) := by
    intro same
    rw [String.ofList_inj, List.map_cons, toLower_of_isDigit digit] at same
    exact word ((List.cons.inj same).1 ▸ digit)
  rw [magnitude?]
  split
  · rename_i same
    exact absurd same (other (by decide))
  · rename_i same
    exact absurd same (other (by decide))
  · rename_i same
    exact absurd same (other (by decide))
  · rfl

/-- The shortest decimal of a number is read as its magnitude, after either sign. -/
theorem magnitude?_positional_shortest {number : Binary64} (regular : number.IsRegular)
    (negative : Bool) :
    magnitude? negative (shortest number).positional =
      some (Binary64.ofMagnitude negative number.magnitude) := by
  obtain ⟨first, rest, text, digit⟩ := exists_positional_eq_cons (shortest number)
  rw [text, magnitude?_of_isDigit digit, ← text, unsigned?_positional_shortest regular]

end Decimal

namespace Exposition

/-- A text without blanks and newlines. -/
def IsPlain (text : List Char) : Prop :=
  ' ' ∉ text ∧ '\n' ∉ text

theorem isPlain_valueText (value : Binary64) : IsPlain (valueText value) := by
  have foreign {mark : Char} (other : ¬ Decimal.IsPositional mark) (sign : mark ≠ '-')
      (letters : mark ∉ ['N', 'a', 'N'] ∧ mark ∉ ['i', 'n', 'f']) : mark ∉ valueText value := by
    intro member
    rw [valueText] at member
    split at member
    · exact letters.1 member
    · rcases List.mem_append.mp member with negative | magnitude
      · split at negative
        · exact sign (List.mem_singleton.mp negative)
        · cases negative
      · split at magnitude
        · exact letters.2 magnitude
        · split at magnitude
          · rw [List.mem_singleton.mp magnitude] at other
            exact other (Or.inl rfl)
          · exact other (Decimal.isPositional_of_mem_positional magnitude)
  have blank : ¬ Decimal.IsPositional ' ' := by rintro (digit | point) <;> contradiction
  have newline : ¬ Decimal.IsPositional '\n' := by rintro (digit | point) <;> contradiction
  exact ⟨foreign blank (by decide) (by decide), foreign newline (by decide) (by decide)⟩

theorem valueText_ne_nil (value : Binary64) : valueText value ≠ [] := by
  rw [valueText]
  split
  · exact List.cons_ne_nil _ _
  · refine List.append_ne_nil_of_right_ne_nil _ ?_
    split
    · exact List.cons_ne_nil _ _
    · split
      · exact List.cons_ne_nil _ _
      · exact Decimal.positional_ne_nil _

/-- What stands after the sign is read as the magnitude. -/
theorem exists_magnitude_eq {value : Binary64} (number : value.isNaN = false) :
    ∃ first rest, (if value.isInfinite then ['i', 'n', 'f']
        else if value.magnitude = 0 then ['0']
        else (Decimal.shortest value).positional) = first :: rest ∧
      first ≠ '-' ∧ first ≠ '+' ∧ ∀ negative, Decimal.magnitude? negative (first :: rest) =
        some (Binary64.ofMagnitude negative value.magnitude) := by
  rw [Binary64.isNaN, decide_eq_false_iff_not, not_lt] at number
  split
  · rename_i infinite
    rw [beq_iff_eq.mp infinite]
    exact ⟨'i', ['n', 'f'], rfl, by decide, by decide, fun _ => rfl⟩
  · rename_i finite
    split
    · rename_i zero
      rw [zero]
      exact ⟨'0', [], rfl, by decide, by decide, fun _ => rfl⟩
    · rename_i nonzero
      have regular : value.IsRegular := ⟨Nat.pos_of_ne_zero nonzero,
        Nat.lt_of_le_of_ne number fun same => finite (beq_iff_eq.mpr same)⟩
      obtain ⟨first, rest, text, digit⟩ :=
        Decimal.exists_positional_eq_cons (Decimal.shortest value)
      refine ⟨first, rest, text, ?_, ?_, fun negative => ?_⟩
      · rintro rfl
        cases digit
      · rintro rfl
        cases digit
      · rw [← text, Decimal.magnitude?_positional_shortest regular]

/-- The text of a value is read as the value. -/
theorem real?_valueText (value : Binary64) :
    Decimal.real? (valueText value) = some (if value.isNaN then Binary64.nan else value) := by
  rw [valueText]
  split
  · rfl
  · rename_i number
    obtain ⟨first, rest, text, minus, plus, reads⟩ :=
      exists_magnitude_eq (Bool.eq_false_iff.mpr number)
    have same := value.ofMagnitude_self
    rw [text]
    generalize value.isNegative = negative at same ⊢
    cases negative with
    | true => exact (reads true).trans (congrArg some same)
    | false =>
        have unsigned :
            Decimal.real? (first :: rest) = Decimal.magnitude? false (first :: rest) := by
          rw [Decimal.real?]
          · exact fun _ equal => minus (List.cons.inj equal).1
          · exact fun _ equal => plus (List.cons.inj equal).1
        exact unsigned.trans ((reads false).trans (congrArg some same))

/-- Values have the same text only if they are the same, or both no number. -/
theorem valueText_eq_valueText_iff {value other : Binary64} :
    valueText value = valueText other ↔ value = other ∨ value.isNaN ∧ other.isNaN := by
  constructor
  · intro same
    have reads := real?_valueText value
    rw [same, real?_valueText, Option.some.injEq] at reads
    by_cases none : value.isNaN
    · by_cases noneToo : other.isNaN
      · exact Or.inr ⟨none, noneToo⟩
      · rw [if_neg noneToo, if_pos none] at reads
        exact absurd rfl (reads ▸ noneToo)
    · by_cases noneToo : other.isNaN
      · rw [if_pos noneToo, if_neg none] at reads
        exact absurd rfl (reads ▸ none)
      · rw [if_neg noneToo, if_neg none] at reads
        exact Or.inl reads.symm
  · rintro (rfl | ⟨none, noneToo⟩)
    · rfl
    · rw [valueText, if_pos none, valueText, if_pos noneToo]

end Exposition
end InventoryGauges
