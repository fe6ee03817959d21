/-!
# Key patterns

Patterns that select keys of a store server: an asterisk stands for any text, a
question mark for any character, brackets for a choice of characters, and a
backslash takes the next character as it is.
-/

namespace InventoryGauges
namespace Store
namespace Glob

/-- One piece of a pattern. -/
inductive Piece
  | text
  | character
  | choice (negated : Bool) (ranges : List (Char × Char))
  | exact (character : Char)
  deriving DecidableEq, Repr

/-- Whether a piece stands for a single character. -/
def Piece.accepts (character : Char) : Piece → Bool
  | text => false
  | Piece.character => true
  | choice negated ranges =>
      (ranges.any fun range =>
        (range.1 ≤ character && character ≤ range.2) ||
          (range.2 ≤ character && character ≤ range.1)) != negated
  | exact expected => expected == character

/-- Read the choices up to the closing bracket or the end. -/
def readChoices : List Char → List (Char × Char) × List Char
  | [] => ([], [])
  | ']' :: rest => ([], rest)
  | '\\' :: first :: rest =>
      let (ranges, after) := readChoices rest
      ((first, first) :: ranges, after)
  | first :: '-' :: last :: rest =>
      let (ranges, after) := readChoices rest
      ((first, last) :: ranges, after)
  | first :: rest =>
      let (ranges, after) := readChoices rest
      ((first, first) :: ranges, after)

theorem length_readChoices_le (text : List Char) :
    (readChoices text).2.length ≤ text.length := by
  fun_induction readChoices text <;> simp_all <;> omega

/-- The pieces of a pattern. -/
def pieces : List Char → List Piece
  | [] => []
  | '*' :: rest => .text :: pieces rest
  | '?' :: rest => .character :: pieces rest
  | '[' :: '^' :: rest =>
      .choice true (readChoices rest).1 :: pieces (readChoices rest).2
  | '[' :: rest => .choice false (readChoices rest).1 :: pieces (readChoices rest).2
  | '\\' :: character :: rest => .exact character :: pieces rest
  | character :: rest => .exact character :: pieces rest
  termination_by text => text.length
  decreasing_by
    all_goals
      first
        | simp only [List.length_cons]; omega
        | have := length_readChoices_le rest
          simp only [List.length_cons]
          omega

/-- Whether the end of a text fits what follows an asterisk. -/
def fitsSomeEnd (fits : List Char → Bool) : List Char → Bool
  | [] => fits []
  | character :: rest => fits (character :: rest) || fitsSomeEnd fits rest

/-- Whether a text fits the pieces of a pattern. -/
def fits : List Piece → List Char → Bool
  | [], text => text.isEmpty
  | .text :: pieces, text => fitsSomeEnd (fits pieces) text
  | _ :: _, [] => false
  | piece :: pieces, character :: text => piece.accepts character && fits pieces text

/-- Whether a text fits a pattern. -/
def selects (pattern text : List Char) : Bool :=
  fits (pieces pattern) text

/-- A character that means something in a pattern. -/
def isMeta (character : Char) : Bool :=
  ['*', '?', '[', ']', '\\'].contains character

/-- The pattern of a text itself. -/
def escape (text : List Char) : List Char :=
  text.flatMap fun character => if isMeta character then ['\\', character] else [character]

/-- The pattern of all texts with a start. -/
def startingWith (start : List Char) : List Char :=
  escape start ++ ['*']

end Glob
end Store
end InventoryGauges
