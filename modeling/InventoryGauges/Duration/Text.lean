import InventoryGauges.Decimal.Digits
import InventoryGauges.Duration
import InventoryGauges.Text.Blank

/-!
# Durations in words

A duration is written as spans, each a number and a unit.  Blanks may stand
around spans and inside numbers, and a number may have a fraction.
-/

namespace InventoryGauges
namespace Duration

/-- Greatest unsigned 64-bit number. -/
def greatest : Nat := Nat.pow 2 64 - 1

/-- A number that is no greater than 64 bits allow. -/
def bounded? (number : Nat) : Option Nat :=
  if number ≤ greatest then some number else none

/-- A unit of time.  Units below a second count in nanoseconds, the others in
seconds. -/
inductive Unit
  | nanos (factor : Nat)
  | seconds (factor : Nat)
  deriving DecidableEq, Repr

namespace Unit

/-- The unit of a name. -/
def ofName? (name : String) : Option Unit :=
  match name with
  | "nanos" | "nsec" | "ns" => some (nanos 1)
  | "usec" | "us" | "µs" => some (nanos 1000)
  | "millis" | "msec" | "ms" => some (nanos 1000000)
  | "seconds" | "second" | "secs" | "sec" | "s" => some (seconds 1)
  | "minutes" | "minute" | "min" | "mins" | "m" => some (seconds 60)
  | "hours" | "hour" | "hrs" | "hr" | "h" => some (seconds 3600)
  | "days" | "day" | "d" => some (seconds 86400)
  | "weeks" | "week" | "wks" | "wk" | "w" => some (seconds 604800)
  | "months" | "month" | "M" => some (seconds 2630016)
  | "years" | "year" | "yrs" | "yr" | "y" => some (seconds 31557600)
  | _ => none

/-- Nanoseconds of a number of units, if the number fits. -/
def nanosOf? (number : Nat) : Unit → Option Nat
  | nanos factor => bounded? (number * factor)
  | seconds factor => (bounded? (number * factor)).map (· * nanosPerSecond)

/-- Nanoseconds of a fraction of a unit; from an hour on, whole seconds. -/
def fractionOf? (numerator denominator : Nat) : Unit → Option Nat
  | nanos factor => (bounded? (numerator * factor)).map (· / denominator)
  | seconds factor =>
      if factor < 3600 then
        (bounded? (numerator * factor * nanosPerSecond)).map (· / denominator)
      else
        (bounded? (numerator * factor)).map fun seconds =>
          seconds / denominator * nanosPerSecond

end Unit

/-- A character of the name of a unit. -/
def isUnitCharacter (character : Char) : Bool :=
  character.isAlpha || character == 'µ'

/-- A character inside a number. -/
def isNumberCharacter (character : Char) : Bool :=
  Decimal.isDigit character || Text.isBlank character

/-- The number in a run of digits and blanks. -/
def spreadNumber (text : List Char) : Nat :=
  Decimal.value (text.filter Decimal.isDigit)

/-- The number of digits in a run of digits and blanks. -/
def spreadLength (text : List Char) : Nat :=
  (text.filter Decimal.isDigit).length

/-- The fraction at the start of what follows a number: its digits, and the
power of ten that divides them. -/
def fraction? : List Char → Option ((Nat × Nat) × List Char)
  | '.' :: rest =>
      let digits := rest.takeWhile isNumberCharacter
      if spreadLength digits = 0 then none
      else do
        let numerator ← bounded? (spreadNumber digits)
        let denominator ← bounded? (Nat.pow 10 (spreadLength digits))
        return ((numerator, denominator), rest.dropWhile isNumberCharacter)
  | rest => some ((0, 1), rest)

/-- Read a span that starts with a digit: its nanoseconds and what follows. -/
def span? (text : List Char) : Option (Nat × List Char) := do
  let number ← bounded? (spreadNumber (text.takeWhile isNumberCharacter))
  let ((numerator, denominator), rest) ← fraction? (text.dropWhile isNumberCharacter)
  let unit ← Unit.ofName? (String.ofList (rest.takeWhile isUnitCharacter))
  let whole ← unit.nanosOf? number
  let part ← unit.fractionOf? numerator denominator
  return (whole + part, rest.dropWhile isUnitCharacter)

/-- Read spans up to the end.  Each takes a character, so the length of the
text is fuel enough. -/
def spans? : Nat → Nat → List Char → Option Nat
  | 0, _, _ => none
  | fuel + 1, total, text =>
      if (bounded? (total / nanosPerSecond)).isNone then none
      else
        match Text.skipBlanks text with
        | [] => some total
        | first :: rest =>
            if Decimal.isDigit first then
              match span? (first :: rest) with
              | some (nanos, after) => spans? fuel (total + nanos) after
              | none => none
            else none

/-- Read a duration of one span or more. -/
def ofText? (text : List Char) : Option Duration :=
  if (Text.skipBlanks text).isEmpty then none
  else (spans? (text.length + 1) 0 text).map Duration.mk

/-- The parts of a duration: the numbers of its units, the greatest first. -/
def parts (duration : Duration) : List (Nat × String) :=
  let seconds := duration.nanos / nanosPerSecond
  let nanos := duration.nanos % nanosPerSecond
  let yearSeconds := seconds % 31557600
  let monthSeconds := yearSeconds % 2630016
  let daySeconds := monthSeconds % 86400
  let plural (count : Nat) (name : String) : Nat × String :=
    (count, if count = 1 then name else name ++ "s")
  [plural (seconds / 31557600) "year", plural (yearSeconds / 2630016) "month",
    plural (monthSeconds / 86400) "day", (daySeconds / 3600, "h"),
    (daySeconds % 3600 / 60, "m"), (daySeconds % 60, "s"), (nanos / 1000000, "ms"),
    (nanos / 1000 % 1000, "us"), (nanos % 1000, "ns")]

/-- A duration in words: its parts that are not zero. -/
def toText (duration : Duration) : String :=
  let shown := duration.parts.filter fun part => part.1 != 0
  if shown.isEmpty then "0s"
  else " ".intercalate (shown.map fun part =>
    String.ofList (Decimal.digitsOf part.1) ++ part.2)

end Duration
end InventoryGauges
