import InventoryGauges.Decimal.Reading
import InventoryGauges.Settings.Value
import InventoryGauges.Toml.Lexical

/-!
# Numbers and dates of TOML

Integers of 64 bits in four bases, real numbers, and dates and times of day.
-/

namespace InventoryGauges
namespace Toml

open Settings (Value)

/-- The digits of a run in which single underscores stand between digits, and
what follows; none if the run does not start with a digit or an underscore is
misplaced. -/
def readDigits (isDigit : Char → Bool) : Reader (List Char)
  | [] => none
  | first :: rest =>
      if isDigit first then
        match rest with
        | '_' :: after => prepend first (readDigits isDigit after)
        | next :: after =>
            if isDigit next then prepend first (readDigits isDigit (next :: after))
            else some ([first], next :: after)
        | [] => some ([first], [])
      else none

/-- Digits without a zero before others. -/
def readPlainDigits : Reader (List Char)
  | '0' :: rest => some (['0'], rest)
  | text => readDigits Decimal.isDigit text

/-- A number within 64 bits. -/
def word? (value : Int) : Option Value :=
  if -Int.pow 2 63 ≤ value && value < Int.pow 2 63 then some (.integer value) else none

/-- Value of a digit of any base. -/
def digitValue (digit : Char) : Nat :=
  (Json.hexValue? digit).getD 0

/-- Read an integer in a base other than ten. -/
def readBased (base : Nat) : Reader Value
  | text => do
      let isDigit (digit : Char) : Bool :=
        match Json.hexValue? digit with
        | some value => value < base
        | none => false
      let (digits, rest) ← readDigits isDigit text
      let number : Nat :=
        digits.foldl (fun value digit => value * base + digitValue digit) 0
      let value ← word? number
      return (value, rest)

/-- An optional sign. -/
def readSign : List Char → Bool × List Char
  | '-' :: rest => (true, rest)
  | '+' :: rest => (false, rest)
  | text => (false, text)

/-- Read the exponent of a real number. -/
def readExponent : Reader (List Char)
  | letter :: rest =>
      if letter = 'e' || letter = 'E' then do
        let (negative, rest) := readSign rest
        let (digits, rest) ← readDigits Decimal.isDigit rest
        return ((if negative then ['e', '-'] else ['e']) ++ digits, rest)
      else none
  | [] => none

/-- Whether a text starts with an exponent. -/
def startsExponent (text : List Char) : Bool :=
  text.head? == some 'e' || text.head? == some 'E'

/-- Read what makes a number real: a fraction, an exponent, or both. -/
def readRealPart : Reader (List Char)
  | '.' :: rest => do
      let (fraction, rest) ← readDigits Decimal.isDigit rest
      if startsExponent rest then
        let (exponent, rest) ← readExponent rest
        return ('.' :: fraction ++ exponent, rest)
      else return ('.' :: fraction, rest)
  | text => readExponent text

/-- Read a number in base ten.  A positive real number is finite. -/
def readDecimal (text : List Char) : Option (Value × List Char) := do
  let (negative, rest) := readSign text
  let (whole, rest) ← readPlainDigits rest
  if rest.head? == some '.' || startsExponent rest then
    let (part, rest) ← readRealPart rest
    let value ← Decimal.real? (whole ++ part)
    if value.isInfinite && !negative then none else return (.real, rest)
  else
    let magnitude : Int := Decimal.value whole
    let value ← word? (if negative then -magnitude else magnitude)
    return (value, rest)

/-- Read a word after an optional sign. -/
def readSpecial (text : List Char) : Option (Value × List Char) :=
  let (_, rest) := readSign text
  match rest with
  | 'i' :: 'n' :: 'f' :: after => some (.real, after)
  | 'n' :: 'a' :: 'n' :: after => some (.real, after)
  | _ => none

/-- Read a number of exactly so many digits within bounds. -/
def readFixed (width least greatest : Nat) (text : List Char) : Option (Nat × List Char) :=
  let digits := text.take width
  if digits.length = width && digits.all Decimal.isDigit then
    let value := Decimal.value digits
    if least ≤ value && value ≤ greatest then some (value, text.drop width) else none
  else none

/-- Read an expected character. -/
def expect (character : Char) : List Char → Option (List Char)
  | first :: rest => if first = character then some rest else none
  | [] => none

/-- Number of days of a month. -/
def daysOfMonth (year month : Nat) : Nat :=
  if month = 2 then
    if year % 4 = 0 && (year % 100 != 0 || year % 400 = 0) then 29 else 28
  else if [4, 6, 9, 11].contains month then 30
  else 31

/-- Read a date. -/
def readDate (text : List Char) : Option (List Char) := do
  let (year, rest) ← readFixed 4 0 9999 text
  let rest ← expect '-' rest
  let (month, rest) ← readFixed 2 1 12 rest
  let rest ← expect '-' rest
  let (_, rest) ← readFixed 2 1 (daysOfMonth year month) rest
  return rest

/-- Drop the fraction of a second. -/
def skipFraction : List Char → Option (List Char)
  | '.' :: rest =>
      match rest.takeWhile Decimal.isDigit with
      | [] => none
      | _ => some (rest.dropWhile Decimal.isDigit)
  | text => some text

/-- Read a time of day. -/
def readTime (text : List Char) : Option (List Char) := do
  let (_, rest) ← readFixed 2 0 23 text
  let rest ← expect ':' rest
  let (_, rest) ← readFixed 2 0 59 rest
  let rest ← expect ':' rest
  let (_, rest) ← readFixed 2 0 60 rest
  skipFraction rest

/-- Read the offset of a time of day, possibly none. -/
def readOffset (text : List Char) : Option (List Char) :=
  match text with
  | 'Z' :: rest | 'z' :: rest => some rest
  | sign :: rest =>
      if sign = '+' || sign = '-' then do
        let (_, rest) ← readFixed 2 0 23 rest
        let rest ← expect ':' rest
        let (_, rest) ← readFixed 2 0 59 rest
        return rest
      else some text
  | [] => some []

/-- Read a date, perhaps with a time of day. -/
def readDateTime (text : List Char) : Option (List Char) := do
  let rest ← readDate text
  match rest with
  | mark :: after =>
      if mark = 'T' || mark = 't' || mark = ' ' && (after.head?.any Decimal.isDigit) then
        readOffset (← readTime after)
      else return rest
  | [] => return []

/-- Whether a text starts like a date. -/
def startsDate (text : List Char) : Bool :=
  (readFixed 4 0 9999 text).any fun read => read.2.head? == some '-'

/-- Whether a text starts like a time of day. -/
def startsTime (text : List Char) : Bool :=
  (readFixed 2 0 99 text).any fun read => read.2.head? == some ':'

/-- Read a number or a date. -/
def readNumber (text : List Char) : Option (Value × List Char) :=
  if startsDate text then (readDateTime text).map fun rest => (.moment, rest)
  else if startsTime text then (readTime text).map fun rest => (.moment, rest)
  else
    match text with
    | '0' :: 'x' :: rest => readBased 16 rest
    | '0' :: 'o' :: rest => readBased 8 rest
    | '0' :: 'b' :: rest => readBased 2 rest
    | _ =>
        match readSpecial text with
        | some read => some read
        | none => readDecimal text

end Toml
end InventoryGauges
