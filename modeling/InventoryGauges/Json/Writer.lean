import InventoryGauges.Decimal.Shortest
import InventoryGauges.Json

/-!
# Writing JSON

The compact form: no spaces, members in their order, the shortest decimals for
real numbers, and escapes only for quotes, backslashes and control characters.
-/

namespace InventoryGauges
namespace Json

/-- A hexadecimal digit in lower case. -/
def hexDigit (value : Nat) : Char :=
  Nat.digitChar value

/-- A character of a text as it is written. -/
def escape (character : Char) : List Char :=
  if character = '"' then ['\\', '"']
  else if character = '\\' then ['\\', '\\']
  else if character = '\x08' then ['\\', 'b']
  else if character = '\x0c' then ['\\', 'f']
  else if character = '\n' then ['\\', 'n']
  else if character = '\r' then ['\\', 'r']
  else if character = '\t' then ['\\', 't']
  else if character.toNat < 0x20 then
    ['\\', 'u', '0', '0', hexDigit (character.toNat / 16), hexDigit (character.toNat % 16)]
  else [character]

/-- A text with its quotes. -/
def writeText (content : String) : List Char :=
  '"' :: content.toList.flatMap escape ++ ['"']

/-- A positive decimal: positional if the point stands within the first sixteen
digits or up to five zeros follow it, else with an exponent. -/
def writeScaled (decimal : Decimal.Scaled) : List Char :=
  let digits := Decimal.digitsOf decimal.digits
  let point : Int := digits.length + decimal.exponent
  if 0 ≤ decimal.exponent && point ≤ 16 then decimal.positional ++ ['.', '0']
  else if -5 < point && point ≤ 16 then decimal.positional
  else
    let fraction := digits.drop 1
    digits.take 1 ++ (if fraction.isEmpty then [] else '.' :: fraction) ++
      'e' :: (if 0 < point then ['+'] else []) ++ Decimal.integerText (point - 1)

/-- A real number; what is not finite has no number form. -/
def writeReal (value : Binary64) : List Char :=
  if value.isNaN || value.isInfinite then ['n', 'u', 'l', 'l']
  else
    (if value.isNegative then ['-'] else []) ++
      (if value.magnitude = 0 then ['0', '.', '0']
        else writeScaled (Decimal.shortest value))

def writeNumber : JsonNumber → List Char
  | .integer value => Decimal.integerText value
  | .real value => writeReal value

mutual

/-- The compact form of a value. -/
def write : Json → List Char
  | null => ['n', 'u', 'l', 'l']
  | boolean true => ['t', 'r', 'u', 'e']
  | boolean false => ['f', 'a', 'l', 's', 'e']
  | number value => writeNumber value
  | string content => writeText content
  | array items => '[' :: writeItems items
  | object members => '{' :: writeMembers members

/-- Items with commas between them and the closing bracket. -/
def writeItems : List Json → List Char
  | [] => [']']
  | [item] => item.write ++ [']']
  | item :: items => item.write ++ ',' :: writeItems items

/-- Members with commas between them and the closing brace. -/
def writeMembers : List (String × Json) → List Char
  | [] => ['}']
  | [(name, value)] => writeText name ++ ':' :: (value.write ++ ['}'])
  | (name, value) :: members =>
      writeText name ++ ':' :: (value.write ++ ',' :: writeMembers members)

end

/-- The compact form as a string. -/
def compact (value : Json) : String :=
  String.ofList value.write

end Json
end InventoryGauges
