import InventoryGauges.Json.Number

/-!
# Reading JSON

A strict reader: one value with spaces around it, no trailing commas, no
control characters in texts, surrogate escapes in pairs only, and at most 127
arrays and objects inside each other.
-/

namespace InventoryGauges
namespace Json

/-- A reader takes a value from the start of a text and leaves the rest. -/
abbrev Reader (Result : Type) :=
  List Char → Option (Result × List Char)

/-- A character that may stand between the tokens. -/
def isSpace (character : Char) : Bool :=
  character == ' ' || character == '\n' || character == '\t' || character == '\r'

def skipSpaces (text : List Char) : List Char :=
  text.dropWhile isSpace

/-- Value of a hexadecimal digit. -/
def hexValue? (character : Char) : Option Nat :=
  if '0' ≤ character && character ≤ '9' then some (character.toNat - '0'.toNat)
  else if 'a' ≤ character && character ≤ 'f' then some (character.toNat - 'a'.toNat + 10)
  else if 'A' ≤ character && character ≤ 'F' then some (character.toNat - 'A'.toNat + 10)
  else none

/-- Value of four hexadecimal digits. -/
def hexQuad? (first second third fourth : Char) : Option Nat := do
  let first ← hexValue? first
  let second ← hexValue? second
  let third ← hexValue? third
  let fourth ← hexValue? fourth
  return ((first * 16 + second) * 16 + third) * 16 + fourth

/-- What a single-character escape stands for. -/
def escapedCharacter? : Char → Option Char
  | '"' => some '"'
  | '\\' => some '\\'
  | '/' => some '/'
  | 'b' => some '\x08'
  | 'f' => some '\x0c'
  | 'n' => some '\n'
  | 'r' => some '\r'
  | 't' => some '\t'
  | _ => none

/-- The character of two surrogates. -/
def surrogatePair? (high low : Nat) : Option Char :=
  if 0xd800 ≤ high && high < 0xdc00 && 0xdc00 ≤ low && low < 0xe000 then
    some (Char.ofNat (0x10000 + (high - 0xd800) * 0x400 + (low - 0xdc00)))
  else none

/-- The character of a single four-digit escape. -/
def plainEscape? (code : Nat) : Option Char :=
  if 0xd800 ≤ code && code < 0xe000 then none else some (Char.ofNat code)

/-- Put a character in front of a read text. -/
def prepend (character : Char) (read : Option (List Char × List Char)) :
    Option (List Char × List Char) :=
  read.map fun (content, rest) => (character :: content, rest)

/-- Read the rest of a text and its closing quote. -/
def readText : Reader (List Char)
  | [] => none
  | '"' :: rest => some ([], rest)
  | '\\' :: 'u' :: a :: b :: c :: d :: rest =>
      match hexQuad? a b c d with
      | none => none
      | some code =>
          match plainEscape? code with
          | some character => prepend character (readText rest)
          | none =>
              match rest with
              | '\\' :: 'u' :: e :: f :: g :: h :: rest =>
                  match (hexQuad? e f g h).bind (surrogatePair? code) with
                  | some character => prepend character (readText rest)
                  | none => none
              | _ => none
  | '\\' :: escape :: rest =>
      match escapedCharacter? escape with
      | some character => prepend character (readText rest)
      | none => none
  | character :: rest =>
      if character.toNat < 0x20 || character == '\\' then none
      else prepend character (readText rest)

/-- Read an expected word. -/
def readWord (word : List Char) (value : Json) : Reader Json
  | text =>
      if word.isPrefixOf text then some (value, text.drop word.length) else none

/-- Read a value that is no array and no object. -/
def readScalar : Reader Json
  | '"' :: rest =>
      (readText rest).map fun (content, rest) => (string (String.ofList content), rest)
  | 'n' :: rest => readWord ['u', 'l', 'l'] null rest
  | 't' :: rest => readWord ['r', 'u', 'e'] (boolean true) rest
  | 'f' :: rest => readWord ['a', 'l', 's', 'e'] (boolean false) rest
  | source => (JsonNumber.read? source).map fun (value, rest) => (number value, rest)

/-- Read one or more elements with commas between them, up to the closing
character.  Each element takes a character, so the length of the text is fuel
enough. -/
def readElements {Element : Type} (element : Reader Element) (close : Char) :
    Nat → Reader (List Element)
  | 0, _ => none
  | fuel + 1, text =>
      match element text with
      | none => none
      | some (first, rest) =>
          match skipSpaces rest with
          | [] => none
          | separator :: rest =>
              if separator = close then some ([first], rest)
              else if separator = ',' then
                (readElements element close fuel rest).map fun (others, rest) =>
                  (first :: others, rest)
              else none

/-- Read the elements after the opening character, possibly none. -/
def readSequence {Element : Type} (element : Reader Element) (close : Char) :
    Reader (List Element)
  | text =>
      match skipSpaces text with
      | [] => none
      | first :: rest =>
          if first = close then some ([], rest)
          else readElements element close (rest.length + 1) (first :: rest)

/-- Read a member of an object. -/
def readMember (value : Reader Json) : Reader (String × Json)
  | text =>
      match skipSpaces text with
      | '"' :: rest =>
          match readText rest with
          | none => none
          | some (name, rest) =>
              match skipSpaces rest with
              | ':' :: rest =>
                  (value rest).map fun (content, rest) =>
                    ((String.ofList name, content), rest)
              | _ => none
      | _ => none

/-- Read a value with at most `depth` arrays and objects inside each other. -/
def readValue : Nat → Reader Json
  | 0, text => readScalar (skipSpaces text)
  | depth + 1, text =>
      match skipSpaces text with
      | '[' :: rest =>
          (readSequence (readValue depth) ']' rest).map fun (items, rest) =>
            (array items, rest)
      | '{' :: rest =>
          (readSequence (readMember (readValue depth)) '}' rest).map fun (members, rest) =>
            (object members, rest)
      | text => readScalar text

/-- Greatest number of arrays and objects inside each other. -/
def depthLimit : Nat := 127

/-- Read a text that is one value. -/
def read? (source : List Char) : Option Json :=
  match readValue depthLimit source with
  | none => none
  | some (value, rest) => if (skipSpaces rest).isEmpty then some value else none

/-- Read a string that is one value. -/
def ofString? (source : String) : Option Json :=
  read? source.toList

end Json
end InventoryGauges
