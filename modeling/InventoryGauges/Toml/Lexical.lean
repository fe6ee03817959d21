import InventoryGauges.Json.Reader

/-!
# Lexical parts of TOML

Blanks, comments, line ends, the four kinds of texts, and keys.
-/

namespace InventoryGauges
namespace Toml

/-- A reader takes something from the start of a text and leaves the rest. -/
abbrev Reader (Result : Type) :=
  List Char → Option (Result × List Char)

/-- A character between the tokens of a line. -/
def isBlank (character : Char) : Bool :=
  character == ' ' || character == '\t'

def skipBlanks (text : List Char) : List Char :=
  text.dropWhile isBlank

/-- A character that may stand in texts and comments of one line. -/
def isPrintable (character : Char) : Bool :=
  character == '\t' || 0x20 ≤ character.toNat && character.toNat != 0x7f

/-- Read the end of a line, which is also the end of the text. -/
def dropLineEnd? : List Char → Option (List Char)
  | [] => some []
  | '\n' :: rest => some rest
  | '\r' :: '\n' :: rest => some rest
  | _ => none

/-- Drop a comment. -/
def skipComment : List Char → List Char
  | '#' :: rest => rest.dropWhile isPrintable
  | text => text

/-- Read what may follow an expression on its line. -/
def dropRestOfLine? (text : List Char) : Option (List Char) :=
  dropLineEnd? (skipComment (skipBlanks text))

/-- Put a character in front of a read text. -/
def prepend (character : Char) (read : Option (List Char × List Char)) :
    Option (List Char × List Char) :=
  read.map fun (content, rest) => (character :: content, rest)

/-- The character of a code, unless it is a surrogate or too great. -/
def scalar? (code : Nat) : Option Char :=
  if code.isValidChar then some (Char.ofNat code) else none

/-- The character of an escape with one letter. -/
def escaped? : Char → Option Char
  | '"' => some '"'
  | '\\' => some '\\'
  | 'b' => some '\x08'
  | 'f' => some '\x0c'
  | 'n' => some '\n'
  | 'r' => some '\r'
  | 't' => some '\t'
  | _ => none

/-- The character of an escape with eight digits. -/
def longEscape? (a b c d e f g h : Char) : Option Char := do
  let high ← Json.hexQuad? a b c d
  let low ← Json.hexQuad? e f g h
  scalar? (high * 65536 + low)

/-- Read the rest of a text between double quotes. -/
def readBasic : Reader (List Char)
  | [] => none
  | '"' :: rest => some ([], rest)
  | '\\' :: 'u' :: a :: b :: c :: d :: rest =>
      match (Json.hexQuad? a b c d).bind scalar? with
      | some character => prepend character (readBasic rest)
      | none => none
  | '\\' :: 'U' :: a :: b :: c :: d :: e :: f :: g :: h :: rest =>
      match longEscape? a b c d e f g h with
      | some character => prepend character (readBasic rest)
      | none => none
  | '\\' :: letter :: rest =>
      match escaped? letter with
      | some character => prepend character (readBasic rest)
      | none => none
  | character :: rest =>
      if isPrintable character && character != '\\' then prepend character (readBasic rest)
      else none

/-- Read the rest of a text between single quotes. -/
def readLiteral : Reader (List Char)
  | [] => none
  | '\'' :: rest => some ([], rest)
  | character :: rest =>
      if isPrintable character then prepend character (readLiteral rest) else none

/-- Whether only blanks stand before the end of the line. -/
def endsLine (text : List Char) : Bool :=
  match skipBlanks text with
  | '\n' :: _ => true
  | '\r' :: '\n' :: _ => true
  | _ => false

/-- Read the rest of a text of several lines between double quotes.  A
backslash at the end of a line skips blanks and line ends. -/
def readBasicLines (skipping : Bool) : Reader (List Char)
  | [] => none
  | '"' :: '"' :: '"' :: '"' :: '"' :: rest => some (['"', '"'], rest)
  | '"' :: '"' :: '"' :: '"' :: rest => some (['"'], rest)
  | '"' :: '"' :: '"' :: rest => some ([], rest)
  | '\\' :: 'u' :: a :: b :: c :: d :: rest =>
      match (Json.hexQuad? a b c d).bind scalar? with
      | some character => prepend character (readBasicLines false rest)
      | none => none
  | '\\' :: 'U' :: a :: b :: c :: d :: e :: f :: g :: h :: rest =>
      match longEscape? a b c d e f g h with
      | some character => prepend character (readBasicLines false rest)
      | none => none
  | '\\' :: letter :: rest =>
      match escaped? letter with
      | some character => prepend character (readBasicLines false rest)
      | none => if endsLine (letter :: rest) then readBasicLines true (letter :: rest) else none
  | '\r' :: '\n' :: rest =>
      if skipping then readBasicLines true rest
      else prepend '\n' (readBasicLines false rest)
  | '\n' :: rest =>
      if skipping then readBasicLines true rest
      else prepend '\n' (readBasicLines false rest)
  | character :: rest =>
      if skipping && isBlank character then readBasicLines true rest
      else if isPrintable character && character != '\\' then
        prepend character (readBasicLines false rest)
      else none

/-- Read the rest of a text of several lines between single quotes. -/
def readLiteralLines : Reader (List Char)
  | [] => none
  | '\'' :: '\'' :: '\'' :: '\'' :: '\'' :: rest => some (['\'', '\''], rest)
  | '\'' :: '\'' :: '\'' :: '\'' :: rest => some (['\''], rest)
  | '\'' :: '\'' :: '\'' :: rest => some ([], rest)
  | '\r' :: '\n' :: rest => prepend '\n' (readLiteralLines rest)
  | '\n' :: rest => prepend '\n' (readLiteralLines rest)
  | character :: rest =>
      if isPrintable character then prepend character (readLiteralLines rest) else none

/-- Drop a line end at the start of a text of several lines. -/
def dropFirstLineEnd : List Char → List Char
  | '\n' :: rest => rest
  | '\r' :: '\n' :: rest => rest
  | text => text

/-- Read a text of any kind. -/
def readText : Reader (List Char)
  | '"' :: '"' :: '"' :: rest => readBasicLines false (dropFirstLineEnd rest)
  | '"' :: rest => readBasic rest
  | '\'' :: '\'' :: '\'' :: rest => readLiteralLines (dropFirstLineEnd rest)
  | '\'' :: rest => readLiteral rest
  | _ => none

/-- A character of a key without quotes. -/
def isKeyCharacter (character : Char) : Bool :=
  character.isAlphanum || character == '_' || character == '-'

/-- Read one part of a key. -/
def readKeyPart : Reader String
  | '"' :: rest => (readBasic rest).map fun (content, rest) => (String.ofList content, rest)
  | '\'' :: rest => (readLiteral rest).map fun (content, rest) => (String.ofList content, rest)
  | text =>
      let part := text.takeWhile isKeyCharacter
      if part.isEmpty then none
      else some (String.ofList part, text.dropWhile isKeyCharacter)

/-- Greatest number of parts of a key. -/
def keyLimit : Nat := 79

/-- Read parts of a key with dots between them and blanks around them, at most
so many. -/
def readKeyParts : Nat → Reader (List String)
  | 0, _ => none
  | parts + 1, text =>
      match readKeyPart (skipBlanks text) with
      | none => none
      | some (part, rest) =>
          match skipBlanks rest with
          | '.' :: rest =>
              (readKeyParts parts rest).map fun (others, rest) => (part :: others, rest)
          | rest => some ([part], rest)

/-- Read a key. -/
def readKey : Reader (List String) :=
  readKeyParts keyLimit

end Toml
end InventoryGauges
