import InventoryGauges.Decimal.Reading
import InventoryGauges.Settings.Value
import InventoryGauges.Text.Blank
import InventoryGauges.Text.Map
import InventoryGauges.Text.Split
import InventoryGauges.Toml.Lexical

/-!
# Settings from the environment

Variables hold settings in two ways: some plain names stand for one setting
each, and names with a start of their own spell sections and keys.  The text of
a variable is read as a value; a text that is none stands for itself.
-/

namespace InventoryGauges
namespace Settings
namespace Variables

/-- A reader takes something from the start of a text and leaves the rest. -/
abbrev Reader (Result : Type) :=
  List Char → Option (Result × List Char)

/-- A character that may stand around values. -/
def isSpace (character : Char) : Bool :=
  [' ', '\t', '\n', '\x0c', '\r'].contains character

def skipSpaces (text : List Char) : List Char :=
  text.dropWhile isSpace

/-- A character that divides values. -/
def isSeparator (character : Char) : Bool :=
  [',', '\x7b', '\x7d', '[', ']'].contains character

/-- Read the rest of a text between double quotes. -/
def readQuoted : Reader (List Char) :=
  let rec read : Reader (List Char)
    | [] => none
    | '"' :: rest => some ([], rest)
    | '\\' :: 'u' :: a :: b :: c :: d :: rest =>
        match (Json.hexQuad? a b c d).bind Toml.scalar? with
        | some character => Toml.prepend character (read rest)
        | none => none
    | '\\' :: 'U' :: a :: b :: c :: d :: e :: f :: g :: h :: rest =>
        match Toml.longEscape? a b c d e f g h with
        | some character => Toml.prepend character (read rest)
        | none => none
    | '\\' :: letter :: rest =>
        match Toml.escaped? letter with
        | some character => Toml.prepend character (read rest)
        | none => none
    | character :: rest =>
        if character = '\\' then none else Toml.prepend character (read rest)
  read

/-- The value of a text without quotes and brackets: a number if it looks like
one, else the text without the blanks around it. -/
def plain (text : List Char) : Value :=
  let text := Text.trim text
  if text.contains '.' && (Decimal.real? text).isSome then .real
  else
    match Decimal.signed? text with
    | some value =>
        if -Int.pow 2 63 ≤ value && value < Int.pow 2 64 then .integer value
        else .text (String.ofList text)
    | none => .text (String.ofList text)

/-- Read elements with commas between them up to the closing character. -/
def readElements {Element : Type} (element : Reader Element) (close : Char) :
    Nat → Reader (List Element)
  | 0, _ => none
  | fuel + 1, text =>
      if text.head? == some close then some ([], text.drop 1)
      else
        match element text with
        | none => none
        | some (first, separator :: rest) =>
            if separator = ',' then
              (readElements element close fuel rest).map fun (others, rest) =>
                (first :: others, rest)
            else if separator = close then some ([first], rest)
            else none
        | some (_, []) => none

/-- Read a key. -/
def readKey : Reader String
  | '"' :: rest => (readQuoted rest).map fun (content, rest) => (String.ofList content, rest)
  | text =>
      let key := text.takeWhile Toml.isKeyCharacter
      if key.isEmpty then none
      else some (String.ofList key, text.dropWhile Toml.isKeyCharacter)

/-- Read a key, an equals sign and a value. -/
def readEntry (value : Reader Value) : Reader (String × Value)
  | text =>
      match readKey (skipSpaces text) with
      | none => none
      | some (key, rest) =>
          match skipSpaces rest with
          | '=' :: rest => (value rest).map fun (content, rest) => ((key, content), rest)
          | _ => none

/-- Read a value without the spaces around it.  Each list or table inside takes
a character, so the length of the text is fuel enough. -/
def readBare : Nat → Reader Value
  | 0, _ => none
  | fuel + 1, text =>
      let value : Reader Value := fun text =>
        (readBare fuel (skipSpaces text)).map fun (content, rest) => (content, skipSpaces rest)
      match text with
      | 't' :: 'r' :: 'u' :: 'e' :: rest => some (.truth true, rest)
      | 'f' :: 'a' :: 'l' :: 's' :: 'e' :: rest => some (.truth false, rest)
      | '{' :: rest =>
          (readElements (readEntry value) '}' (rest.length + 1) rest).map fun (entries, rest) =>
            (.table (entries.foldl (fun table entry => Value.put entry.1 entry.2 table) []), rest)
      | '[' :: rest =>
          (readElements value ']' (rest.length + 1) rest).map fun (items, rest) =>
            (.list items, rest)
      | '"' :: rest =>
          (readQuoted rest).map fun (content, rest) => (.text (String.ofList content), rest)
      | '\'' :: character :: '\'' :: rest => some (.text (String.singleton character), rest)
      | '\'' :: _ => none
      | text =>
          some (plain (text.takeWhile (!isSeparator ·)), text.dropWhile (!isSeparator ·))

/-- The value of a variable. -/
def valueOf (content : String) : Value :=
  let text := content.toList
  match readBare (text.length + 1) (skipSpaces text) with
  | some (value, rest) => if (skipSpaces rest).isEmpty then value else .text content
  | none => .text content

/-- A value under a path of keys. -/
def nested (value : Value) : List String → Value
  | [] => value
  | key :: path => .table [(key, nested value path)]

/-- The plain names, each with the path of its setting. -/
def plainNames : List (String × List String) :=
  [("DB_REDIS_URL", ["store", "redis_url"]),
    ("ACI_URL", ["inventory", "url"]),
    ("ACI_USERNAME", ["inventory", "username"]),
    ("ACI_PASSWORD", ["inventory", "password"]),
    ("PROMETHEUS_PUSHGATEWAY_URL", ["gateway", "url"]),
    ("LOG_LEVEL", ["logging", "level"])]

/-- A name in small letters, without the blanks around it.  Names that differ
in case only are the same. -/
def normalName (name : String) : List Char :=
  (Text.trim name.toList).map Char.toLower

/-- The path of a plain name. -/
def plainPath? (name : String) : Option (List String) :=
  (plainNames.find? fun entry => normalName entry.1 == normalName name).map Prod.snd

/-- What the names begin with that spell sections and keys. -/
def start : String := "ACI_POLLER_"

/-- Divide a text at pairs of underscores and at points. -/
def splitKeys : List Char → List (List Char)
  | [] => [[]]
  | '_' :: '_' :: rest => [] :: splitKeys rest
  | character :: rest =>
      if character = '.' then [] :: splitKeys rest
      else
        match splitKeys rest with
        | [] => [[character]]
        | part :: parts => (character :: part) :: parts

/-- The path that a name spells; no part of it is empty. -/
def spelledPath? (name : String) : Option (List String) :=
  (Text.dropStart? (normalName start) (normalName name)).bind fun rest =>
    let parts := splitKeys rest
    if parts.any List.isEmpty then none else some (parts.map String.ofList)

/-- The values of the variables whose names have a path, later ones over
earlier ones. -/
def layer (path? : String → Option (List String)) (environment : Text.Map String) : Value :=
  environment.entries.foldl
    (fun value entry =>
      match path? entry.1 with
      | some path => (nested (valueOf entry.2) path).layOver value
      | none => value)
    (.table [])

end Variables
end Settings
end InventoryGauges
