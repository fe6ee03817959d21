import InventoryGauges.Toml.Number
import InventoryGauges.Toml.Tree

/-!
# Reading TOML

Documents of keys and values under headers.
-/

namespace InventoryGauges
namespace Toml

open Settings (Value)

/-- Drop blanks, comments and line ends.  Each line takes a character, so the
length of the text is fuel enough. -/
def skipLines : Nat → List Char → List Char
  | 0, text => text
  | fuel + 1, text =>
      match skipComment (skipBlanks text) with
      | '\n' :: rest => skipLines fuel rest
      | '\r' :: '\n' :: rest => skipLines fuel rest
      | rest => rest

/-- Read items with commas between them, and perhaps one after the last, up to
the closing bracket. -/
def readItems (item : Reader Value) : Nat → Reader (List Value)
  | 0, _ => none
  | fuel + 1, text =>
      match skipLines (text.length + 1) text with
      | ']' :: rest => some ([], rest)
      | text =>
          match item text with
          | none => none
          | some (first, rest) =>
              match skipLines (rest.length + 1) rest with
              | ',' :: rest =>
                  (readItems item fuel rest).map fun (others, rest) => (first :: others, rest)
              | ']' :: rest => some ([first], rest)
              | _ => none

/-- Read a key, an equals sign and a value. -/
def readEntry (value : Reader Value) : Reader ((List String × String) × Value)
  | text => do
      let (key, rest) ← readKey text
      let last ← key.getLast?
      match rest with
      | '=' :: rest => do
          let (content, rest) ← value (skipBlanks rest)
          return (((key.dropLast, last), content), rest)
      | _ => none

/-- Read one or more entries with commas between them, up to the closing
brace. -/
def readEntries (value : Reader Value) :
    Nat → Reader (List ((List String × String) × Value))
  | 0, _ => none
  | fuel + 1, text =>
      match readEntry value text with
      | none => none
      | some (first, rest) =>
          match skipBlanks rest with
          | ',' :: rest =>
              (readEntries value fuel rest).map fun (others, rest) => (first :: others, rest)
          | '}' :: rest => some ([first], rest)
          | _ => none

/-- Read a table on one line. -/
def readTable (value : Reader Value) : Reader Value
  | text =>
      match skipBlanks text with
      | '}' :: rest => some (.table [], rest)
      | text => do
          let (values, rest) ← readEntries value (text.length + 1) text
          let entries ← addValues values []
          return (.table (entriesValue entries), rest)

/-- Read a value that holds no others. -/
def readScalar : Reader Value
  | 't' :: 'r' :: 'u' :: 'e' :: rest => some (.truth true, rest)
  | 'f' :: 'a' :: 'l' :: 's' :: 'e' :: rest => some (.truth false, rest)
  | '"' :: rest =>
      (readText ('"' :: rest)).map fun (content, rest) => (.text (String.ofList content), rest)
  | '\'' :: rest =>
      (readText ('\'' :: rest)).map fun (content, rest) => (.text (String.ofList content), rest)
  | text => readNumber text

/-- Greatest number of values inside each other. -/
def depthLimit : Nat := 79

/-- Read a value with at most `depth` lists and tables inside each other. -/
def readValue : Nat → Reader Value
  | 0, text =>
      match text with
      | '[' :: _ => none
      | '{' :: _ => none
      | _ => readScalar text
  | depth + 1, text =>
      match text with
      | '[' :: rest =>
          (readItems (readValue depth) (rest.length + 1) rest).map fun (items, rest) =>
            (.list items, rest)
      | '{' :: rest => readTable (readValue depth) rest
      | _ => readScalar text

/-- A line of a document. -/
inductive Line
  | empty
  | header (isShared : Bool) (path : List String)
  | entry (path : List String) (key : String) (value : Value)

/-- Read a header up to its closing bracket. -/
def readHeader : Reader Line
  | '[' :: rest =>
      match readKey rest with
      | some (path, ']' :: ']' :: rest) => some (.header true path, rest)
      | _ => none
  | text =>
      match readKey text with
      | some (path, ']' :: rest) => some (.header false path, rest)
      | _ => none

/-- Read a line without its end. -/
def readContent : Reader Line
  | text =>
      match skipBlanks text with
      | [] => some (.empty, [])
      | '#' :: rest => some (.empty, '#' :: rest)
      | '\n' :: rest => some (.empty, '\n' :: rest)
      | '\r' :: rest => some (.empty, '\r' :: rest)
      | '[' :: rest => readHeader rest
      | text =>
          (readEntry (readValue depthLimit) text).map fun (((path, key), value), rest) =>
            (.entry path key value, rest)

/-- Read all lines.  Each line but the last takes a character, so the length of
the text is fuel enough. -/
def readLines : Nat → List Char → Option (List Line)
  | 0, _ => none
  | fuel + 1, text => do
      let (line, rest) ← readContent text
      let rest ← dropRestOfLine? rest
      if rest.isEmpty then return [line]
      else
        let lines ← readLines fuel rest
        return line :: lines

/-- The values up to the next header. -/
def leadingValues : List Line → List ((List String × String) × Value)
  | .empty :: lines => leadingValues lines
  | .entry path key value :: lines => ((path, key), value) :: leadingValues lines
  | _ => []

/-- The sections from the first header on. -/
def sections : List Line → List Section
  | [] => []
  | .header isShared path :: lines =>
      { path := path.dropLast, key := path.getLast?.getD "", isShared
        values := leadingValues lines } :: sections lines
  | _ :: lines => sections lines

/-- Put the lines of a document together. -/
def assemble (lines : List Line) : Option Entries := do
  let start ← addValues (leadingValues lines) []
  (sections lines).foldlM addSection start

/-- A text without a byte order mark. -/
def withoutMark : List Char → List Char
  | '\ufeff' :: rest => rest
  | text => text

/-- Read a document. -/
def ofString? (source : String) : Option Value := do
  let text := withoutMark source.toList
  let lines ← readLines (text.length + 1) text
  let entries ← assemble lines
  return .table (entriesValue entries)

end Toml
end InventoryGauges
