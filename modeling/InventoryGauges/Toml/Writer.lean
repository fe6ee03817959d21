/-!
# Writing TOML texts

A text is written between the quotes that need the fewest escapes: on one line
or over several lines, plain or literal.
-/

namespace InventoryGauges
namespace Toml

/-- Length of the longest run of a character, given the length of the run that
has just been read. -/
def longestRun (wanted : Char) (current : Nat) : List Char → Nat
  | [] => current
  | character :: rest =>
      if character = wanted then longestRun wanted (current + 1) rest
      else max current (longestRun wanted 0 rest)

/-- A control character that can only be written as an escape. -/
def isEscapedControl (character : Char) : Bool :=
  (character.toNat < 0x20 && character != '\t' && character != '\n') ||
    character.toNat = 0x7f

/-- The last four hexadecimal digits of a number, in upper case. -/
def upperQuad (value : Nat) : List Char :=
  [value / 0x1000, value / 0x100, value / 0x10, value].map fun shifted =>
    (Nat.digitChar (shifted % 0x10)).toUpper

/-- A character as it is written inside plain quotes on one line. -/
def escape (character : Char) : List Char :=
  if character = '"' then ['\\', '"']
  else if character = '\\' then ['\\', '\\']
  else if character = '\x08' then ['\\', 'b']
  else if character = '\t' then ['\\', 't']
  else if character = '\n' then ['\\', 'n']
  else if character = '\x0c' then ['\\', 'f']
  else if character = '\r' then ['\\', 'r']
  else if isEscapedControl character then '\\' :: 'u' :: upperQuad character.toNat
  else [character]

/-- A text inside plain quotes over several lines: of the quotes in a row that
it holds, at most two stay as they are. -/
def escapeLong (quotes : Nat) : List Char → List Char
  | [] => []
  | '"' :: rest =>
      if quotes < 2 then '"' :: escapeLong (quotes + 1) rest
      else '\\' :: '"' :: escapeLong 0 rest
  | '\n' :: rest => '\n' :: escapeLong 0 rest
  | character :: rest => escape character ++ escapeLong 0 rest

/-- How a text is quoted. -/
inductive Quoting
  | plain
  | literal
  | plainLong
  | literalLong
  deriving DecidableEq, Repr

/-- The quoting of a text: the first kind that needs no escapes. -/
def quotingOf (text : List Char) : Quoting :=
  let hasLines := text.contains '\n'
  let hasBackslash := text.contains '\\'
  let doubles := longestRun '"' 0 text
  let singles := longestRun '\'' 0 text
  if text.any isEscapedControl then
    if hasLines then .plainLong else .plain
  else if !hasBackslash && doubles = 0 && !hasLines then .plain
  else if singles = 0 && !hasLines then .literal
  else if !hasBackslash && doubles ≤ 2 then .plainLong
  else if singles ≤ 2 then .literalLong
  else if hasLines then .plainLong
  else .plain

/-- The line break after long opening quotes; a text on one line has none. -/
def lineBreak (text : List Char) : List Char :=
  if text.contains '\n' then ['\n'] else []

/-- A text with its quotes. -/
def writeText (text : List Char) : List Char :=
  match quotingOf text with
  | .plain => '"' :: text.flatMap escape ++ ['"']
  | .literal => '\'' :: text ++ ['\'']
  | .plainLong =>
      ['"', '"', '"'] ++ lineBreak text ++ escapeLong 0 text ++ ['"', '"', '"']
  | .literalLong =>
      ['\'', '\'', '\''] ++ lineBreak text ++ text ++ ['\'', '\'', '\'']

end Toml
end InventoryGauges
