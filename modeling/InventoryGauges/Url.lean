import InventoryGauges.Url.Host

/-!
# Addresses of resources

Absolute addresses in their normal form, and the extension of their paths.
Some kinds of addresses are well known: they always have a host, a default
port, and a path whose parts may be divided by backslashes as well.
-/

namespace InventoryGauges

/-- An address. -/
structure Url where
  /-- The kind of address. -/
  scheme : String
  /-- User and password, encoded. -/
  credentials : List Char
  /-- The host in its normal form. -/
  host? : Option (List Char)
  /-- The port, unless it is the default one. -/
  port? : Option Nat
  /-- The parts of the path, encoded. -/
  path : List (List Char)
  /-- What follows the path: the query. -/
  query? : Option (List Char)
  /-- What follows the query: the fragment. -/
  fragment? : Option (List Char)
  deriving DecidableEq, Repr

namespace Url

/-- How the rest of an address is read. -/
inductive Kind
  | known
  | file
  | unknown
  deriving DecidableEq, Repr

/-- The kind of a scheme. -/
def Kind.of (scheme : String) : Kind :=
  if scheme = "file" then .file
  else if ["http", "https", "ws", "wss", "ftp"].contains scheme then .known
  else .unknown

/-- The port that need not be written. -/
def defaultPort? (scheme : String) : Option Nat :=
  match scheme with
  | "http" | "ws" => some 80
  | "https" | "wss" => some 443
  | "ftp" => some 21
  | _ => none

/-- A character between visible ASCII ones. -/
def isPlain (character : Char) : Bool :=
  0x21 ≤ character.toNat && character.toNat < 0x7f

/-- A character that is kept in a path. -/
def isKeptInPath (character : Char) : Bool :=
  isPlain character && !"\"#<>?`\x7b\x7d".toList.contains character

/-- A character that is kept in credentials. -/
def isKeptInCredentials (character : Char) : Bool :=
  isKeptInPath character && !"/:;=@[\\]^|".toList.contains character

/-- A character that is kept in one part of a path that stands for a text. -/
def isKeptInPart (kind : Kind) (character : Char) : Bool :=
  isKeptInPath character && character != '/' && character != '%' &&
    (kind == .unknown || character != '\\')

/-- A character that is kept in a query. -/
def isKeptInQuery (kind : Kind) (character : Char) : Bool :=
  isPlain character && !"\"#<>".toList.contains character &&
    (kind == .unknown || character != '\'')

/-- A character that is kept in a fragment. -/
def isKeptInFragment (character : Char) : Bool :=
  isPlain character && !"\"<>`".toList.contains character

/-- Encode a text for a place. -/
def encoded (keep : Char → Bool) (text : List Char) : List Char :=
  percentEncode keep (bytesOf text)

/-- Characters that are ignored wherever they stand. -/
def isIgnored (character : Char) : Bool :=
  character == '\t' || character == '\n' || character == '\r'

/-- Characters that are ignored at the ends. -/
def isMargin (character : Char) : Bool :=
  character.toNat ≤ 0x20

/-- A text without what is ignored. -/
def cleaned (text : List Char) : List Char :=
  (((text.dropWhile isMargin).reverse.dropWhile isMargin).reverse).filter (!isIgnored ·)

/-- A character of the name of a scheme. -/
def isSchemeCharacter (character : Char) : Bool :=
  character.isAlphanum || character == '+' || character == '-' || character == '.'

/-- The scheme at the start of an address and what follows its colon. -/
def splitScheme? (text : List Char) : Option (String × List Char) :=
  match text.takeWhile isSchemeCharacter, text.dropWhile isSchemeCharacter with
  | first :: name, ':' :: rest =>
      if first.isAlpha then some (String.ofList ((first :: name).map Char.toLower), rest)
      else none
  | _, _ => none

/-- A character that divides the parts of a path. -/
def isDivider (kind : Kind) (character : Char) : Bool :=
  character == '/' || kind != .unknown && character == '\\'

/-- A character that ends the part of an address with user, host and port. -/
def endsAuthority (kind : Kind) (character : Char) : Bool :=
  isDivider kind character || character == '?' || character == '#'

/-- A part of a path that stands for the part above. -/
def isDoubleDot (part : List Char) : Bool :=
  ["..", ".%2e", "%2e.", "%2e%2e"].contains (String.ofList (part.map Char.toLower))

/-- A part of a path that stands for nothing. -/
def isSingleDot (part : List Char) : Bool :=
  [".", "%2e"].contains (String.ofList (part.map Char.toLower))

/-- Go down a path part by part, from its start. -/
def resolve (start : List (List Char)) : List (List Char) → List (List Char)
  | [] => start
  | [part] =>
      if isDoubleDot part then start.dropLast ++ [[]]
      else if isSingleDot part then start ++ [[]]
      else start ++ [part]
  | part :: parts =>
      if isDoubleDot part then resolve start.dropLast parts
      else if isSingleDot part then resolve start parts
      else resolve (start ++ [part]) parts

/-- Read a path up to the query.  The divider at its start may be missing. -/
def readPath (kind : Kind) (text : List Char) : List (List Char) :=
  if text.isEmpty && kind == .unknown then []
  else
    let text := match text with
      | first :: rest => if isDivider kind first then rest else text
      | [] => []
    let parts := (Text.splitAtAll (isDivider kind) text).map (encoded isKeptInPath)
    let path := resolve [] parts
    if kind == .file then
      match path.dropWhile List.isEmpty with
      | [] => [[]]
      | path => path
    else path

/-- Divide what follows the host into path, query and fragment. -/
def splitTail (text : List Char) : List Char × Option (List Char) × Option (List Char) :=
  let path := text.takeWhile fun character => character != '?' && character != '#'
  match text.drop path.length with
  | '?' :: rest =>
      match Text.splitAtFirst? ['#'] rest with
      | some (query, fragment) => (path, some query, some fragment)
      | none => (path, some rest, none)
  | '#' :: fragment => (path, none, some fragment)
  | _ => (path, none, none)

/-- An address with its tail. -/
def withTail (kind : Kind) (scheme : String) (credentials : List Char)
    (host? : Option (List Char)) (port? : Option Nat) (tail : List Char) : Url :=
  let (path, query?, fragment?) := splitTail tail
  { scheme, credentials, host?, port?
    path := readPath kind path
    query? := query?.map (encoded (isKeptInQuery kind))
    fragment? := fragment?.map (encoded isKeptInFragment) }

/-- User and password in their normal form, with the sign that ends them. -/
def readCredentials (text : List Char) : List Char :=
  let (user, password) := (Text.splitAtFirst? [':'] text).getD (text, [])
  if user.isEmpty && password.isEmpty then []
  else
    encoded isKeptInCredentials user ++
      (if password.isEmpty then [] else ':' :: encoded isKeptInCredentials password) ++ ['@']

/-- Divide a host from the colon and the port after it. -/
def splitPort (inBrackets : Bool) : List Char → List Char × Option (List Char)
  | [] => ([], none)
  | character :: rest =>
      if character = ':' && !inBrackets then ([], some rest)
      else
        let inBrackets := character == '[' || inBrackets && character != ']'
        let (host, port?) := splitPort inBrackets rest
        (character :: host, port?)

/-- Read a port; the default one is left out. -/
def readPort (scheme : String) (text : List Char) : Except Error (Option Nat) :=
  if text.isEmpty then .ok none
  else
    match Decimal.natural? text with
    | some port =>
        if 65535 < port then .error .port
        else .ok (if defaultPort? scheme = some port then none else some port)
    | none => .error .port

/-- The normal form of a host. -/
def readHost (kind : Kind) (text : List Char) : Except Error (List Char) :=
  match kind with
  | .unknown => unknownHost text
  | _ => if text.isEmpty then .error .emptyHost else knownHost text

/-- Read what follows the two slashes of an address that is no file. -/
def readAuthority (kind : Kind) (scheme : String) (text : List Char) : Except Error Url := do
  let authority := text.takeWhile fun character => !endsAuthority kind character
  let tail := text.drop authority.length
  let (credentials?, place) := match Text.splitAtLast? '@' authority with
    | some (credentials, place) => (some credentials, place)
    | none => (none, authority)
  if credentials?.isSome && place.isEmpty && (credentials? == some [] && !tail.isEmpty) then
    throw .emptyHost
  let credentials := readCredentials (credentials?.getD [])
  let (hostText, portText?) := splitPort false place
  let host ← readHost kind hostText
  if host.isEmpty && (portText?.isSome || !credentials.isEmpty) then throw .emptyHost
  let port? ← match portText? with
    | some text => readPort scheme text
    | none => pure none
  return withTail kind scheme credentials (some host) port? tail

/-- Read what follows the scheme of a file's address. -/
def readFile (scheme : String) (text : List Char) : Except Error Url :=
  match text with
  | first :: second :: rest =>
      if isDivider .file first && isDivider .file second then do
        let hostText := rest.takeWhile fun character => !endsAuthority .file character
        let tail := rest.drop hostText.length
        if hostText.isEmpty then return withTail .file scheme [] none none tail
        let host ← knownHost hostText
        let host? := if host = "localhost".toList then none else some host
        return withTail .file scheme [] host? none tail
      else return withTail .file scheme [] none none text
  | _ => return withTail .file scheme [] none none text

/-- Read an address of a kind with its own rules; a path without a slash at its
start cannot be extended. -/
def readUnknown (scheme : String) (text : List Char) : Except Error Url :=
  match text with
  | '/' :: '/' :: rest => readAuthority .unknown scheme rest
  | '/' :: _ => return withTail .unknown scheme [] none none text
  | _ => throw .opaquePath

/-- Read an absolute address that can carry a path. -/
def ofText (text : String) : Except Error Url :=
  match splitScheme? (cleaned text.toList) with
  | none => .error .relative
  | some (scheme, rest) =>
      match Kind.of scheme with
      | .file => readFile scheme rest
      | .known => readAuthority .known scheme (rest.dropWhile (isDivider .known))
      | .unknown => readUnknown scheme rest

/-- The text of a path. -/
def pathText (path : List (List Char)) : List Char :=
  path.flatMap fun part => '/' :: part

/-- The text of a query with its question mark. -/
def queryText : Option (List Char) → List Char
  | some query => '?' :: query
  | none => []

/-- The text of an address. -/
def toText (url : Url) : List Char :=
  url.scheme.toList ++ ':' ::
    (match url.host? with
      | some host =>
          ['/', '/'] ++ url.credentials ++ host ++
            (match url.port? with
              | some port => ':' :: Decimal.digitsOf port
              | none => [])
      | none => if url.scheme = "file" then ['/', '/'] else []) ++
    pathText url.path ++ queryText url.query? ++
    (match url.fragment? with
      | some fragment => '#' :: fragment
      | none => [])

/-- The text of an address as a string. -/
def toString (url : Url) : String :=
  String.ofList url.toText

/-- A path with one more part.  The parts "." and ".." add nothing. -/
def addPart (kind : Kind) (path : List (List Char)) (part : String) : List (List Char) :=
  if part = "." || part = ".." then path
  else
    let start := if path = [[]] then [] else path
    resolve start [encoded (isKeptInPart kind) (part.toList.filter (!isIgnored ·))]

/-- The address with some more parts at the end of its path.  An empty part at
the end of the path gives way. -/
def extend (url : Url) (parts : List String) : Url :=
  let start := match url.path.getLast? with
    | some [] => if url.path = [[]] then [[]] else url.path.dropLast
    | _ => url.path
  { url with path := parts.foldl (addPart (Kind.of url.scheme)) start }

/-- The address with another query, encoded as queries of its kind are. -/
def withQuery (url : Url) (query : List Char) : Url :=
  { url with
    query? := some (encoded (isKeptInQuery (Kind.of url.scheme)) (query.filter (!isIgnored ·))) }

end Url
end InventoryGauges
