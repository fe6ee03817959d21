import InventoryGauges.Settings
import InventoryGauges.Settings.Value
import InventoryGauges.Toml.Writer

/-!
# Settings as a document

Settings are written as a TOML document with one table for each section, and
stand as a value of the same form below what a source gives.
-/

namespace InventoryGauges
namespace Settings

/-- A setting as it is written. -/
inductive Written
  | text (content : String)
  | truth (value : Bool)
  | number (value : Nat)
  deriving DecidableEq, Repr

namespace Written

/-- A duration is written in words. -/
def duration (value : Duration) : Written :=
  text value.toText

/-- A setting after its key. -/
def write : Written → List Char
  | text content => Toml.writeText content.toList
  | truth true => "true".toList
  | truth false => "false".toList
  | number value => Decimal.digitsOf value

/-- A setting as a value. -/
def toValue : Written → Value
  | text content => .text content
  | truth value => .truth value
  | number value => .integer value

end Written

/-- The sections in order, with their keys and settings. -/
def sections (settings : Settings) : List (String × List (String × Written)) :=
  let pace := settings.schedule
  [("inventory",
    [("url", .text settings.inventoryUrl), ("username", .text settings.username),
      ("password", .text settings.password), ("verify_tls", .truth settings.verifyTls),
      ("login_timeout", .duration settings.loginTimeout),
      ("query_timeout", .duration settings.queryTimeout)]),
    ("store",
      [("redis_url", .text settings.storeUrl), ("op_timeout", .duration settings.storeTimeout)]),
    ("gateway",
      [("url", .text settings.gatewayUrl), ("job", .text settings.job),
        ("timeout", .duration settings.gatewayTimeout)]),
    ("scheduler",
      [("debounce", .duration pace.debounce), ("session_retry", .duration pace.sessionRetry),
        ("sample_timeout", .duration pace.sampleTimeout),
        ("failure_backoff", .duration pace.failureBackoff),
        ("push_concurrency", .number pace.pushConcurrency)]),
    ("http",
      [("enabled", .truth settings.httpEnabled), ("listen", .text settings.listen)]),
    ("logging",
      [("level", .text settings.logLevel), ("format", .text settings.logFormat),
        ("colors", .truth settings.logColors),
        ("source_location", .truth settings.logLocation)])]

/-- The settings as a table of sections. -/
def toValue (settings : Settings) : Value :=
  .table (settings.sections.map fun part =>
    (part.1, .table (part.2.map fun entry => (entry.1, entry.2.toValue))))

/-- A line with a key and a setting. -/
def writeEntry (entry : String × Written) : List Char :=
  entry.1.toList ++ [' ', '=', ' '] ++ entry.2.write ++ ['\n']

/-- A section with its header. -/
def writeSection (part : String × List (String × Written)) : List Char :=
  '[' :: part.1.toList ++ [']', '\n'] ++ part.2.flatMap writeEntry

/-- The settings as a document, with an empty line between sections.  There is
none if a number is too great for a document. -/
def toDocument? (settings : Settings) : Option String :=
  if settings.schedule.pushConcurrency < Nat.pow 2 63 then
    some (String.ofList (['\n'].intercalate (settings.sections.map writeSection)))
  else none

end Settings
end InventoryGauges
