import InventoryGauges.CommandLine.Arguments
import InventoryGauges.Deployment
import InventoryGauges.Settings.Document
import InventoryGauges.Settings.Load

/-!
# The command line

Each command is a program that asks its surroundings for files and for
exchanges with servers.  It ends with an outcome: what it prints, and its
status.
-/

namespace InventoryGauges
namespace CommandLine

/-- What a command asks. -/
inductive Request
  /-- Read a file of settings. -/
  | read (path : String)
  /-- Write a file. -/
  | write (path : String) (text : String)
  /-- Something that the servers of a deployment are asked. -/
  | serve (request : Deployment.Request)
  /-- Poll until told to stop. -/
  | poll (deployment : Deployment)

/-- What each request is answered with; a failure to write in words. -/
abbrev Request.Answer : Request → Type
  | read _ => Settings.Source
  | write _ _ => Except String Unit
  | serve request => request.Answer
  | poll _ => Unit

/-- How a command ends. -/
structure Outcome where
  /-- The status of the process. -/
  status : Nat
  /-- What is printed. -/
  output : String
  /-- What is printed about a failure. -/
  complaint : String
  deriving DecidableEq, Repr

/-- Commands that end with a result. -/
abbrev Interaction (Result : Type) : Type :=
  Program Request Request.Answer Result

/-! ## Texts -/

/-- Name of the program. -/
def fullName : String := "ACI Metric Poller"

/-- Version of the program. -/
def version : String := "0.1.0"

/-- Some lines as a text. -/
def lines (lines : List String) : String :=
  String.join (lines.map fun line => line ++ "\n")

/-- What the command for the version prints. -/
def versionText : String :=
  lines [s!"{fullName} v{version}", "", "Build Information:", "  • Target: x86_64",
    "  • OS: linux", "", "Features:", "  • Interval-driven sampling of APIC managed objects",
    "  • Pushgateway publishing with stale gauge cleanup",
    "  • Health and metric configuration API"]

/-- What the switch for the version prints. -/
def shortVersionText : String :=
  lines [s!"aci-poller {version}"]

/-- How the program is called. -/
def usageText : String :=
  lines ["Usage: aci-poller [OPTIONS] [COMMAND]"]

/-- What the program can do. -/
def helpText : String :=
  lines ["Polls ACI managed objects and publishes their attributes to a Pushgateway", ""] ++
    usageText ++
    lines ["", "Commands:",
      "  run              Start the poller (default)",
      "  validate         Validate configuration",
      "  check-filter     Check a query filter against the grammar",
      "  generate-config  Generate default configuration file",
      "  health           Ping the metric store",
      "  purge            Delete every pushed gauge of the job and all bookkeeping",
      "  version          Show version and build info",
      "  help             Print this message",
      "", "Options:",
      "  -c, --config <CONFIG>        Configuration file path",
      "  -l, --log-level <LOG_LEVEL>  Log level override",
      "  -d, --debug                  Enable debug mode",
      "  -h, --help                   Print help",
      "  -V, --version                Print version"]

/-- Put blanks before all lines of a text but the first one. -/
def indent (blanks : String) (text : String) : String :=
  ("\n" ++ blanks).intercalate (text.splitOn "\n")

/-- A cause of a failure with its number; a single cause has none. -/
def causeText (number? : Option Nat) (cause : String) : String :=
  match number? with
  | none => "\n    " ++ indent "    " cause
  | some number => s!"\n    {number}: " ++ indent "       " cause

/-- A failure and its causes in words. -/
def complain (message : String) (causes : List String) : String :=
  let texts := match causes with
    | [cause] => [causeText none cause]
    | causes => causes.mapIdx fun number cause => causeText (some number) cause
  let reasons := if texts.isEmpty then "" else "\n\nCaused by:" ++ String.join texts
  s!"Error: {message}{reasons}\n"

namespace Outcome

/-- A success. -/
def success (output : String) : Outcome :=
  { status := 0, output, complaint := "" }

/-- A failure, after something has been printed. -/
def failure (output : String) (failure : Failure) : Outcome :=
  { status := 1, output, complaint := complain failure.message failure.causes }

/-- What follows from arguments that are not carried out. -/
def ofStop : Stop → Outcome
  | .help => success helpText
  | .version => success shortVersionText
  | .misuse => { status := 2, output := "", complaint := usageText }

end Outcome

/-! ## Settings -/

/-- The file of settings where none is named. -/
def defaultPath : String := "aci-poller.toml"

/-- The file of settings: its name, and where its text comes from.  The file
that is not named counts if it is there. -/
def findSettings (config? : Option String) : Interaction (Option String × Settings.Source) := do
  match config? with
  | some path => return (some path, ← Program.request (Request.read path))
  | none =>
      match ← Program.request (Request.read defaultPath) with
      | .missing _ => return (none, .nowhere)
      | source => return (some defaultPath, source)

/-- Some facts about settings. -/
def summary (settings : Settings) : List String :=
  ["", "📊 Configuration Summary:", s!"  • APIC: {settings.inventoryUrl}",
    s!"  • Pushgateway: {settings.gatewayUrl} (job {settings.job})",
    s!"  • Debounce: {settings.schedule.debounce.toText}",
    s!"  • Failure backoff: {settings.schedule.failureBackoff.toText}",
    s!"  • Push concurrency: {settings.schedule.pushConcurrency}"] ++
    if settings.httpEnabled then [s!"  • HTTP API: {settings.listen}"] else []

/-- All settings. -/
def overview (settings : Settings) : List String :=
  ["", "📋 Parsed configuration:", String.ofList (List.replicate 60 '='),
    match settings.toDocument? with
    | some document => document
    | none => "Failed to serialize: out-of-range value for u64 type"]

/-- Check the settings. -/
def validate (path? : Option String) (source : Settings.Source) (environment : Text.Map String)
    (verbose : Bool) : Outcome :=
  let opening := match path? with
    | some path => s!"Validating configuration file: {path}"
    | none => "Validating configuration from defaults and environment"
  match Settings.load source environment with
  | .ok settings =>
      .success <| lines <| [opening, "✅ Configuration is valid!"] ++
        (if verbose then overview settings else []) ++ summary settings
  | .error error =>
      .failure (lines [opening, "❌ Configuration validation failed!",
        s!"Error: {error.message}"]) (.settings error)

/-- Write the standard settings, to a file or to the output. -/
def generateConfig (output? : Option String) : Interaction Outcome := do
  let document := Settings.standard.toDocument?.getD ""
  match output? with
  | none => return .success (lines [document])
  | some path =>
      match ← Program.request (Request.write path document) with
      | .ok () => return .success (lines [s!"✅ Default configuration written to: {path}"])
      | .error message => return .failure "" (.system message)

/-! ## Filters -/

/-- Number of characters within the first bytes of a text. -/
def charactersWithin (bytes : Nat) : List Char → Nat
  | [] => 0
  | character :: rest =>
      if character.utf8Size ≤ bytes then charactersWithin (bytes - character.utf8Size) rest + 1
      else 0

/-- Check a filter; a mark shows where reading stopped. -/
def checkFilter (filter : String) : Outcome :=
  match Filter.check filter with
  | .ok () => .success (lines ["✅ Filter is valid"])
  | .error error =>
      let blanks := List.replicate (charactersWithin error.offset filter.toList) ' '
      .failure (lines ["❌ Filter is invalid", "  " ++ filter,
        "  " ++ String.ofList blanks ++ "^"]) (.filter error)

/-! ## Servers -/

/-- Programs of a deployment as a part of a command. -/
def served {Result : Type} (program : Served Result) : Interaction Result :=
  program.interpret fun request => Program.request (Request.serve request)

/-- Ask the store for an answer. -/
def health (settings : Settings) : Interaction Outcome := do
  match Deployment.locationOf settings with
  | .error failure => return .failure "" failure
  | .ok location =>
      let ping := Deployment.access location settings.storeTimeout.millis (Store.call .ping)
      match ← served ping with
      | .ok () => return .success (lines ["✅ Metric store is reachable"])
      | .error error =>
          return .failure (lines [s!"❌ Metric store is unreachable: {error.message}"])
            (.store error)

/-- Withdraw all gauges and remove all bookkeeping. -/
def purge (settings : Settings) : Interaction Outcome := do
  match Deployment.ofSettings settings with
  | .error failure => return .failure "" failure
  | .ok deployment =>
      match ← served deployment.purge with
      | .error failure => return .failure "" failure
      | .ok purged =>
          let told := s!"✅ Deleted all gauges of job '{settings.job}' and bookkeeping of " ++
            s!"{purged} metrics"
          return .success (lines [told])

/-- Poll until told to stop. -/
def run (settings : Settings) : Interaction Outcome := do
  match Deployment.ofSettings settings with
  | .error failure => return .failure "" failure
  | .ok deployment =>
      let () ← Program.request (Request.poll deployment)
      return .success ""

/-- Load the settings and go on with them. -/
def withSettings (path? : Option String) (source : Settings.Source)
    (environment : Text.Map String) (next : Settings → Interaction Outcome) :
    Interaction Outcome :=
  match Settings.load source environment with
  | .ok settings => next settings
  | .error error =>
      let origin := path?.getD "environment"
      return { status := 1
               output := ""
               complaint :=
                 complain s!"Failed to load config from {origin}" [error.message] }

/-! ## Commands -/

/-- Carry a command out. -/
def execute (invocation : Invocation) (environment : Text.Map String) : Interaction Outcome := do
  let (path?, source) ← findSettings invocation.config?
  match invocation.command with
  | .version => return .success versionText
  | .generateConfig output? => generateConfig output?
  | .validate verbose => return validate path? source environment verbose
  | .checkFilter filter => return checkFilter filter
  | .health => withSettings path? source environment health
  | .purge => withSettings path? source environment purge
  | .run => withSettings path? source environment run

/-- The whole program: read the arguments and carry them out. -/
def program (arguments : List String) (environment : Text.Map String) : Interaction Outcome :=
  match Invocation.read arguments environment with
  | .ok invocation => execute invocation environment
  | .error stop => return .ofStop stop

end CommandLine
end InventoryGauges
