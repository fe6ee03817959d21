import InventoryGauges.CommandLine.Grammar

/-!
# The commands

What the user asks for: a command and the settings of the call.  Variables
stand in for switches that are not given.
-/

namespace InventoryGauges
namespace CommandLine

/-- A command. -/
inductive Command
  /-- Poll. -/
  | run
  /-- Check the settings; a verbose answer shows them. -/
  | validate (verbose : Bool)
  /-- Check a filter. -/
  | checkFilter (filter : String)
  /-- Write the standard settings, to a file or to the output. -/
  | generateConfig (output? : Option String)
  /-- Ask the store for an answer. -/
  | health
  /-- Withdraw all gauges and remove all bookkeeping. -/
  | purge
  /-- Tell the version. -/
  | version
  deriving DecidableEq, Repr

/-- What the user asks for. -/
structure Invocation where
  /-- The file of settings. -/
  config? : Option String
  /-- The level of what is logged. -/
  logLevel? : Option String
  /-- Whether everything is logged. -/
  debug : Bool
  /-- The command. -/
  command : Command
  deriving DecidableEq, Repr

/-- The switch for the file of settings. -/
def configSwitch : Switch :=
  { letter := 'c', name := "config", hasValue := true, mayBeEmpty := false }

/-- The switch for the level of what is logged. -/
def levelSwitch : Switch :=
  { letter := 'l', name := "log-level", hasValue := true, mayBeEmpty := true }

/-- The switch for logging everything. -/
def debugSwitch : Switch :=
  { letter := 'd', name := "debug", hasValue := false, mayBeEmpty := false }

/-- The switch for verbose answers. -/
def verboseSwitch : Switch :=
  { letter := 'v', name := "verbose", hasValue := false, mayBeEmpty := false }

/-- The switch for an output file. -/
def outputSwitch : Switch :=
  { letter := 'o', name := "output", hasValue := true, mayBeEmpty := false }

/-- The name of the command for help. -/
def helpName : String := "help"

/-- What stands before and after the name of a command. -/
def wholeGrammar : Grammar :=
  { switches := [configSwitch, levelSwitch, debugSwitch]
    commands :=
      ["run", "validate", "check-filter", "generate-config", "health", "purge", "version",
        helpName] }

/-- Read what a command takes. -/
def readAll (grammar : Grammar) (arguments : List String) : Except Stop Reading := do
  let (reading, _) ← grammar.read false {} arguments
  reading.settle

/-- Read a command by its name. -/
def readCommand (name : String) (arguments : List String) : Except Stop Command :=
  match name with
  | "validate" => do
      let reading ← readAll { switches := [verboseSwitch] } arguments
      return .validate (reading.values.get? verboseSwitch.name).isSome
  | "check-filter" => do
      let reading ← readAll { hasOperand := true } arguments
      match reading.operand? with
      | some filter => return .checkFilter filter
      | none => throw .misuse
  | "generate-config" => do
      let reading ← readAll { switches := [outputSwitch] } arguments
      return .generateConfig (reading.values.get? outputSwitch.name)
  | "run" => plain .run
  | "health" => plain .health
  | "purge" => plain .purge
  | "version" => plain .version
  | _ => .error .misuse
where
  /-- A command that takes nothing. -/
  plain (command : Command) : Except Stop Command := do
    let _ ← readAll {} arguments
    return command

/-- Read what help is asked for: everything, or one command. -/
def readHelp : List String → Except Stop Command
  | [] => .error .help
  | [name] => .error (if wholeGrammar.commands.contains name then .help else .misuse)
  | _ => .error .misuse

/-- The value of a switch, or of the variable that stands in for it. -/
def valueOrVariable (reading : Reading) (switch : Switch) (variableName : String)
    (environment : Text.Map String) : Except Stop (Option String) :=
  match reading.values.get? switch.name with
  | some value => .ok (some value)
  | none =>
      match environment.get? variableName with
      | none => .ok none
      | some value =>
          if value.isEmpty && !switch.mayBeEmpty then .error .misuse else .ok (some value)

/-- A truth value in words. -/
def truth : Option String → Except Stop Bool
  | none | some "false" => .ok false
  | some "true" => .ok true
  | some _ => .error .misuse

/-- Read the arguments of the program.  Without a command it polls. -/
def Invocation.read (arguments : List String) (environment : Text.Map String) :
    Except Stop Invocation := do
  let (reading, rest) ← wholeGrammar.read false {} arguments
  let command ← match rest with
    | [] => pure .run
    | name :: rest => if name = helpName then readHelp rest else readCommand name rest
  let reading ← reading.settle
  let config? ← valueOrVariable reading configSwitch "ACI_POLLER_CONFIG" environment
  let logLevel? ← valueOrVariable reading levelSwitch "ACI_POLLER_LOG_LEVEL" environment
  let debug ← truth (← valueOrVariable reading debugSwitch "ACI_POLLER_DEBUG" environment)
  return { config?, logLevel?, debug, command }

end CommandLine
end InventoryGauges
