import InventoryGauges.Text.Map
import InventoryGauges.Text.Split

/-!
# Reading arguments

A command takes switches and perhaps one operand.  A switch has a name and a
letter; several letters may share an argument, and a value follows in the same
argument or in the next one.  What is read first decides which error is told.
-/

namespace InventoryGauges
namespace CommandLine

/-- Why arguments are not carried out. -/
inductive Stop
  /-- The user asks for help. -/
  | help
  /-- The user asks for the version. -/
  | version
  /-- The arguments make no sense. -/
  | misuse
  deriving DecidableEq, Repr

/-- A switch. -/
structure Switch where
  /-- Its letter after a single dash. -/
  letter : Char
  /-- Its name after two dashes. -/
  name : String
  /-- Whether a value follows. -/
  hasValue : Bool
  /-- Whether the value may be empty. -/
  mayBeEmpty : Bool
  deriving DecidableEq, Repr

/-- What a command takes. -/
structure Grammar where
  /-- The switches. -/
  switches : List Switch := []
  /-- Whether there is an operand. -/
  hasOperand : Bool := false
  /-- Names of the commands below this one. -/
  commands : List String := []
  deriving DecidableEq, Repr

/-- What has been read. -/
structure Reading where
  /-- The switches by name, with their values. -/
  values : Text.Map String := Text.Map.empty
  /-- The operand. -/
  operand? : Option String := none
  /-- A switch that is not settled: its value may be in the next argument. -/
  pending? : Option (Switch × Option String) := none

namespace Reading

/-- Whether the next argument may be a value. -/
def awaitsValue (reading : Reading) : Bool :=
  match reading.pending? with
  | some (_, none) => true
  | _ => false

/-- Set a switch, which is possible once. -/
def set (reading : Reading) (switch : Switch) (value : String) : Except Stop Reading :=
  if (reading.values.get? switch.name).isSome then .error .misuse
  else if value.isEmpty && !switch.mayBeEmpty then .error .misuse
  else .ok { reading with values := reading.values.insert switch.name value }

/-- Settle the switch that is not settled. -/
def settle (reading : Reading) : Except Stop Reading :=
  match reading.pending? with
  | none => .ok reading
  | some (_, none) => .error .misuse
  | some (switch, some value) => { reading with pending? := none }.set switch value

/-- Take the value of the switch that waits for one. -/
def give (reading : Reading) (value : String) : Reading :=
  match reading.pending? with
  | some (switch, none) => { reading with pending? := some (switch, some value) }
  | _ => reading

/-- The value that stands for a switch without values. -/
def raised : String := "true"

/-- Read a switch whose value, if it is known, is in the same argument. -/
def take (reading : Reading) (switch : Switch) (value? : Option (List Char)) :
    Except Stop Reading := do
  let reading ← reading.settle
  match switch.hasValue, value? with
  | true, some value => reading.set switch (String.ofList value)
  | true, none => return { reading with pending? := some (switch, none) }
  | false, none => reading.set switch raised
  | false, some _ => throw .misuse

/-- Stop for a switch that every command has. -/
def stop (reading : Reading) (reason : Stop) : Except Stop Reading := do
  let _ ← reading.settle
  throw reason

end Reading

namespace Grammar

/-- Stop for a switch that is none of the command's own.  Only the command that
has others below it tells the version. -/
def stopFor (grammar : Grammar) (reading : Reading) (isHelp isVersion : Bool) :
    Except Stop Reading :=
  if isHelp then reading.stop .help
  else if isVersion && !grammar.commands.isEmpty then reading.stop .version
  else .error .misuse

/-- Read a switch by its name, perhaps with an equals sign and a value. -/
def readName (grammar : Grammar) (reading : Reading) (text : List Char) :
    Except Stop Reading :=
  let (name, value?) := match Text.splitAtFirst? ['='] text with
    | some (name, value) => (name, some value)
    | none => (text, none)
  match grammar.switches.find? fun switch => switch.name.toList == name with
  | some switch => reading.take switch value?
  | none =>
      if value?.isSome then .error .misuse
      else grammar.stopFor reading (name == "help".toList) (name == "version".toList)

/-- Read switches by their letters.  What follows the letter of a switch with a
value is the value, after an equals sign that may be there. -/
def readLetters (grammar : Grammar) (reading : Reading) : List Char → Except Stop Reading
  | [] => .ok reading
  | letter :: rest =>
      match grammar.switches.find? fun switch => switch.letter == letter with
      | none => grammar.stopFor reading (letter == 'h') (letter == 'V')
      | some switch =>
          if switch.hasValue then
            match rest with
            | [] => reading.take switch none
            | '=' :: value => reading.take switch (some value)
            | value => reading.take switch (some value)
          else do
            let reading ← reading.take switch none
            grammar.readLetters reading rest

/-- Read the operand. -/
def readOperand (grammar : Grammar) (reading : Reading) (operand : String) :
    Except Stop Reading := do
  let reading ← reading.settle
  if grammar.hasOperand && reading.operand?.isNone then
    return { reading with operand? := some operand }
  else throw .misuse

/-- Read arguments up to the name of a command below, which is left with what
follows it.  After two dashes there are only operands. -/
def read (grammar : Grammar) (onlyOperands : Bool) (reading : Reading) :
    List String → Except Stop (Reading × List String)
  | [] => .ok (reading, [])
  | argument :: rest =>
      if onlyOperands then do
        let reading ← grammar.readOperand reading argument
        grammar.read true reading rest
      else if !reading.awaitsValue && grammar.commands.contains argument then
        .ok (reading, argument :: rest)
      else
        match argument.toList with
        | ['-', '-'] => grammar.read true reading rest
        | '-' :: '-' :: name => do
            let reading ← grammar.readName reading name
            grammar.read false reading rest
        | '-' :: letter :: letters => do
            let reading ← grammar.readLetters reading (letter :: letters)
            grammar.read false reading rest
        | _ =>
            if reading.awaitsValue then grammar.read false (reading.give argument) rest
            else do
              let reading ← grammar.readOperand reading argument
              grammar.read false reading rest

end Grammar
end CommandLine
end InventoryGauges
