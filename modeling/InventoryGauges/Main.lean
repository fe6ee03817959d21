import InventoryGauges.CommandLine
import Std.Time.DateTime.Timestamp

/-!
# The program

Files, variables and the clock are those of the system.  Servers are out of
reach: the store never answers in time, and exchanges over HTTP fail.
-/

namespace InventoryGauges
namespace Machine

/-- A variable as the system keeps it: a name, an equals sign and a value. -/
def nameAndValue? (text : List Char) : Option (String × String) :=
  (Text.splitAtFirst? ['='] text).map fun (name, value) =>
    (String.ofList name, String.ofList value)

/-- The variables of this process. -/
def environment : IO (Text.Map String) := do
  let bytes ← try IO.FS.readBinFile "/proc/self/environ" catch _ => pure ByteArray.empty
  match String.fromUTF8? bytes with
  | none => return Text.Map.empty
  | some text =>
      return Text.Map.ofList
        ((Text.splitAtAll (· == '\x00') text.toList).filterMap nameAndValue?)

/-- An error of the system in words. -/
def words : IO.Error → String
  | .noFileOrDirectory _ code _ => s!"No such file or directory (os error {code})"
  | .permissionDenied _ code details => s!"{details} (os error {code})"
  | .inappropriateType _ code details => s!"{details} (os error {code})"
  | error => toString error

/-- Read a file of settings.  A directory is a file without settings. -/
def readSource (path : String) : IO Settings.Source := do
  try return .content (← IO.FS.readFile path)
  catch
    | .noFileOrDirectory _ _ _ => return .missing path
    | .inappropriateType _ _ _ => return .nowhere
    | error => return .unreadable (words error)

/-- Write a file. -/
def write (path text : String) : IO (Except String Unit) := do
  try
    IO.FS.writeFile path text
    return .ok ()
  catch error => return .error (words error)

/-- Answer what the servers of a deployment are asked. -/
def serve : (request : Deployment.Request) → IO request.Answer
  | .store _ request => return (Store.Remote.unreachable request ()).1
  | .exchange request => return (Http.unreachable request ()).1
  | .clock => do
      let now ← Std.Time.Timestamp.now
      return Timestamp.ofInt now.toMillisecondsSinceUnixEpoch.val

/-- Pause for a duration. -/
def pause (duration : Duration) : IO Unit :=
  IO.sleep (UInt32.ofNat duration.millis)

/-- Run cycles for ever, with a pause before each one. -/
partial def cycles (deployment : Deployment) (session? : Option Inventory.Session) :
    IO Unit := do
  pause deployment.schedule.debounce
  let (_, session?) ← (deployment.cycle.run session?).interpret serve
  cycles deployment session?

/-- Log in, again and again until it succeeds, and then run cycles. -/
partial def poll (deployment : Deployment) : IO Unit := do
  let (opened, session?) ← (deployment.session.run none).interpret serve
  if opened.isOk then cycles deployment session?
  else
    pause deployment.schedule.sessionRetry
    poll deployment

/-- Answer what a command asks. -/
def answer : (request : CommandLine.Request) → IO request.Answer
  | .read path => readSource path
  | .write path text => write path text
  | .serve request => serve request
  | .poll deployment => poll deployment

end Machine
end InventoryGauges

/-- Carry out what the arguments ask for. -/
def main (arguments : List String) : IO UInt32 := do
  let environment ← InventoryGauges.Machine.environment
  let outcome ← (InventoryGauges.CommandLine.program arguments environment).interpret
    InventoryGauges.Machine.answer
  IO.print outcome.output
  IO.eprint outcome.complaint
  return UInt32.ofNat outcome.status
