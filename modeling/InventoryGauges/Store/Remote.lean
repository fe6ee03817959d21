import InventoryGauges.Decimal.Digits
import InventoryGauges.Store.Call
import InventoryGauges.Store.Glob
import InventoryGauges.Text.Set

/-!
# Calls to a store server

Each call is a command to the server, or a few of them.  Connecting and every
command have the same limit of time.
-/

namespace InventoryGauges
namespace Store
namespace Remote

/-- A reply of the server. -/
inductive Reply
  | nothing
  | text (value : String)
  | number (value : Int)
  | list (items : List Reply)
  | failure (message : String)
  deriving Repr, Inhabited

/-- What is asked of the connection. -/
inductive Request
  /-- Be connected. -/
  | connect
  /-- Send a command with its arguments. -/
  | command (arguments : List String)
  deriving DecidableEq, Repr

/-- What comes back; nothing if it takes too long. -/
abbrev Request.Answer : Request → Type
  | connect => Option (Except String Unit)
  | command _ => Option Reply

/-- Programs that use the connection and stop at the first failure. -/
abbrev Conversation (Result : Type) : Type :=
  ExceptT Error (Program Request Request.Answer) Result

/-- Ask something of the connection. -/
def ask (request : Request) : Conversation request.Answer :=
  ExceptT.lift (Program.request request)

/-- Send a command and read its reply. -/
def run {Result : Type} (limitMillis : Nat) (operation : String) (arguments : List String)
    (read : Reply → Option Result) : Conversation Result := do
  match ← ask .connect with
  | none => throw (.timeout "connect" limitMillis)
  | some (.error message) => throw (.backend message)
  | some (.ok ()) =>
      match ← ask (.command arguments) with
      | none => throw (.timeout operation limitMillis)
      | some (.failure message) => throw (.backend message)
      | some reply =>
          match read reply with
          | some result => return result
          | none => throw (.backend "response was of incompatible type")

namespace Reply

def text? : Reply → Option String
  | text value => some value
  | _ => none

/-- A text, or nothing. -/
def textOrNothing? : Reply → Option (Option String)
  | nothing => some none
  | text value => some (some value)
  | _ => none

/-- Texts, some of which may be missing. -/
def texts? : Reply → Option (List (Option String))
  | list items => items.mapM textOrNothing?
  | _ => none

/-- An unsigned number. -/
def unsigned? : Reply → Option Nat
  | number value => if 0 ≤ value then some value.toNat else none
  | text value => Decimal.natural? value.toList
  | _ => none

/-- A cursor and a batch of keys. -/
def batch? : Reply → Option (Nat × List String)
  | list [cursor, list keys] => do
      let cursor ← cursor.unsigned?
      let keys ← keys.mapM text?
      return (cursor, keys)
  | _ => none

end Reply

/-- Keys that a scan asks for at once. -/
def batchSize : Nat := 500

/-- The pattern of the keys with a start. -/
def scanPattern (start : String) : String :=
  String.ofList (Glob.startingWith start.toList)

/-- The command that scans from a cursor. -/
def scanCommand (pattern : String) (cursor : Nat) : List String :=
  ["SCAN", toString cursor, "MATCH", pattern, "COUNT", toString batchSize]

/-- Scan batch by batch until the cursor is zero again. -/
def scanFrom (limitMillis : Nat) (pattern : String) : Nat → Nat → List String →
    Conversation (List String)
  | 0, _, _ => throw (.backend "endless scan")
  | batches + 1, cursor, keys => do
      let (next, batch) ← run limitMillis "scan" (scanCommand pattern cursor) Reply.batch?
      if next = 0 then return keys ++ batch
      else scanFrom limitMillis pattern batches next (keys ++ batch)

/-- Number of cursors there are.  A scan with more batches has no end. -/
def cursorCount : Nat := Nat.pow 2 64

/-- Scan from the start with a number of batches allowed.  Each key is given once,
in order, however often the server names it. -/
def scan (limitMillis allowed : Nat) (start : String) : Conversation (List String) := do
  let keys ← scanFrom limitMillis (scanPattern start) allowed 0 []
  return (Text.Set.ofList keys).toList

/-- Make a call. -/
def call (limitMillis : Nat) : (call : Call) → Conversation call.Value
  | .get key => run limitMillis "get" ["GET", key] Reply.textOrNothing?
  | .getMany keys =>
      if keys.isEmpty then return []
      else run limitMillis "mget" ("MGET" :: keys) Reply.texts?
  | .set key value => run limitMillis "set" ["SET", key, value] fun _ => some ()
  | .delete keys =>
      if keys.isEmpty then return ()
      else run limitMillis "delete" ("DEL" :: keys) fun reply => reply.unsigned?.map fun _ => ()
  | .scan start => scan limitMillis cursorCount start
  | .ping => run limitMillis "ping" ["PING"] fun reply => reply.text?.map fun _ => ()

/-- A program of calls as a conversation. -/
def ofCalls {Result : Type} (limitMillis : Nat) :
    Program Call Call.Answer Result → Program Request Request.Answer Result
  | .done result => .done result
  | .ask asked next =>
      (call limitMillis asked).run.andThen fun answer => ofCalls limitMillis (next answer)

/-- The surroundings in which no server answers in time. -/
def unreachable : (request : Request) → Unit → request.Answer × Unit
  | .connect, _ => (none, ())
  | .command _, _ => (none, ())

end Remote
end Store
end InventoryGauges
