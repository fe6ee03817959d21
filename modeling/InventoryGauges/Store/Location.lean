import InventoryGauges.Url

/-!
# Locations of store servers

The address of a store server names a host or a local socket, a database and
perhaps a user.
-/

namespace InventoryGauges
namespace Store

/-- How to reach a store server. -/
inductive Route
  | network (host : List Char) (port : Nat)
  | localSocket (path : List (List Char))
  deriving DecidableEq, Repr

/-- Where a store is. -/
structure Location where
  /-- How to reach the server. -/
  route : Route
  /-- Number of the database. -/
  database : Int
  deriving DecidableEq, Repr

namespace Location

/-- The port without other settings. -/
def defaultPort : Nat := 6379

/-- Read the number of a database. -/
def database? (text : List Char) : Option Int :=
  (Decimal.signed? text).bind fun value =>
    if -Int.pow 2 63 ≤ value && value < Int.pow 2 63 then some value else none

/-- A path without the slashes at its ends. -/
def trimSlashes (text : List Char) : List Char :=
  ((text.dropWhile (· == '/')).reverse.dropWhile (· == '/')).reverse

/-- The location of a server on the network. -/
def network? (url : Url) : Option Location := do
  let host ← url.host?
  if host.isEmpty || url.scheme = "rediss" then none
  else
    let path := trimSlashes (Url.pathText url.path)
    let database ← if path.isEmpty then some 0 else database? path
    return { route := .network host (url.port?.getD defaultPort), database }

/-- The value of a parameter of a query; the last one of its name counts. -/
def parameter? (name : List Char) (query : List Char) : Option (List Char) :=
  let pairs := (Text.splitAtAll (· == '&') query).map fun part =>
    (Text.splitAtFirst? ['='] part).getD (part, [])
  (pairs.reverse.find? fun pair => pair.1 == name).map Prod.snd

/-- The location of a server behind a local socket. -/
def localSocket? (url : Url) : Option Location := do
  if (url.host?.getD []).isEmpty then
    let database ← match parameter? "db".toList (url.query?.getD []) with
      | some text => database? text
      | none => some 0
    return { route := .localSocket url.path, database }
  else none

/-- Read the address of a store server. -/
def ofText? (text : String) : Option Location := do
  let url ← (Url.ofText text).toOption
  match url.scheme with
  | "redis" | "rediss" => network? url
  | "redis+unix" | "unix" => localSocket? url
  | _ => none

end Location
end Store
end InventoryGauges
