import InventoryGauges.Http
import InventoryGauges.Inventory.Error
import InventoryGauges.Inventory.Object
import InventoryGauges.Json.Reader

/-!
# Sessions with the inventory

A login gives a token, which class queries send as a cookie.  A query that is
refused because of its token logs in again and is repeated once.
-/

namespace InventoryGauges
namespace Inventory

/-- Where to log in, and as whom. -/
structure Account where
  /-- Address of the inventory. -/
  base : Url
  /-- Name of the user. -/
  username : String
  /-- The password. -/
  password : String
  deriving DecidableEq, Repr

/-- A session. -/
structure Session where
  /-- Where the session was opened. -/
  account : Account
  /-- The token of the latest login. -/
  token : String
  deriving DecidableEq, Repr

/-- Name of the cookie that holds the token. -/
def cookieName : String := "APIC-cookie"

/-- Read the configured address. -/
def base? (url : String) : Except Error Url :=
  (Url.ofText url).mapError fun error => .invalidUrl url error.message

namespace Account

/-- Where logins go. -/
def loginUrl (account : Account) : Url :=
  account.base.extend ["api", "aaaLogin.json"]

/-- The body of a login. -/
def loginBody (account : Account) : Json :=
  .object [("aaaUser", .object [("attributes",
    .object [("name", .string account.username), ("pwd", .string account.password)])])]

/-- The request of a login. -/
def loginRequest (account : Account) : Http.Request :=
  { method := "POST"
    url := account.loginUrl
    contentType? := some "application/json"
    body? := some account.loginBody.compact }

/-- The path to the token in the answer to a login. -/
def tokenPath : List String := ["imdata", "0", "aaaLogin", "attributes", "token"]

/-- The token in the answer to a login. -/
def tokenOf (body : String) : Except Error String :=
  match Json.ofString? body with
  | none => .error (.decode "login response: malformed JSON")
  | some document =>
      match (document.descend? tokenPath).bind Json.asString? with
      | some token =>
          if token = "" then .error (.decode "login response carries no token") else .ok token
      | none => .error (.decode "login response carries no token")

/-- Log in; the result is a token. -/
def login (account : Account) : Exchange (Except Error String) := do
  let failure (message : String) : Error := .login account.loginUrl.toString message
  match ← Http.send account.loginRequest with
  | .error message => return .error (failure message)
  | .ok response =>
      match response.body with
      | .error message => return .error (.transport message)
      | .ok body =>
          if response.isSuccess then return tokenOf body
          else return .error (failure s!"HTTP {response.status}: {body}")

/-- Open a session. -/
def connect (account : Account) : Exchange (Except Error Session) := do
  match ← account.login with
  | .error error => return .error error
  | .ok token => return .ok { account, token }

end Account

/-- A character that a query value shows as it is. -/
def isKeptInValue (character : Char) : Bool :=
  character.isAlphanum || ['-', '.', '_', '~', '/'].contains character

/-- A query value: letters, digits and a few signs as they are, all other bytes
as percent triples. -/
def encodeValue (value : String) : List Char :=
  Url.percentEncode isKeptInValue (Url.bytesOf value.toList)

/-- The parameter that asks for health scores. -/
def healthParameter : List Char := "rsp-subtree-include=health".toList

/-- The query of a class query. -/
def classQuery (filter : String) : List Char :=
  if filter = "" then healthParameter
  else "query-target-filter=".toList ++ encodeValue filter ++ '&' :: healthParameter

/-- The objects in the answer to a class query. -/
def objectsOf (className body : String) : Except Error (List Object) :=
  match Json.ofString? body with
  | none => .error (.decode "class query response: malformed JSON")
  | some document =>
      match (document.member? "imdata").bind Json.asArray? with
      | none => .error (.decode "class query response has no 'imdata' list")
      | some items => items.mapM fun item =>
          match (item.member? className).bind fun members => members.member? "attributes" with
          | some (.object attributes) => .ok ⟨attributes⟩
          | _ => .error (.decode s!"item without '{className}' attributes")

namespace Session

/-- Where class queries go. -/
def classUrl (session : Session) (className filter : String) : Url :=
  (session.account.base.extend ["api", "node", "class", className ++ ".json"]).withQuery
    (classQuery filter)

/-- The request of a class query. -/
def classRequest (session : Session) (className filter : String) : Http.Request :=
  { method := "GET"
    url := session.classUrl className filter
    cookie? := some s!"{cookieName}={session.token}" }

/-- How one attempt of a class query ended. -/
inductive Attempt
  | finished (result : Except Error (List Object))
  | unauthorized

/-- Try a class query. -/
def attempt (session : Session) (className filter : String) : Exchange Attempt := do
  match ← Http.send (session.classRequest className filter) with
  | .error message => return .finished (.error (.transport message))
  | .ok response =>
      if response.status = 401 || response.status = 403 then return .unauthorized
      else
        match response.body with
        | .error message => return .finished (.error (.transport message))
        | .ok body =>
            if response.status ≠ 200 then
              return .finished (.error (.query className response.status body))
            else return .finished (objectsOf className body)

/-- Query a class.  The session comes back with its latest token. -/
def query (session : Session) (className filter : String) :
    Exchange (Except Error (List Object) × Session) := do
  match ← session.attempt className filter with
  | .finished result => return (result, session)
  | .unauthorized =>
      match ← session.account.login with
      | .error error => return (.error error, session)
      | .ok token =>
          let renewed := { session with token }
          match ← renewed.attempt className filter with
          | .finished result => return (result, renewed)
          | .unauthorized =>
              return (.error (.query className 401 "session rejected after re-login"), renewed)

end Session
end Inventory
end InventoryGauges
