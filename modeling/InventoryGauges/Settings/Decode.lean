import InventoryGauges.Settings
import InventoryGauges.Settings.Value

/-!
# Settings from values

A table of sections is decoded key by key.  A section that is not given has its
standard settings, and a section that is given has a setting of its own for each
key that it leaves out.  Keys that mean nothing are ignored, and a value of the
wrong type refuses everything.  A section may also be a list of values in the
order of its keys.
-/

namespace InventoryGauges
namespace Settings

/-- The settings for keys that a section leaves out, key by key. -/
def omitted : Settings :=
  { inventoryUrl := ""
    username := ""
    password := ""
    verifyTls := false
    loginTimeout := Duration.ofSeconds 2
    queryTimeout := Duration.ofSeconds 5
    storeUrl := ""
    storeTimeout := Duration.ofSeconds 2
    gatewayUrl := ""
    job := "aci_monitoring"
    gatewayTimeout := Duration.ofSeconds 5
    schedule :=
      { debounce := Duration.ofMillis 500
        sessionRetry := Duration.ofMillis 1000
        sampleTimeout := Duration.ofSeconds 60
        failureBackoff := Duration.ofSeconds 5
        pushConcurrency := 8 }
    httpEnabled := true
    listen := "0.0.0.0:8080"
    logLevel := "info"
    logFormat := "compact"
    logColors := true
    logLocation := false }

/-- A key counts the same whether its section leaves it out or is not given at all. -/
theorem omitted_eq_standard : omitted = standard := rfl

namespace Value

/-- A text. -/
def text? : Value → Option String
  | text content => some content
  | _ => none

/-- A truth value. -/
def truth? : Value → Option Bool
  | truth value => some value
  | _ => none

/-- A natural number within 64 bits. -/
def natural? : Value → Option Nat
  | integer value => if 0 ≤ value && value < Int.pow 2 64 then some value.toNat else none
  | _ => none

/-- A duration in words. -/
def duration? (value : Value) : Option Duration :=
  value.text?.bind fun content => Duration.ofText? content.toList

/-- What a section gives for a key with an index. -/
def member? (index : Nat) (key : String) : Value → Option Value
  | table entries => find? key entries
  | list items => items[index]?
  | _ => none

/-- Whether a value may be a section. -/
def isSection : Value → Bool
  | table _ => true
  | list _ => true
  | _ => false

/-- The setting for a key of a section, if there is one. -/
def setting {Setting : Type} (section? : Option Value) (index : Nat) (key : String)
    (decode : Value → Option Setting) (get : Settings → Setting) : Option Setting :=
  match section? with
  | none => some (get standard)
  | some values =>
      match values.member? index key with
      | none => some (get omitted)
      | some value => decode value

/-- The section of a name, if it is given; nothing if it is something else. -/
def namedSection? (value : Value) (index : Nat) (name : String) : Option (Option Value) :=
  match value.member? index name with
  | none => some none
  | some found => if found.isSection then some found else none

end Value

/-- Decode settings. -/
def ofValue? (value : Value) : Option Settings := do
  let inventory? ← value.namedSection? 0 "inventory"
  let inventoryUrl ← Value.setting inventory? 0 "url" Value.text? inventoryUrl
  let username ← Value.setting inventory? 1 "username" Value.text? username
  let password ← Value.setting inventory? 2 "password" Value.text? password
  let verifyTls ← Value.setting inventory? 3 "verify_tls" Value.truth? verifyTls
  let loginTimeout ← Value.setting inventory? 4 "login_timeout" Value.duration? loginTimeout
  let queryTimeout ← Value.setting inventory? 5 "query_timeout" Value.duration? queryTimeout
  let store? ← value.namedSection? 1 "store"
  let storeUrl ← Value.setting store? 0 "redis_url" Value.text? storeUrl
  let storeTimeout ← Value.setting store? 1 "op_timeout" Value.duration? storeTimeout
  let gateway? ← value.namedSection? 2 "gateway"
  let gatewayUrl ← Value.setting gateway? 0 "url" Value.text? gatewayUrl
  let job ← Value.setting gateway? 1 "job" Value.text? job
  let gatewayTimeout ← Value.setting gateway? 2 "timeout" Value.duration? gatewayTimeout
  let scheduler? ← value.namedSection? 3 "scheduler"
  let debounce ←
    Value.setting scheduler? 0 "debounce" Value.duration? fun settings =>
      settings.schedule.debounce
  let sessionRetry ←
    Value.setting scheduler? 1 "session_retry" Value.duration? fun settings =>
      settings.schedule.sessionRetry
  let sampleTimeout ←
    Value.setting scheduler? 2 "sample_timeout" Value.duration? fun settings =>
      settings.schedule.sampleTimeout
  let failureBackoff ←
    Value.setting scheduler? 3 "failure_backoff" Value.duration? fun settings =>
      settings.schedule.failureBackoff
  let pushConcurrency ←
    Value.setting scheduler? 4 "push_concurrency" Value.natural? fun settings =>
      settings.schedule.pushConcurrency
  let http? ← value.namedSection? 4 "http"
  let httpEnabled ← Value.setting http? 0 "enabled" Value.truth? httpEnabled
  let listen ← Value.setting http? 1 "listen" Value.text? listen
  let logging? ← value.namedSection? 5 "logging"
  let logLevel ← Value.setting logging? 0 "level" Value.text? logLevel
  let logFormat ← Value.setting logging? 1 "format" Value.text? logFormat
  let logColors ← Value.setting logging? 2 "colors" Value.truth? logColors
  let logLocation ← Value.setting logging? 3 "source_location" Value.truth? logLocation
  return { inventoryUrl, username, password, verifyTls, loginTimeout, queryTimeout, storeUrl,
           storeTimeout, gatewayUrl, job, gatewayTimeout,
           schedule :=
             { debounce, sessionRetry, sampleTimeout, failureBackoff, pushConcurrency },
           httpEnabled, listen, logLevel, logFormat, logColors, logLocation }

end Settings
end InventoryGauges
