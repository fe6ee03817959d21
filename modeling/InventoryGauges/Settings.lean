import InventoryGauges.Duration.Text
import InventoryGauges.Network.Endpoint
import InventoryGauges.Schedule
import InventoryGauges.Settings.Error

/-!
# Settings

Everything that can be set, section by section, with the values that count
where nothing is set, and the rules that settings keep.
-/

namespace InventoryGauges

/-- All settings. -/
structure Settings where
  /-- Address of the inventory. -/
  inventoryUrl : String
  /-- Name of the user who logs in to the inventory. -/
  username : String
  /-- The user's password. -/
  password : String
  /-- Whether the inventory has to prove its identity. -/
  verifyTls : Bool
  /-- Longest time for a login. -/
  loginTimeout : Duration
  /-- Longest time for a class query. -/
  queryTimeout : Duration
  /-- Address of the store. -/
  storeUrl : String
  /-- Longest time for a call to the store. -/
  storeTimeout : Duration
  /-- Address of the gateway. -/
  gatewayUrl : String
  /-- Name of the job under which gauges are published. -/
  job : String
  /-- Longest time for a call to the gateway. -/
  gatewayTimeout : Duration
  /-- The pacing of the poller. -/
  schedule : Schedule
  /-- Whether the configuration interface is served. -/
  httpEnabled : Bool
  /-- Where the configuration interface listens. -/
  listen : String
  /-- Least level of what is logged. -/
  logLevel : String
  /-- Form of the log. -/
  logFormat : String
  /-- Whether the log has colours. -/
  logColors : Bool
  /-- Whether the log tells places in the program. -/
  logLocation : Bool
  deriving DecidableEq, Repr

namespace Settings

/-- The settings where nothing is set. -/
def standard : Settings :=
  { inventoryUrl := ""
    username := ""
    password := ""
    verifyTls := false
    loginTimeout := Duration.ofSeconds 2
    queryTimeout := Duration.ofSeconds 5
    storeUrl := ""
    storeTimeout := Duration.ofSeconds 2
    gatewayUrl := ""
    job := "aci_monitoring"
    gatewayTimeout := Duration.ofSeconds 5
    schedule := Schedule.standard
    httpEnabled := true
    listen := "0.0.0.0:8080"
    logLevel := "info"
    logFormat := "compact"
    logColors := true
    logLocation := false }

instance : Inhabited Settings := ⟨standard⟩

/-- A text of blanks. -/
def isBlankText (text : String) : Bool :=
  (Text.trim text.toList).isEmpty

/-- The settings that have to be given: their values, their names, and the
variables that may hold them. -/
def required (settings : Settings) : List (String × String × String) :=
  [(settings.storeUrl, "store.redis_url", "DB_REDIS_URL"),
    (settings.inventoryUrl, "inventory.url", "ACI_URL"),
    (settings.username, "inventory.username", "ACI_USERNAME"),
    (settings.password, "inventory.password", "ACI_PASSWORD"),
    (settings.gatewayUrl, "gateway.url", "PROMETHEUS_PUSHGATEWAY_URL")]

/-- The durations that have to be positive, and their names. -/
def positive (settings : Settings) : List (Duration × String) :=
  [(settings.schedule.debounce, "scheduler.debounce"),
    (settings.schedule.sessionRetry, "scheduler.session_retry"),
    (settings.schedule.sampleTimeout, "scheduler.sample_timeout"),
    (settings.loginTimeout, "inventory.login_timeout"),
    (settings.queryTimeout, "inventory.query_timeout"),
    (settings.gatewayTimeout, "gateway.timeout"),
    (settings.storeTimeout, "store.op_timeout")]

/-- Check all rules; the first broken one is told. -/
def check (settings : Settings) : Except Error Unit := do
  if let some (_, field, variableName) :=
      settings.required.find? fun entry => isBlankText entry.1 then
    throw (.missingField field variableName)
  if isBlankText settings.job then
    throw (.invalidValue "gateway.job" "job name cannot be empty")
  if let some (_, field) := settings.positive.find? fun entry => entry.1.nanos = 0 then
    throw (.invalidValue field "duration must be greater than zero")
  if settings.schedule.pushConcurrency = 0 then
    throw (.invalidValue "scheduler.push_concurrency"
      "at least one push must be allowed in flight")
  if settings.httpEnabled && (Network.Endpoint.ofText? settings.listen.toList).isNone then
    throw (.invalidValue "http.listen" s!"{settings.listen}: invalid socket address syntax")

end Settings
end InventoryGauges
