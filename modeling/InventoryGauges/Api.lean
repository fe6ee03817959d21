import InventoryGauges.Catalog
import InventoryGauges.Statistics
import InventoryGauges.Url.Percent

/-!
# The configuration interface

Requests over HTTP that read and change the catalog, show the counters and
tell whether the store answers.
-/

namespace InventoryGauges
namespace Api

/-- A request. -/
structure Request where
  /-- Name of the method. -/
  method : String
  /-- Path, perhaps with a query. -/
  path : String
  /-- The body. -/
  body : ByteArray

/-- A response. -/
structure Response where
  /-- Status code. -/
  status : Nat
  /-- Media type of the body. -/
  contentType? : Option String := none
  /-- Methods that the path has, if the request's method is none of them. -/
  allow? : Option String := none
  /-- The body. -/
  body : String := ""
  deriving DecidableEq, Repr

namespace Response

def jsonType : String := "application/json"

def plainType : String := "text/plain; charset=utf-8"

/-- A response with a JSON body. -/
def json (status : Nat) (body : Json) : Response :=
  { status, contentType? := some jsonType, body := body.compact }

/-- A response that tells an error. -/
def failure (status : Nat) (message : String) : Response :=
  json status (.object [("error", .string message)])

/-- The response with a list of definitions. -/
def metrics (metrics : List Metric) : Response :=
  { status := 200, contentType? := some jsonType, body := Metric.listText metrics }

/-- The response to a failure of the store. -/
def storeFailure (error : Store.Error) : Response :=
  failure 500 error.message

/-- The response without its body. -/
def withoutBody (response : Response) : Response :=
  { response with body := "" }

end Response

/-- What a path leads to. -/
inductive Resource
  | health
  | counters
  | catalog
  | metric (encodedName : String)
  deriving DecidableEq, Repr

namespace Resource

/-- The path before its query. -/
def barePath (path : String) : List Char :=
  path.toList.takeWhile fun character => character != '?' && character != '#'

/-- The resource of a path.  A metric's name is one part of a path. -/
def ofPath? (path : String) : Option Resource :=
  let path := barePath path
  if path = "/meta/health".toList then some health
  else if path = "/meta/metrics".toList then some counters
  else if path = "/metrics".toList then some catalog
  else
    (Text.dropStart? "/metrics/".toList path).bind fun name =>
      if name.isEmpty || name.contains '/' then none
      else some (metric (String.ofList name))

/-- The methods of a resource. -/
def methods : Resource → List String
  | health | counters => ["GET", "HEAD"]
  | catalog => ["GET", "HEAD", "POST"]
  | metric _ => ["DELETE"]

end Resource

/-- Programs that answer a request. -/
abbrev Handler : Type := Program Store.Call Store.Call.Answer Response

/-- Whether the store answers. -/
def health : Handler := do
  match ← (Store.call .ping).run with
  | .ok () => return { status := 204 }
  | .error _ => return { status := 500 }

/-- The counters. -/
def counters (statistics : Statistics) : Handler :=
  return {
    status := 200
    contentType? := some Exposition.contentType
    body := statistics.render }

/-- The definitions. -/
def list : Handler := do
  match ← Store.listMetrics.run with
  | .ok metrics => return .metrics metrics
  | .error error => return .storeFailure error

/-- Greatest length of a body in bytes. -/
def bodyLimit : Nat := 2097152

/-- Add the definition in a body. -/
def add (body : ByteArray) : Handler := do
  if bodyLimit < body.size then
    return {
      status := 413
      contentType? := some Response.plainType
      body := "Failed to buffer the request body: length limit exceeded" }
  match (String.fromUTF8? body).bind Json.ofString? with
  | none => return .failure 400 Metric.Rejection.notObject.message
  | some document =>
      match Metric.ofDocument document with
      | .error rejection => return .failure 400 rejection.message
      | .ok metric =>
          match ← (Catalog.add metric).run with
          | .ok metrics => return .metrics metrics
          | .error (.store error) => return .storeFailure error
          | .error error => return .failure 400 error.message

/-- Remove the definition of a name. -/
def delete (encodedName : String) : Handler := do
  match Url.decodedText? encodedName with
  | none =>
      return {
        status := 400
        contentType? := some Response.plainType
        body := "Invalid URL: Invalid UTF-8 in \x60name\x60" }
  | some name =>
      match ← (Catalog.delete name).run with
      | .ok metrics => return .metrics metrics
      | .error error => return .storeFailure error

/-- Answer a request with one of the methods that its resource has. -/
def answer (statistics : Statistics) (request : Request) : Resource → Handler
  | .health => health
  | .counters => counters statistics
  | .catalog => if request.method = "POST" then add request.body else list
  | .metric encodedName => delete encodedName

/-- Answer a request. -/
def handle (statistics : Statistics) (request : Request) : Handler := do
  match Resource.ofPath? request.path with
  | none => return { status := 404 }
  | some resource =>
      if resource.methods.contains request.method then
        let response ← answer statistics request resource
        if request.method = "HEAD" then return response.withoutBody
        else return response
      else return { status := 405, allow? := some (",".intercalate resource.methods) }

end Api
end InventoryGauges
