import InventoryGauges.Program
import InventoryGauges.Url

/-!
# Exchanges over HTTP

Requests to servers and their responses.  An exchange without response has a
reason in words, and so has a response whose body cannot be read.
-/

namespace InventoryGauges
namespace Http

/-- A request to a server. -/
structure Request where
  /-- Name of the method. -/
  method : String
  /-- Where to. -/
  url : Url
  /-- The cookie that is sent along. -/
  cookie? : Option String := none
  /-- Media type of the body. -/
  contentType? : Option String := none
  /-- The body. -/
  body? : Option String := none
  deriving DecidableEq, Repr

/-- A response of a server. -/
structure Response where
  /-- Status code. -/
  status : Nat
  /-- The body; a reason in words if it breaks off before its end. -/
  body : Except String String
  deriving Repr

/-- Whether a status tells success. -/
def Response.isSuccess (response : Response) : Bool :=
  200 ≤ response.status && response.status < 300

/-- How an exchange ends. -/
abbrev Answer (_ : Request) : Type :=
  Except String Response

end Http

/-- Programs that exchange requests and responses with servers. -/
abbrev Exchange (Result : Type) : Type :=
  Program Http.Request Http.Answer Result

namespace Http

/-- Send a request. -/
def send (request : Request) : Exchange (Except String Response) :=
  Program.request request

/-- The surroundings in which no server answers. -/
def unreachable (_ : Request) (_ : Unit) : Except String Response × Unit :=
  (.error "error sending request", ())

end Http
end InventoryGauges
