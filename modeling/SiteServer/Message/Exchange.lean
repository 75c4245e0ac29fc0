import SiteServer.Message.Request
import SiteServer.Message.Response

/-! # A request and its response, which all stages of a run share. -/

namespace SiteServer.Message

structure Exchange where
  request : Request
  response : Response
  deriving Repr

namespace Exchange

/-- A request that has just arrived, with a response that has nothing in it. -/
def opening (request : Request) : Exchange :=
  ⟨request, .fresh⟩

/-- The exchange with a body written and the request finished. -/
def answer (e : Exchange) (contentType : String) (body : Bytes) : Exchange :=
  ⟨e.request.finish, e.response.write contentType body⟩

def withStatus (e : Exchange) (status : Nat) : Exchange :=
  { e with response := { e.response with status } }

end Exchange

end SiteServer.Message
