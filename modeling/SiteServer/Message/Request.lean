import SiteServer.Json.Basic
import SiteServer.Message.Token
import SiteServer.Message.Uri
import SiteServer.Route.Targets

/-! # Requests: what the client sent, and what stages found out about it. -/

namespace SiteServer.Message

/-- The path and the decoded query of a request target. -/
structure ParsedUrl where
  pathname : String
  query : List (String × String)
  deriving DecidableEq, Repr

def ParsedUrl.value? (url : ParsedUrl) (name : String) : Option String :=
  url.query.lookup name

inductive Body where
  | empty
  | json (value : Json)
  | form (pairs : List (String × String))
  | raw (content : Bytes)
  | stored (path : Path)
  deriving Repr

/-- A request. The first five fields are what was sent, with a name for the request; stages set the
others. -/
structure Request where
  id : String
  method : String
  uri : Uri
  headers : Headers
  rawBody : Bytes
  url : Option ParsedUrl
  body : Body
  finished : Bool
  renderRequested : Bool
  targets : Route.Targets
  tempFiles : List Path
  deriving Repr

namespace Request

def arriving (id method : String) (uri : Uri) (headers : Headers) (rawBody : Bytes) : Request :=
  { id, method, uri, headers, rawBody, url := none, body := .empty, finished := false,
    renderRequested := true, targets := .none, tempFiles := [] }

/-- What log records about a request start with. -/
def logContext (r : Request) : String :=
  s!"req.id: {r.id} url: {r.uri.text} - "

/-- Nothing is to be written for the request any more. -/
def finish (r : Request) : Request :=
  { r with finished := true }

/-- Remembers a file to be deleted when the request is over. -/
def track (r : Request) (path : Path) : Request :=
  { r with tempFiles := r.tempFiles ++ [path] }

end Request

end SiteServer.Message
