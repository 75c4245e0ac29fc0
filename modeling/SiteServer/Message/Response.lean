import SiteServer.Failure
import SiteServer.Json.Printer
import SiteServer.Message.Token
import SiteServer.Text.Quoted

/-! # Responses: payload, rendered text, and what is written for the client. -/

namespace SiteServer.Message

/-- What a controller hands on. Data keeps its fields in the order in which its JSON text has them;
data without a JSON text says why it has none. -/
inductive Payload where
  | none
  | text (content : String)
  | bytes (content : Bytes)
  | data (value : Json)
  | unprintable (fault : SerializationFault)
  deriving Repr

namespace Payload

/-- The payload as data to render; without one the data is an object without fields. -/
def value : Payload → Except SerializationFault Json
  | .none => .ok (.object [])
  | .text content => .ok (.string content)
  | .bytes content => .ok (.string (stringOfLossy content))
  | .data value => .ok value.ordered
  | .unprintable fault => .error fault

/-- The payload as it is sent: text and bytes unmodified, data as JSON. -/
def sent : Payload → Except SerializationFault Bytes
  | .none => .ok []
  | .text content => .ok (bytesOf content)
  | .bytes content => .ok content
  | .data value => .ok (bytesOf value.text)
  | .unprintable fault => .error fault

/-- The payload in a message meant for developers. -/
def debugText : Payload → String
  | .none => "None"
  | .text content => s!"Text({Text.Quoted.quote content})"
  | .bytes content => s!"Bytes({content.length})"
  | .data _ => "Data(..)"
  | .unprintable _ => "Data(..)"

end Payload

/-- The content types of rendered templates, payloads and fixed texts. -/
def htmlType : String := "text/html; charset=UTF-8"

def jsonType : String := "application/json; charset=UTF-8"

def textType : String := "text/plain; charset=UTF-8"

/-- A response; there is a body once it is written. -/
structure Response where
  status : Nat
  headers : Headers
  payload : Payload
  rendered : Option String
  body : Option Bytes
  deriving Repr

namespace Response

def fresh : Response :=
  { status := 200, headers := [], payload := .none, rendered := none, body := none }

/-- Writes the body; a content type that is no legal header value is not set. -/
def write (r : Response) (contentType : String) (body : Bytes) : Response :=
  { r with
    headers := (r.headers.set? "content-type" (bytesOf contentType)).getD r.headers
    body := some body }

def isWritten (r : Response) : Bool :=
  r.body.isSome

def bodyText (r : Response) : String :=
  r.body.elim "" stringOfLossy

end Response

end SiteServer.Message
