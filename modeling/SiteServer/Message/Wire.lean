import SiteServer.Message.Request
import SiteServer.Message.Response

/-! # Messages as they are sent over a connection, one request for each. -/

namespace SiteServer.Message.Wire

/-! ## Requests -/

/-- The part of a message before its first empty line, and the part after it. -/
def split? : Bytes → Option (Bytes × Bytes)
  | [] => none
  | b :: rest =>
    if [0x0D, 0x0A, 0x0D, 0x0A].isPrefixOf (b :: rest) then some ([], rest.drop 3)
    else (split? rest).map fun (head, body) => (b :: head, body)

structure Head where
  method : String
  uri : Uri
  headers : Headers
  deriving Repr

def trimBytes (bytes : Bytes) : Bytes :=
  let blank (b : UInt8) : Bool := b = 0x20 || b = 0x09
  ((bytes.dropWhile blank).reverse.dropWhile blank).reverse

/-- Adds the header field of a line: a name, a colon and a value. -/
def addField? (headers : Headers) (line : Bytes) : Option Headers := do
  let name ← stringOf? (line.takeWhile (· ≠ 0x3A))
  match line.dropWhile (· ≠ 0x3A) with
  | [] => none
  | _ :: value => headers.append? name (trimBytes value)

/-- The head of a request: a line with method, target and version, and a line for each field. -/
def head? (bytes : Bytes) : Option Head := do
  let lines := (bytes.splitOnP (· == 0x0A)).map fun line => line.filter (· ≠ 0x0D)
  match lines with
  | [] => none
  | first :: fields =>
    match (first.splitOnP (· == 0x20)) with
    | [method, target, _] =>
      let method ← stringOf? method
      let uri ← Uri.parse? (← stringOf? target)
      let headers ← fields.foldlM addField? []
      if isToken method then return ⟨method, uri, headers⟩ else none
    | _ => none

/-- How many bytes the body has; without a length in digits there is none. -/
def Head.bodySize (head : Head) : Nat :=
  match head.headers.text? "content-length" with
  | some text => if text.toList.all Char.isDigit then text.toNat?.getD 0 else 0
  | none => 0

/-- What has arrived of a request. -/
inductive Arrival where
  | incomplete
  | malformed
  | complete (head : Head) (body : Bytes)

/-- Looks whether the bytes received so far are a whole request. -/
def arrival (bytes : Bytes) : Arrival :=
  match split? bytes with
  | none => .incomplete
  | some (start, rest) =>
    match head? start with
    | none => .malformed
    | some head =>
      if rest.length < head.bodySize then .incomplete else .complete head (rest.take head.bodySize)

/-! ## Responses -/

def lineEnd : Bytes := [0x0D, 0x0A]

def fieldLine (name : String) (value : Bytes) : Bytes :=
  bytesOf (name ++ ": ") ++ value ++ lineEnd

/-- A response, after which the connection is closed. -/
def ofResponse (response : Response) : Bytes :=
  let body := response.body.getD []
  bytesOf s!"HTTP/1.1 {response.status} " ++ lineEnd ++
    response.headers.flatMap (fun (name, value) => fieldLine name value) ++
    fieldLine "content-length" (bytesOf (toString body.length)) ++
    fieldLine "connection" (bytesOf "close") ++ lineEnd ++ body

def badRequest : Bytes :=
  ofResponse { Response.fresh.write textType (bytesOf "400 Bad Request") with status := 400 }

end SiteServer.Message.Wire
