import SiteServer.Config.Options
import SiteServer.FileTree
import SiteServer.Json.Reader
import SiteServer.Message.Request
import SiteServer.Failure
import SiteServer.Pipeline.Event
import SiteServer.Text.Form

/-! # Taking requests in: their URL and body are parsed, and what that left in files is released when the
request is over. -/

namespace SiteServer

open Message (Body ParsedUrl Request)

/-! ## Parts of an intake -/

/-- What came of work on a request: how it ended, the files and the request after it, and what was
logged. Changes made before a failure stay. -/
structure Intake.Outcome where
  result : Except Failure Unit
  files : FileTree
  request : Request
  log : List LogRecord

/-- How requests are taken in and released. -/
structure Intake where
  parse : FileTree → Request → Intake.Outcome
  cleanup : FileTree → Request → Intake.Outcome

namespace Intake

/-! ## Parsing -/

/-- The URL of a request: the path as it was sent, the query decoded. -/
def urlOf (request : Request) : ParsedUrl where
  pathname := request.uri.path
  query := (request.uri.query.map fun query => Text.Form.pairs (bytesOf query)).getD []

/-- The content type in lower case; none counts as empty. -/
def contentType (request : Request) : String :=
  ((request.headers.text? "content-type").getD "").map Char.toLower

def begins (text start : String) : Bool :=
  start.toList.isPrefixOf text.toList

/-- The body as its content type says: JSON, a form, or bytes. -/
def typedBody (request : Request) : Except Failure Body :=
  if begins (contentType request) "application/json" then
    match Json.readBytes request.rawBody with
    | .ok value => .ok (.json value)
    | .error fault => .error (.stage (some "parse") (.invalidJsonBody fault))
  else if begins (contentType request) "application/x-www-form-urlencoded" then
    .ok (.form (Text.Form.pairs request.rawBody))
  else .ok (.raw request.rawBody)

def storagePath (dir : Path) (request : Request) : Path :=
  dir.child (request.id ++ ".body")

/-- The directory that a body goes to, if it is to be stored. -/
def storageFor (options : ParserOptions) (size : Nat) : Option Path :=
  if options.spillThreshold.toNat < size then options.storageDir else none

/-- Stores the body of a request in a file, which is tracked from then on. -/
def storeBody (dir : Path) (files : FileTree) (request : Request) : Outcome :=
  match files.makeDirectories dir with
  | (.error fault, files) => ⟨.error (.io fault), files, request, []⟩
  | (.ok (), files) =>
    let path := storagePath dir request
    match files.write path request.rawBody with
    | .error fault => ⟨.error (.io fault), files, request, []⟩
    | .ok files =>
      ⟨.ok (), files, { request.track path with body := .stored path }, []⟩

/-- Parses the body. A body that is too large is refused before anything is stored; a large one is
stored whatever its content type. -/
def takeBody (options : ParserOptions) (files : FileTree) (request : Request) : Outcome :=
  let size := request.rawBody.length
  if size = 0 then ⟨.ok (), files, { request with body := .empty }, []⟩
  else if options.maxBody.toNat < size then
    ⟨.error (.stage (some "parse") (.bodyTooLarge size options.maxBody.toNat)), files, request, []⟩
  else match storageFor options size with
    | some dir => storeBody dir files request
    | none => match typedBody request with
      | .ok body => ⟨.ok (), files, { request with body }, []⟩
      | .error failure => ⟨.error failure, files, request, []⟩

def take (options : ParserOptions) (files : FileTree) (request : Request) : Outcome :=
  takeBody options files { request with url := some (urlOf request) }

/-! ## Cleanup -/

/-- Removes files one after the other; one that is gone already is no failure, and a failure does not
keep the others from being removed. The faults come back in the order of the files. -/
def removeAll (files : FileTree) : List Path → FileTree × List IoFault
  | [] => (files, [])
  | path :: rest =>
    match files.remove path with
    | .ok files => removeAll files rest
    | .error .notFound => removeAll files rest
    | .error fault =>
      let (files, faults) := removeAll files rest
      (files, fault :: faults)

/-- Removes the tracked files of a request, which tracks none afterwards. The first fault counts, all
are logged. -/
def release (files : FileTree) (request : Request) : Outcome :=
  let (files, faults) := removeAll files request.tempFiles
  let result := match faults.head? with
    | some fault => .error (.io fault)
    | none => .ok ()
  ⟨result, files, { request with tempFiles := [] },
    faults.map fun _ => .plain .warn "Could not remove temporary file"⟩

def usual (options : ParserOptions) : Intake where
  parse := take options
  cleanup := release

end Intake

end SiteServer
