import SiteServer.Route.Targets
import SiteServer.Template.Failure

/-! # Failures of requests.

Every failure ends the request it happens in and is answered in the same way; that no target was found
is no failure. -/

namespace SiteServer

/-- Why data has no JSON text. -/
inductive SerializationFault where
  | keyNotString
  | json (fault : JsonFault)
  deriving DecidableEq, Repr

def SerializationFault.message : SerializationFault → String
  | .keyNotString => "key must be a string"
  | .json fault => fault.message

/-- Failures of stages that belong to no other kind. -/
inductive StageCause where
  | urlNotParsed
  | controllerMissing (route : String)
  | bodyTooLarge (size limit : Nat)
  | invalidJsonBody (fault : JsonFault)
  | stated (message : String)
  deriving DecidableEq, Repr

def StageCause.message : StageCause → String
  | .urlNotParsed => "parsed URL is not set"
  | .controllerMissing route => s!"no controller registered for '{route}'"
  | .bodyTooLarge size limit => s!"request body of {size} bytes exceeds the {limit} byte limit"
  | .invalidJsonBody fault => s!"invalid JSON body: {fault.message}"
  | .stated message => message

inductive Failure where
  | resolution (fault : Route.Fault)
  | template (failure : Template.Failure)
  | static (path : Path) (fault : IoFault)
  | serialization (fault : SerializationFault)
  | stage (name : Option String) (cause : StageCause)
  | server (message : String)
  | io (fault : IoFault)
  deriving DecidableEq, Repr

namespace Failure

/-- A failure that a stage states in its own words. -/
def inStage (name message : String) : Failure :=
  .stage (some name) (.stated message)

def label : Failure → String
  | .resolution _ => "resolution"
  | .template failure => failure.kind.label
  | .static _ _ => "static_transport"
  | .serialization _ => "serialization"
  | .stage _ _ => "pipeline"
  | .server _ => "server"
  | .io _ => "io"

def message : Failure → String
  | .resolution fault => fault.message
  | .template failure => failure.message
  | .static path fault => s!"Could not send static file '{path.text}': {fault.message}"
  | .serialization fault => s!"Could not serialize payload: {fault.message}"
  | .stage (some name) cause => s!"Stage '{name}' failed: {cause.message}"
  | .stage none cause => s!"Pipeline error: {cause.message}"
  | .server message => s!"Server error: {message}"
  | .io fault => s!"IO error: {fault.message}"

/-- The status that answers a failure: no failure is the client's. -/
def status (_ : Failure) : Nat := 500

end Failure

end SiteServer
