import SiteServer.Decimal.Style

/-! # Events of a run, log records, and how events are logged. -/

namespace SiteServer

/-! ## Log records -/

/-- How much a log record matters; the first level matters most. -/
inductive Level where
  | error
  | warn
  | info
  | debug
  | trace
  deriving DecidableEq, Repr

def Level.name : Level → String
  | .error => "ERROR"
  | .warn => "WARN"
  | .info => "INFO"
  | .debug => "DEBUG"
  | .trace => "TRACE"

/-- The level with a name, in letters of either case. -/
def Level.ofName? (name : String) : Option Level :=
  [Level.error, .warn, .info, .debug, .trace].find? (·.name = name.toUpper)

structure LogRecord where
  level : Level
  message : String
  fields : List (String × String)
  deriving DecidableEq, Repr

def LogRecord.plain (level : Level) (message : String) : LogRecord :=
  ⟨level, message, []⟩

namespace Pipeline

/-! ## Events -/

inductive EventKind where
  | stageStarted
  | stageCompleted
  | stageSkipped
  | stageFailed
  | pipelineCompleted
  deriving DecidableEq, Repr

def EventKind.all : List EventKind :=
  [.stageStarted, .stageCompleted, .stageSkipped, .stageFailed, .pipelineCompleted]

def EventKind.name : EventKind → String
  | .stageStarted => "stage.started"
  | .stageCompleted => "stage.completed"
  | .stageSkipped => "stage.skipped"
  | .stageFailed => "stage.failed"
  | .pipelineCompleted => "pipeline.completed"

def EventKind.ofName? (name : String) : Option EventKind :=
  EventKind.all.find? (·.name = name)

/-- An event of a run: the request, the stage it is about, how many milliseconds that took, and why it
was skipped or failed. -/
structure Event where
  kind : EventKind
  requestId : String
  stage : Option String
  duration : Option Binary64
  detail : Option String
  deriving DecidableEq, Repr

namespace Event

def ofStage (kind : EventKind) (requestId stage : String) : Event :=
  ⟨kind, requestId, some stage, none, none⟩

def completed (requestId : String) (duration : Binary64) : Event :=
  ⟨.pipelineCompleted, requestId, none, some duration, none⟩

end Event

/-! ## Collected events -/

def stagesWith (kind : EventKind) (events : List Event) : List String :=
  (events.filter (·.kind = kind)).filterMap (·.stage)

/-! ## Sinks -/

/-- What a sink writes to the log for an event. -/
abbrev Sink := Event → List LogRecord

def Sink.silent : Sink := fun _ => []

/-- A duration in a message meant for developers. -/
def durationText (duration : Option Binary64) : String :=
  match duration with
  | none => "None"
  | some d => s!"Some({String.ofList (Decimal.Style.debug.write d)})"

/-- A sink that logs failures of stages as warnings, and all other events as information or for
debugging, as `level` asks. -/
def Sink.logging (level : Level) : Sink := fun e =>
  let message := s!"Event: {e.kind.name}"
  let fields := [("event_type", e.kind.name), ("request_id", e.requestId),
    ("stage", e.stage.getD "-"), ("detail", e.detail.getD "")]
  if e.kind = .stageFailed then [⟨.warn, message, fields⟩]
  else
    let level := match level with
      | .debug => .debug
      | .trace => .debug
      | _ => .info
    [⟨level, message, fields ++ [("duration_ms", durationText e.duration)]⟩]

end Pipeline

end SiteServer
