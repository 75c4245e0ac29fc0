import SiteServer.Message.Exchange
import SiteServer.Pipeline.Event

/-! # Stages: the units of work on a request. -/

namespace SiteServer.Pipeline

open Message (Exchange)

/-! ## Kinds and outcomes -/

/-- The role of a stage. -/
inductive StageKind where
  | parse
  | route
  | serveStatic
  | runController
  | render
  | emit
  | cleanup
  | custom
  deriving DecidableEq, Repr

namespace StageKind

def all : List StageKind :=
  [.parse, .route, .serveStatic, .runController, .render, .emit, .cleanup, .custom]

def name : StageKind → String
  | .parse => "parse"
  | .route => "route"
  | .serveStatic => "serve_static"
  | .runController => "run_controller"
  | .render => "render"
  | .emit => "emit"
  | .cleanup => "cleanup"
  | .custom => "custom"

def ofName? (name : String) : Option StageKind :=
  all.find? (·.name = name)

/-- Stages of this kind run for every request, finished or failed. -/
def alwaysRuns (kind : StageKind) : Bool :=
  kind = .cleanup

end StageKind

inductive StageStatus where
  | ok
  | skip
  | fail
  deriving DecidableEq, Repr

namespace StageStatus

def all : List StageStatus := [.ok, .skip, .fail]

def name : StageStatus → String
  | .ok => "ok"
  | .skip => "skip"
  | .fail => "fail"

def ofName? (name : String) : Option StageStatus :=
  all.find? (·.name = name)

/-- The stage did its work, or had none to do. -/
def isSuccess (status : StageStatus) : Bool :=
  status ≠ .fail

end StageStatus

/-- What a stage reports when it does not fail. -/
structure StageOutput where
  status : StageStatus
  skipReason : Option String
  deriving DecidableEq, Repr

namespace StageOutput

def ok : StageOutput := ⟨.ok, none⟩

def skip (reason : String) : StageOutput := ⟨.skip, some reason⟩

def isSkipped (output : StageOutput) : Bool :=
  output.status = .skip

end StageOutput

/-! ## Stages -/

/-- What a stage works on: the exchange, what all requests share, and the log so far. -/
structure Turn (σ : Type) where
  exchange : Exchange
  shared : σ
  log : List LogRecord

namespace Turn

variable {σ : Type}

def note (turn : Turn σ) (records : List LogRecord) : Turn σ :=
  { turn with log := turn.log ++ records }

def report (turn : Turn σ) (level : Level) (message : String) : Turn σ :=
  turn.note [.plain level (turn.exchange.request.logContext ++ message)]

def withRequest (turn : Turn σ) (request : Message.Request) : Turn σ :=
  { turn with exchange := { turn.exchange with request } }

def withResponse (turn : Turn σ) (response : Message.Response) : Turn σ :=
  { turn with exchange := { turn.exchange with response } }

end Turn

/-- Work on a turn that may fail; what was changed before a failure stays changed. -/
abbrev Work (σ α : Type) := Turn σ → Except Failure α × Turn σ

structure Stage (σ : Type) where
  name : String
  kind : StageKind
  run : Work σ StageOutput

namespace Stage

variable {σ τ : Type}

/-- A stage that works on the exchange alone. -/
def ofExchange (name : String) (kind : StageKind)
    (run : σ → Exchange → Except Failure StageOutput × Exchange) : Stage σ where
  name
  kind
  run turn :=
    let (result, exchange) := run turn.shared turn.exchange
    (result, { turn with exchange })

/-- A stage that works on a part of what requests share. -/
def focus (get : τ → σ) (set : σ → τ → τ) (stage : Stage σ) : Stage τ where
  name := stage.name
  kind := stage.kind
  run turn :=
    let (result, inner) := stage.run ⟨turn.exchange, get turn.shared, turn.log⟩
    (result, ⟨inner.exchange, set inner.shared turn.shared, inner.log⟩)

end Stage

end SiteServer.Pipeline
