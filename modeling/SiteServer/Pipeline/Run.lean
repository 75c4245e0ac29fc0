import SiteServer.Pipeline.Stage

/-! # Running stages over an exchange.

Stages run in order. Once the request is finished or a stage has failed, the others are skipped, except
those that always run. The first failure goes to the error handler, unless it is that of a stage that
always runs and the response is written already. -/

namespace SiteServer

namespace Pipeline

/-- What happened to one stage. -/
structure StageRecord where
  name : String
  kind : StageKind
  status : StageStatus
  skipReason : Option String
  executed : Bool
  deriving DecidableEq, Repr

/-- Turns a failed request into a response. -/
abbrev Handler (σ : Type) := Failure → Turn σ → Turn σ

/-- A handler that works on a part of what requests share. -/
def Handler.focus {σ τ : Type} (get : τ → σ) (set : σ → τ → τ) (handler : Handler σ) : Handler τ :=
  fun failure turn =>
    let inner := handler failure ⟨turn.exchange, get turn.shared, turn.log⟩
    ⟨inner.exchange, set inner.shared turn.shared, inner.log⟩

/-- Why a stage is skipped without being asked. -/
inductive PassReason where
  | failed
  | finished
  deriving DecidableEq, Repr

def PassReason.message : PassReason → String
  | .failed => "pipeline already failed"
  | .finished => "request already finished"

end Pipeline

/-- Stages with what they need around them. `clock` tells how many milliseconds the stage at a place
took, and after the last place how many all of them took. -/
structure Pipeline (σ : Type) where
  stages : List (Pipeline.Stage σ)
  handler : Pipeline.Handler σ
  sink : Pipeline.Sink
  clock : Nat → Binary64

namespace Pipeline

variable {σ : Type}

/-- How far a run has come. Its events name the request that it started with, whatever stages make of
that. -/
structure Progress (σ : Type) where
  turn : Turn σ
  records : List StageRecord
  events : List Event
  failure : Option Failure
  requestId : String

namespace Progress

/-- A run that has not reached any stage. -/
def start (turn : Turn σ) : Progress σ :=
  ⟨turn, [], [], none, turn.exchange.request.id⟩

/-- Emits an event: it is collected, and the sink logs it. -/
def emit (p : Progress σ) (sink : Sink) (event : Event) : Progress σ :=
  { p with events := p.events ++ [event], turn := p.turn.note (sink event) }

def record (p : Progress σ) (r : StageRecord) : Progress σ :=
  { p with records := p.records ++ [r] }

/-- Why a stage of a kind is to be skipped, if it is. -/
def passReason? (p : Progress σ) (kind : StageKind) : Option PassReason :=
  if kind.alwaysRuns then none
  else if p.failure.isSome then some .failed
  else if p.turn.exchange.request.finished then some .finished
  else none

end Progress

/-- Takes note of a failure: the first one goes to the handler, if the stage does not always run or no
response is written yet; others are only logged. -/
def settleFailure (pipeline : Pipeline σ) (kind : StageKind) (failure : Failure) (p : Progress σ) :
    Progress σ :=
  if p.failure.isSome then
    { p with turn := p.turn.report .warn "stage failed after an earlier failure" }
  else if kind.alwaysRuns && p.turn.exchange.response.isWritten then
    { p with turn := p.turn.report .warn "cleanup failed" }
  else
    { p with
      turn := pipeline.handler failure (p.turn.report .error "stage failed")
      failure := some failure }

def runStage (pipeline : Pipeline σ) (stage : Stage σ) (p : Progress σ) : Progress σ :=
  let event (kind : EventKind) : Event := .ofStage kind p.requestId stage.name
  let duration := some (pipeline.clock p.records.length)
  let started := p.emit pipeline.sink (event .stageStarted)
  match stage.run started.turn with
  | (.ok output, turn) =>
    let kind := if output.isSkipped then .stageSkipped else .stageCompleted
    ({ started with turn }.emit pipeline.sink
      { event kind with duration, detail := output.skipReason }).record
      ⟨stage.name, stage.kind, output.status, output.skipReason, true⟩
  | (.error failure, turn) =>
    pipeline.settleFailure stage.kind failure
      (({ started with turn }.emit pipeline.sink
        { event .stageFailed with duration, detail := some failure.message }).record
        ⟨stage.name, stage.kind, .fail, none, true⟩)

def passStage (pipeline : Pipeline σ) (stage : Stage σ) (reason : PassReason) (p : Progress σ) :
    Progress σ :=
  (p.emit pipeline.sink
    { Event.ofStage .stageSkipped p.requestId stage.name with detail := some reason.message }).record
    ⟨stage.name, stage.kind, .skip, some reason.message, false⟩

/-- Runs a stage or passes over it. -/
def advance (pipeline : Pipeline σ) (p : Progress σ) (stage : Stage σ) : Progress σ :=
  match p.passReason? stage.kind with
  | some reason => pipeline.passStage stage reason p
  | none => pipeline.runStage stage p

/-- What a run reports: one record for each stage, the failure that the handler was given, and the
events in the order in which they were emitted. -/
structure Report where
  records : List StageRecord
  failure : Option Failure
  events : List Event

namespace Report

/-- No failure was handed to the handler. -/
def isSuccess (report : Report) : Bool :=
  report.failure.isNone

def record? (report : Report) (name : String) : Option StageRecord :=
  report.records.find? (·.name = name)

def executed (report : Report) : List String :=
  (report.records.filter (·.executed)).map (·.name)

end Report

def run (pipeline : Pipeline σ) (turn : Turn σ) : Report × Turn σ :=
  let p := pipeline.stages.foldl pipeline.advance (.start turn)
  let p := p.emit pipeline.sink (.completed p.requestId (pipeline.clock p.records.length))
  (⟨p.records, p.failure, p.events⟩, p.turn)

end Pipeline

end SiteServer
