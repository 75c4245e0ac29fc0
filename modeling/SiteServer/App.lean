import SiteServer.Address
import SiteServer.Config.Description
import SiteServer.Site.ErrorPage
import SiteServer.Site.Stages

/-! # Applications: a list of stages, and a listener that keeps the list it was started with. -/

namespace SiteServer

open Message (Exchange Request Response)
open Pipeline (Handler Report Sink Stage Turn)

/-- A running listener: where it waits, and the pipeline that it was started with. -/
structure Listener (σ : Type) where
  address : SocketAddress
  pipeline : Pipeline σ

structure App (σ : Type) where
  stages : List (Stage σ)
  handler : Handler σ
  sink : Sink
  clock : Nat → Binary64
  listen : ListenOptions
  maxBody : UInt64
  listener : Option (Listener σ)

namespace App

variable {σ : Type}

/-- The application of a site: its default stages and its error pages, with events that are logged. -/
def ofSite (site : Site) (listen : ListenOptions) (maxBody : UInt64) : App World where
  stages := site.stages
  handler := site.errorPages
  sink := Sink.logging .debug
  clock _ := .zero
  listen := listen
  maxBody := maxBody
  listener := none

/-- Inserts a stage before the one at an index; past the end it becomes the last. Listeners that run
already do not see it. -/
def insertStage (app : App σ) (index : Nat) (stage : Stage σ) : App σ :=
  { app with stages := app.stages.take index ++ stage :: app.stages.drop index }

/-- The pipeline of the stages as they are now. -/
def pipeline (app : App σ) : Pipeline σ :=
  ⟨app.stages, app.handler, app.sink, app.clock⟩

/-! ## Requests -/

/-- Runs a request through a pipeline: what was reported, and the turn after the last stage. -/
def dispatch (pipeline : Pipeline σ) (shared : σ) (request : Request) : Report × Turn σ :=
  let (report, turn) := pipeline.run ⟨.opening request, shared, []⟩
  (report, turn.report .info "request complete")

/-- Runs a request through the stages as they are now. -/
def handle (app : App σ) (shared : σ) (request : Request) : Report × Turn σ :=
  dispatch app.pipeline shared request

/-- The answer to a request whose body the listener does not read to its end. -/
def tooLarge : Response :=
  { Response.fresh.write "text/plain; charset=utf-8" (bytesOf "413 Payload Too Large") with
    status := 413 }

/-- What came of a request to the listener. -/
structure Served (σ : Type) where
  response : Response
  shared : σ
  log : List LogRecord

/-- Sends a request to the listener, if it is running. A body above the limit reaches no stage. -/
def serve? (app : App σ) (shared : σ) (request : Request) : Option (Served σ) :=
  app.listener.map fun listener =>
    if app.maxBody.toNat < request.rawBody.length then
      ⟨tooLarge, shared, [.plain .warn "Could not read request body"]⟩
    else
      let (_, turn) := dispatch listener.pipeline shared request
      ⟨turn.exchange.response, turn.shared, turn.log⟩

/-! ## The listener -/

def localAddress? (app : App σ) : Option SocketAddress :=
  app.listener.map (·.address)

def isListening (app : App σ) : Bool :=
  app.listener.isSome

/-- Starts a listener with the stages as they are now; `bind` gives its address. There is one listener
at a time. -/
def start (bind : ListenOptions → Except IoFault SocketAddress) (app : App σ) :
    Except Failure SocketAddress × App σ :=
  if app.isListening then (.error (.server "already started"), app)
  else match bind app.listen with
    | .error fault => (.error (.io fault), app)
    | .ok address => (.ok address, { app with listener := some ⟨address, app.pipeline⟩ })

/-- Stops the listener, if it is running. -/
def stop (app : App σ) : App σ :=
  { app with listener := none }

/-- The names of the stages, the listener's options and its address. -/
def description (app : App σ) : String :=
  describe "App" [("stages", Text.Quoted.quoteAll (app.stages.map (·.name))),
    ("listen", app.listen.description),
    ("local_addr", describeOption SocketAddress.text app.localAddress?)] true

end App

end SiteServer
