import SiteServer.Pipeline.Stage
import SiteServer.Site.Basic

/-! # The seven default stages of a site. -/

namespace SiteServer.Site

open Message (Exchange)
open Pipeline (Stage StageKind StageOutput Turn Work)

/-! ## Taking the request in -/

def afterIntake (turn : Turn World) (outcome : Intake.Outcome) : Turn World :=
  { (turn.withRequest outcome.request).note outcome.log with
    shared := turn.shared.withFiles outcome.files }

def parse (site : Site) : Work World StageOutput := fun turn =>
  let outcome := site.intake.parse turn.shared.files turn.exchange.request
  (outcome.result.map fun _ => .ok, afterIntake turn outcome)

/-! ## Routing -/

/-- Finds the targets of the parsed URL; rendering may be suppressed, never asked for again. -/
def route (site : Site) : Work World StageOutput := fun turn =>
  let request := turn.exchange.request
  match request.url with
  | none => (.error (.stage (some "route") .urlNotParsed), turn)
  | some url =>
    match site.resolve turn.shared url.pathname with
    | .error failure => (.error failure, turn)
    | .ok decision =>
      (.ok .ok, turn.withRequest { request with
        targets := decision.targets
        renderRequested := request.renderRequested && decision.render })

/-! ## Static files -/

/-- Sends the matched static file. The request is finished even if that fails. -/
def serveStatic (site : Site) : Work World StageOutput := fun turn =>
  match turn.exchange.request.targets.static with
  | none => (.ok (.skip "no static file matched"), turn)
  | some path =>
    let turn := turn.withRequest turn.exchange.request.finish
    match site.transport turn.shared.files path with
    | .error fault =>
      (.error (.static path fault), turn.report .warn "static transport failed")
    | .ok file =>
      (.ok .ok, turn.withResponse (turn.exchange.response.write file.mediaType (file.content)))

/-! ## Controllers -/

def notFoundBody : String := "404 Not Found"

/-- Nothing matched: the response becomes a 404, with the template of the not-found route if something
may be rendered, else with a fixed text. -/
def targetNotFound (site : Site) : Work World StageOutput := fun turn =>
  let turn := turn.report .info "target not found"
  let turn := { turn with exchange := turn.exchange.withStatus 404 }
  let plain : Turn World := { turn with
    exchange := turn.exchange.answer Message.textType (bytesOf notFoundBody) }
  let request := turn.exchange.request
  if request.renderRequested then
    match site.resolveExact turn.shared site.router.notFoundRoute with
    | .error failure => (.error failure, turn)
    | .ok targets =>
      match targets.template with
      | some template =>
        (.ok .ok, turn.withRequest
          { request with targets := { request.targets with template := some template } })
      | none => (.ok .ok, plain)
  else (.ok .ok, plain)

def runController (controller : Controller) : Work World StageOutput := fun turn =>
  let (result, exchange) := controller turn.shared.files turn.exchange
  (result.map fun _ => .ok, { turn with exchange })

/-- Runs the matched controller; where only a template or a static file matched there is nothing to
do, and where nothing matched the response becomes a 404. -/
def dispatch (site : Site) : Work World StageOutput := fun turn =>
  let targets := turn.exchange.request.targets
  match targets.controller, targets.template, targets.static with
  | some route, _, _ =>
    match turn.shared.workshop.controllers.get? route with
    | some controller => runController controller turn
    | none => (.error (.stage (some "run_controller") (.controllerMissing route)), turn)
  | none, some _, _ => (.ok (.skip "template only"), turn)
  | none, none, some _ => (.ok (.skip "static file only"), turn)
  | none, none, none => site.targetNotFound turn

/-! ## Rendering -/

/-- Logs a failure to compile a template, if it tells which files were being expanded. -/
def noteCompileFailure (turn : Turn World) (failure : Template.Failure) : Turn World :=
  if failure.chain = [] then turn else turn.report .error failure.message

/-- Renders a template on the payload into the response. -/
def renderInto (site : Site) (template : Path) : Work World StageOutput := fun turn =>
  match turn.exchange.response.payload.value with
  | .error fault => (.error (.serialization fault), turn)
  | .ok data =>
    let (compiled, shared) := site.compile turn.shared template
    let turn := { turn with shared }
    match compiled with
    | .error failure => (.error (.template failure), noteCompileFailure turn failure)
    | .ok compiled =>
      match compiled.render data with
      | .error failure => (.error (.template failure), turn)
      | .ok text =>
        (.ok .ok, turn.withResponse { turn.exchange.response with rendered := some text })

/-- Renders the matched template, if one matched and rendering is asked for. -/
def render (site : Site) : Work World StageOutput := fun turn =>
  let request := turn.exchange.request
  if request.finished then (.ok (.skip "request already finished"), turn)
  else if !request.renderRequested then (.ok (.skip "render not requested"), turn)
  else match request.targets.template with
    | none => (.ok (.skip "no template matched"), turn)
    | some template => site.renderInto template turn

/-! ## The end of a request -/

/-- Writes the rendered text, or else the payload, and finishes the request. -/
def emit (exchange : Exchange) : Except Failure StageOutput × Exchange :=
  match exchange.response.rendered with
  | some text => (.ok .ok, exchange.answer Message.htmlType (bytesOf text))
  | none =>
    match exchange.response.payload.sent with
    | .ok body => (.ok .ok, exchange.answer Message.jsonType body)
    | .error fault => (.error (.serialization fault), exchange)

/-- Lets the intake release what it holds for the request. -/
def cleanup (site : Site) : Work World StageOutput := fun turn =>
  let outcome := site.intake.cleanup turn.shared.files turn.exchange.request
  let turn := afterIntake turn outcome
  match outcome.result with
  | .ok () => (.ok .ok, turn)
  | .error failure => (.error failure, turn.report .warn "cleanup failed")

/-! ## The stages -/

/-- The default stage of a kind; a custom stage is none of them. -/
def stage? (site : Site) (kind : StageKind) : Option (Stage World) :=
  match kind with
  | .parse => some ⟨kind.name, kind, site.parse⟩
  | .route => some ⟨kind.name, kind, site.route⟩
  | .serveStatic => some ⟨kind.name, kind, site.serveStatic⟩
  | .runController => some ⟨kind.name, kind, site.dispatch⟩
  | .render => some ⟨kind.name, kind, site.render⟩
  | .emit => some (.ofExchange kind.name kind fun _ => emit)
  | .cleanup => some ⟨kind.name, kind, site.cleanup⟩
  | .custom => none

def stages (site : Site) : List (Stage World) :=
  StageKind.all.filterMap site.stage?

end SiteServer.Site
