import SiteServer.Proofs.Intake.Parsing
import SiteServer.Proofs.Pipeline.Transition
import SiteServer.Site.ErrorPage
import SiteServer.Site.Stages

/-! # What the default stages and the error pages of a site do, one lemma for each way they end. -/

namespace SiteServer

open Message (Exchange Request Response)
open Pipeline (Stage StageKind StageOutput Turn Yields)

/-! ## Intakes -/

/-- An intake that leaves it to the stages whether a request is finished. -/
structure Intake.KeepsFinished (intake : Intake) : Prop where
  parse : ∀ files request, (intake.parse files request).request.finished = request.finished
  cleanup : ∀ files request, (intake.cleanup files request).request.finished = request.finished

namespace Intake

theorem finished_take (options : ParserOptions) (files : FileTree) (request : Request) :
    (take options files request).request.finished = request.finished := by
  obtain ⟨⟨_, _, hrequest⟩, _⟩ := (ends_take options files request).frame
  rw [hrequest]
  rfl

theorem usual_keepsFinished (options : ParserOptions) : (usual options).KeepsFinished where
  parse files request := finished_take options files request
  cleanup _ _ := rfl

end Intake

namespace Site

variable {site : Site} {world : World} {e : Exchange}

theorem keepsFinished_ofOptions {router : RouterOptions} {parser : ParserOptions}
    (h : ofOptions router parser = .ok site) : site.intake.KeepsFinished := by
  obtain ⟨_, _, _, _, rfl⟩ := eq_of_ofOptions h
  exact Intake.usual_keepsFinished parser

/-! ## The list of stages -/

theorem stages_eq (site : Site) : site.stages =
    [⟨StageKind.name .parse, .parse, site.parse⟩, ⟨StageKind.name .route, .route, site.route⟩,
      ⟨StageKind.name .serveStatic, .serveStatic, site.serveStatic⟩,
      ⟨StageKind.name .runController, .runController, site.dispatch⟩,
      ⟨StageKind.name .render, .render, site.render⟩,
      .ofExchange (StageKind.name .emit) .emit fun _ => emit,
      ⟨StageKind.name .cleanup, .cleanup, site.cleanup⟩] := rfl

/-! ## Taking in, routing and cleaning up -/

theorem parse_yields (site : Site) (world : World) (e : Exchange) :
    Yields site.parse e world
      ((site.intake.parse world.files e.request).result.map fun _ => .ok)
      ⟨(site.intake.parse world.files e.request).request, e.response⟩
      (world.withFiles (site.intake.parse world.files e.request).files) :=
  fun _ => ⟨_, rfl⟩

theorem route_yields {url : Message.ParsedUrl} {decision : Route.Decision}
    (hurl : e.request.url = some url) (h : site.resolve world url.pathname = .ok decision) :
    Yields site.route e world (.ok .ok)
      ⟨{ e.request with
        targets := decision.targets
        renderRequested := e.request.renderRequested && decision.render }, e.response⟩ world := by
  intro log
  refine ⟨log, ?_⟩
  simp only [route, hurl, h]
  rfl

theorem cleanup_yields (site : Site) (world : World) (e : Exchange) :
    Yields site.cleanup e world
      ((site.intake.cleanup world.files e.request).result.map fun _ => .ok)
      ⟨(site.intake.cleanup world.files e.request).request, e.response⟩
      (world.withFiles (site.intake.cleanup world.files e.request).files) := by
  intro log
  simp only [cleanup]
  split <;> rename_i hresult <;> rw [hresult] <;> exact ⟨_, rfl⟩

/-! ## Static files -/

theorem serveStatic_yields_skip (h : e.request.targets.static = none) :
    Yields site.serveStatic e world (.ok (.skip "no static file matched")) e world := by
  intro log
  exact ⟨log, by simp only [serveStatic, h]⟩

theorem serveStatic_yields_sent {path : Path} {file : StaticFile}
    (h : e.request.targets.static = some path)
    (hfile : site.transport world.files path = .ok file) :
    Yields site.serveStatic e world (.ok .ok)
      ⟨e.request.finish, e.response.write file.mediaType file.content⟩ world := by
  intro log
  refine ⟨log, ?_⟩
  simp only [serveStatic, h, Turn.withRequest, hfile]
  rfl

theorem serveStatic_yields_unsent {path : Path} {fault : IoFault}
    (h : e.request.targets.static = some path)
    (hfile : site.transport world.files path = .error fault) :
    Yields site.serveStatic e world (.error (.static path fault)) ⟨e.request.finish, e.response⟩
      world := by
  intro log
  simp only [serveStatic, h, Turn.withRequest, hfile]
  exact ⟨_, rfl⟩

/-! ## Controllers -/

theorem dispatch_yields_controller (site : Site) {route : String} {controller : Controller}
    {result : Except Failure Unit} {left : Exchange}
    (h : e.request.targets.controller = some route)
    (hget : world.workshop.controllers.get? route = some controller)
    (hrun : controller world.files e = (result, left)) :
    Yields site.dispatch e world (result.map fun _ => .ok) left world := by
  intro log
  refine ⟨log, ?_⟩
  simp only [dispatch, h, hget, runController, hrun]

theorem dispatch_yields_missing {route : String} (h : e.request.targets.controller = some route)
    (hget : world.workshop.controllers.get? route = none) :
    Yields site.dispatch e world
      (.error (.stage (some "run_controller") (.controllerMissing route))) e world := by
  intro log
  refine ⟨log, ?_⟩
  simp only [dispatch, h, hget]

theorem dispatch_yields_template {template : Path} (h : e.request.targets.controller = none)
    (htemplate : e.request.targets.template = some template) :
    Yields site.dispatch e world (.ok (.skip "template only")) e world := by
  intro log
  refine ⟨log, ?_⟩
  simp only [dispatch, h, htemplate]

section NotFound

variable (hcontroller : e.request.targets.controller = none)
  (htemplate : e.request.targets.template = none) (hstatic : e.request.targets.static = none)

include hcontroller htemplate hstatic

theorem dispatch_eq_targetNotFound (log : List LogRecord) :
    site.dispatch ⟨e, world, log⟩ = site.targetNotFound ⟨e, world, log⟩ := by
  simp only [dispatch, hcontroller, htemplate, hstatic]

/-- Nothing matched, and rendering is not asked for. -/
theorem dispatch_yields_quiet (hrender : e.request.renderRequested = false) :
    Yields site.dispatch e world (.ok .ok)
      ((e.withStatus 404).answer Message.textType (bytesOf notFoundBody)) world := by
  intro log
  rw [dispatch_eq_targetNotFound hcontroller htemplate hstatic]
  simp only [targetNotFound, Turn.report, Turn.note, Exchange.withStatus, hrender]
  exact ⟨_, rfl⟩

/-- Nothing matched, and the not-found route cannot be resolved. -/
theorem dispatch_yields_unresolved {failure : Failure} (hrender : e.request.renderRequested = true)
    (h : site.resolveExact world site.router.notFoundRoute = .error failure) :
    Yields site.dispatch e world (.error failure) (e.withStatus 404) world := by
  intro log
  rw [dispatch_eq_targetNotFound hcontroller htemplate hstatic]
  simp only [targetNotFound, Turn.report, Turn.note, Exchange.withStatus, hrender, if_true, h]
  exact ⟨_, rfl⟩

/-- Nothing matched, and the not-found route has no template. -/
theorem dispatch_yields_plain {targets : Route.Targets} (hrender : e.request.renderRequested = true)
    (h : site.resolveExact world site.router.notFoundRoute = .ok targets)
    (hnone : targets.template = none) :
    Yields site.dispatch e world (.ok .ok)
      ((e.withStatus 404).answer Message.textType (bytesOf notFoundBody)) world := by
  intro log
  rw [dispatch_eq_targetNotFound hcontroller htemplate hstatic]
  simp only [targetNotFound, Turn.report, Turn.note, Exchange.withStatus, hrender, if_true, h, hnone]
  exact ⟨_, rfl⟩

/-- Nothing matched, and the template of the not-found route stands in. -/
theorem dispatch_yields_substitute {targets : Route.Targets} {template : Path}
    (hrender : e.request.renderRequested = true)
    (h : site.resolveExact world site.router.notFoundRoute = .ok targets)
    (hsome : targets.template = some template) :
    Yields site.dispatch e world (.ok .ok)
      ⟨{ e.request with targets := { e.request.targets with template := some template } },
        { e.response with status := 404 }⟩ world := by
  intro log
  rw [dispatch_eq_targetNotFound hcontroller htemplate hstatic]
  simp only [targetNotFound, Turn.report, Turn.note, Exchange.withStatus, hrender, if_true, h, hsome]
  exact ⟨_, rfl⟩

end NotFound

/-! ## Rendering -/

/-- The template to be rendered, if rendering is asked for and a template is there. -/
def page? (request : Request) : Option Path :=
  if request.renderRequested then request.targets.template else none

theorem render_yields_skip (site : Site) (world : World) (hopen : e.request.finished = false)
    (h : page? e.request = none) :
    ∃ reason, Yields site.render e world (.ok (.skip reason)) e world := by
  cases hrender : e.request.renderRequested with
  | false =>
      refine ⟨"render not requested", fun log => ⟨log, ?_⟩⟩
      simp [render, hopen, hrender]
  | true =>
      have htemplate : e.request.targets.template = none := by simpa [page?, hrender] using h
      refine ⟨"no template matched", fun log => ⟨log, ?_⟩⟩
      simp [render, hopen, hrender, htemplate]

section Page

variable {template : Path} (hopen : e.request.finished = false)
  (hpage : page? e.request = some template)

include hopen hpage

theorem render_eq_renderInto (log : List LogRecord) :
    site.render ⟨e, world, log⟩ = site.renderInto template ⟨e, world, log⟩ := by
  cases hrender : e.request.renderRequested with
  | false => simp [page?, hrender] at hpage
  | true =>
      have htemplate : e.request.targets.template = some template := by
        simpa [page?, hrender] using hpage
      simp [render, hopen, hrender, htemplate]

/-- The payload is no data to render. -/
theorem render_yields_unserializable {fault : SerializationFault}
    (h : e.response.payload.value = .error fault) :
    Yields site.render e world (.error (.serialization fault)) e world := by
  intro log
  refine ⟨log, ?_⟩
  rw [render_eq_renderInto hopen hpage]
  simp only [renderInto, h]

theorem render_yields_failed {data : Json} {failure : Template.Failure} {after : World}
    (h : e.response.payload.value = .ok data)
    (hrender : site.renderFile world template data = (.error failure, after)) :
    Yields site.render e world (.error (.template failure)) e after := by
  intro log
  rw [render_eq_renderInto hopen hpage]
  simp only [renderInto, h]
  rw [renderFile] at hrender
  split at hrender
  · rename_i compiled shared hcompile
    obtain ⟨htext, rfl⟩ := Prod.mk.inj hrender
    simp only [hcompile, htext]
    exact ⟨_, rfl⟩
  · rename_i fault shared hcompile
    cases hrender
    simp only [hcompile, noteCompileFailure]
    split <;> exact ⟨_, rfl⟩

theorem render_yields_page {data : Json} {text : String} {after : World}
    (h : e.response.payload.value = .ok data)
    (hrender : site.renderFile world template data = (.ok text, after)) :
    Yields site.render e world (.ok .ok)
      ⟨e.request, { e.response with rendered := some text }⟩ after := by
  intro log
  rw [render_eq_renderInto hopen hpage]
  simp only [renderInto, h]
  rw [renderFile] at hrender
  split at hrender
  · rename_i compiled shared hcompile
    obtain ⟨htext, rfl⟩ := Prod.mk.inj hrender
    simp only [hcompile, htext]
    exact ⟨_, rfl⟩
  · cases hrender

end Page

/-! ## Emitting -/

def emitStage : Stage World := .ofExchange (StageKind.name .emit) .emit fun _ => emit

theorem emit_yields_rendered {text : String} (h : e.response.rendered = some text) :
    Yields emitStage.run e world (.ok .ok) (e.answer Message.htmlType (bytesOf text)) world := by
  intro log
  refine ⟨log, ?_⟩
  simp only [emitStage, Stage.ofExchange, emit, h]

theorem emit_yields_payload {body : Bytes} (h : e.response.rendered = none)
    (hbody : e.response.payload.sent = .ok body) :
    Yields emitStage.run e world (.ok .ok) (e.answer Message.jsonType body) world := by
  intro log
  refine ⟨log, ?_⟩
  simp only [emitStage, Stage.ofExchange, emit, h, hbody]

theorem emit_yields_unserializable {fault : SerializationFault} (h : e.response.rendered = none)
    (hbody : e.response.payload.sent = .error fault) :
    Yields emitStage.run e world (.error (.serialization fault)) e world := by
  intro log
  refine ⟨log, ?_⟩
  simp only [emitStage, Stage.ofExchange, emit, h, hbody]

/-! ## Error pages -/

/-- The page that the error route has for a failure, if it has one that can be rendered. -/
def errorPage? (site : Site) (world : World) (failure : Failure) : Option String :=
  match site.renderRoute world site.router.errorRoute (errorData failure) with
  | (.ok page, _) => page
  | (.error _, _) => none

/-- A response that answers a failure: with its page as HTML, or else with the fixed text. -/
def errorResponse (site : Site) (world : World) (failure : Failure) (response : Response) : Response :=
  match site.errorPage? world failure with
  | some page => { response with status := failure.status }.write Message.htmlType (bytesOf page)
  | none => { response with status := failure.status }.write Message.textType (bytesOf errorBody)

/-- What requests share after a failure was answered. -/
def afterErrorPage (site : Site) (world : World) (failure : Failure) : World :=
  (site.renderRoute world site.router.errorRoute (errorData failure)).2

theorem exists_renderFile_eq (site : Site) (world : World) (path : Path) (data : Json) :
    ∃ templates, (site.renderFile world path data).2 = world.withTemplates templates := by
  have hcompile : ∃ templates, (site.compile world path).2 = world.withTemplates templates := ⟨_, rfl⟩
  rw [renderFile]
  split <;> rename_i heq <;> rw [heq] at hcompile <;> exact hcompile

theorem exists_renderRoute_eq (site : Site) (world : World) (route : String) (data : Json) :
    ∃ templates, (site.renderRoute world route data).2 = world.withTemplates templates := by
  rw [renderRoute]
  split
  · exact ⟨world.workshop.templates, rfl⟩
  · split
    · exact ⟨world.workshop.templates, rfl⟩
    · exact exists_renderFile_eq site world _ _

/-- All that is left of an error page, besides the answer, is what was compiled for it. -/
theorem exists_afterErrorPage_eq (site : Site) (world : World) (failure : Failure) :
    ∃ templates, site.afterErrorPage world failure = world.withTemplates templates :=
  exists_renderRoute_eq site world _ _

theorem errorPages_eq (site : Site) (failure : Failure) (turn : Turn World) :
    (site.errorPages failure turn).exchange =
        ⟨turn.exchange.request.finish, site.errorResponse turn.shared failure turn.exchange.response⟩ ∧
      (site.errorPages failure turn).shared = site.afterErrorPage turn.shared failure := by
  rw [errorPages, errorResponse, errorPage?, afterErrorPage]
  cases site.renderRoute turn.shared site.router.errorRoute (errorData failure) with
  | mk result shared =>
      cases result with
      | ok page => cases page <;> exact ⟨rfl, rfl⟩
      | error fault => exact ⟨rfl, rfl⟩

/-- The answer to a failure has status 500, and a body: the page or the fixed text. -/
theorem errorResponse_spec (site : Site) (world : World) (failure : Failure) (response : Response) :
    (site.errorResponse world failure response).status = 500 ∧
      (site.errorResponse world failure response).body =
        some (bytesOf ((site.errorPage? world failure).getD errorBody)) := by
  rw [errorResponse]
  cases site.errorPage? world failure <;> exact ⟨rfl, rfl⟩

theorem isWritten_errorResponse (site : Site) (world : World) (failure : Failure)
    (response : Response) : (site.errorResponse world failure response).isWritten = true := by
  rw [Response.isWritten, (errorResponse_spec site world failure response).2]
  rfl

/-! ## A small site -/

/-- The site of the default options, but for its matcher, which has the same targets for every path. -/
def uniform (targets : Route.Targets) : Site where
  router := {}
  matcher _ _ := .ok targets
  library := Template.Library.ofRoot (RouterOptions.templateRoot {}) (RouterOptions.extensions {})
  intake := Intake.usual {}
  transport := StaticFile.fetch
  finish := Template.Schedule.inOrder
  answers := []

/-- The arrival of a request for a path, where there are these files, and one controller for `x`. -/
def arrival (path : String) (files : FileTree) (controller : Controller) : Turn World :=
  ⟨.opening (.arriving "1" "GET" ⟨none, none, path, none⟩ [] []),
    ⟨files, .opening (Route.Registry.empty.register "x" controller)⟩, []⟩

theorem eq_of_get?_arrival {path route : String} {files : FileTree} {controller other : Controller}
    (h : (arrival path files controller).shared.workshop.controllers.get? route = some other) :
    other = controller := by
  change [(Route.normalize "x", controller)].lookup (Route.normalize route) = some other at h
  rw [List.lookup_cons] at h
  split at h
  · cases h
    rfl
  · cases h

end Site

end SiteServer
