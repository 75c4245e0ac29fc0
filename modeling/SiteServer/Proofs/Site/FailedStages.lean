import SiteServer.Proofs.Site.Frame

/-! # Failed stages leave nothing half done.

`Exit` lists the ways in which a default stage fails, each with what the stage has done by then. No way out
lies behind a change of the response, but for the status of a response to a request for which nothing
matched. -/

namespace SiteServer

open Message (Exchange Request Response)
open Pipeline (Stage StageKind StageOutput Turn Yields)

namespace Site

variable {site : Site} {turn left : Turn World} {failure : Failure}

/-! ## Ways to fail -/

/-- A way in which the default stage of a kind fails on a turn, and the exchange that it leaves. -/
inductive Exit (site : Site) (turn : Turn World) : StageKind → Failure → Exchange → Prop
  | refused {failure : Failure}
      (result : (site.intake.parse turn.shared.files turn.exchange.request).result = .error failure) :
      Exit site turn .parse failure
        ⟨(site.intake.parse turn.shared.files turn.exchange.request).request, turn.exchange.response⟩
  | urlNotParsed (parsed : turn.exchange.request.url = none) :
      Exit site turn .route (.stage (some "route") .urlNotParsed) turn.exchange
  | unrouted {url : Message.ParsedUrl} {failure : Failure} (parsed : turn.exchange.request.url = some url)
      (resolved : site.resolve turn.shared url.pathname = .error failure) :
      Exit site turn .route failure turn.exchange
  | unsent {path : Path} {fault : IoFault} (matched : turn.exchange.request.targets.static = some path)
      (fetched : site.transport turn.shared.files path = .error fault) :
      Exit site turn .serveStatic (.static path fault)
        ⟨turn.exchange.request.finish, turn.exchange.response⟩
  | unregistered {route : String} (matched : turn.exchange.request.targets.controller = some route)
      (registered : turn.shared.workshop.controllers.get? route = none) :
      Exit site turn .runController (.stage (some "run_controller") (.controllerMissing route)) turn.exchange
  | controlled {route : String} {controller : Controller} {failure : Failure} {left : Exchange}
      (matched : turn.exchange.request.targets.controller = some route)
      (registered : turn.shared.workshop.controllers.get? route = some controller)
      (ran : controller turn.shared.files turn.exchange = (.error failure, left)) :
      Exit site turn .runController failure left
  | unresolved {failure : Failure} (nothing : turn.exchange.request.targets.isEmpty = true)
      (asked : turn.exchange.request.renderRequested = true)
      (resolved : site.resolveExact turn.shared site.router.notFoundRoute = .error failure) :
      Exit site turn .runController failure (turn.exchange.withStatus 404)
  | noData {fault : SerializationFault} (value : turn.exchange.response.payload.value = .error fault) :
      Exit site turn .render (.serialization fault) turn.exchange
  | uncompiled {template : Path} {fault : Template.Failure}
      (matched : turn.exchange.request.targets.template = some template)
      (compiled : (site.compile turn.shared template).1 = .error fault) :
      Exit site turn .render (.template fault) turn.exchange
  | unrendered {path : Path} {template : Template} {data : Json} {fault : Template.Failure}
      (matched : turn.exchange.request.targets.template = some path)
      (value : turn.exchange.response.payload.value = .ok data)
      (compiled : (site.compile turn.shared path).1 = .ok template)
      (rendered : template.render data = .error fault) :
      Exit site turn .render (.template fault) turn.exchange
  | noText {fault : SerializationFault} (rendered : turn.exchange.response.rendered = none)
      (sent : turn.exchange.response.payload.sent = .error fault) :
      Exit site turn .emit (.serialization fault) turn.exchange
  | unreleased {failure : Failure}
      (result : (site.intake.cleanup turn.shared.files turn.exchange.request).result = .error failure) :
      Exit site turn .cleanup failure
        ⟨(site.intake.cleanup turn.shared.files turn.exchange.request).request, turn.exchange.response⟩

theorem exit_of_parse (h : site.parse turn = (.error failure, left)) :
    Exit site turn .parse failure left.exchange := by
  rw [parse] at h
  cases hresult : (site.intake.parse turn.shared.files turn.exchange.request).result with
  | ok done =>
      simp only [hresult] at h
      cases h
  | error fault =>
      simp only [hresult] at h
      cases h
      exact .refused hresult

theorem exit_of_route (h : site.route turn = (.error failure, left)) :
    Exit site turn .route failure left.exchange := by
  simp only [route] at h
  split at h
  · rename_i hparsed
    cases h
    exact .urlNotParsed hparsed
  · rename_i url hparsed
    split at h
    · rename_i fault hresolved
      cases h
      exact .unrouted hparsed hresolved
    · cases h

theorem exit_of_serveStatic (h : site.serveStatic turn = (.error failure, left)) :
    Exit site turn .serveStatic failure left.exchange := by
  simp only [serveStatic] at h
  split at h
  · cases h
  · rename_i path hmatched
    split at h
    · rename_i fault hfetched
      cases h
      exact .unsent hmatched hfetched
    · cases h

theorem exit_of_targetNotFound (hnothing : turn.exchange.request.targets.isEmpty = true)
    (h : site.targetNotFound turn = (.error failure, left)) :
    Exit site turn .runController failure left.exchange := by
  simp only [targetNotFound] at h
  split at h
  · rename_i hasked
    split at h
    · rename_i fault hresolved
      cases h
      exact .unresolved hnothing hasked hresolved
    · split at h <;> cases h
  · cases h

theorem exit_of_dispatch (h : site.dispatch turn = (.error failure, left)) :
    Exit site turn .runController failure left.exchange := by
  simp only [dispatch] at h
  split at h
  · rename_i route _ _ hmatched
    split at h
    · rename_i controller hregistered
      rw [runController] at h
      cases hran : controller turn.shared.files turn.exchange with
      | mk result exchange =>
          rw [hran] at h
          cases result with
          | ok done => cases h
          | error fault =>
              cases h
              exact .controlled hmatched hregistered hran
    · rename_i hregistered
      cases h
      exact .unregistered hmatched hregistered
  · cases h
  · cases h
  · rename_i hcontroller htemplate hstatic
    refine exit_of_targetNotFound ?_ h
    simp [Route.Targets.isEmpty, hcontroller, htemplate, hstatic]

theorem exit_of_renderInto {template : Path}
    (hmatched : turn.exchange.request.targets.template = some template)
    (h : site.renderInto template turn = (.error failure, left)) :
    Exit site turn .render failure left.exchange := by
  simp only [renderInto] at h
  split at h
  · rename_i fault hvalue
    cases h
    exact .noData hvalue
  · rename_i data hvalue
    split at h
    · rename_i fault hcompiled
      cases h
      rw [(noteCompileFailure_frame _ fault).1]
      exact .uncompiled hmatched hcompiled
    · rename_i compiled hcompiled
      split at h
      · rename_i fault hrendered
        cases h
        exact .unrendered hmatched hvalue hcompiled hrendered
      · cases h

theorem exit_of_render (h : site.render turn = (.error failure, left)) :
    Exit site turn .render failure left.exchange := by
  simp only [render] at h
  split at h
  · cases h
  · split at h
    · cases h
    · split at h
      · cases h
      · rename_i template hmatched
        exact exit_of_renderInto hmatched h

theorem exit_of_emit (h : emitStage.run turn = (.error failure, left)) :
    Exit site turn .emit failure left.exchange := by
  simp only [emitStage, Stage.ofExchange, emit] at h
  split at h
  · cases h
  · rename_i hrendered
    split at h
    · cases h
    · rename_i fault hsent
      cases h
      exact .noText hrendered hsent

theorem exit_of_cleanup (h : site.cleanup turn = (.error failure, left)) :
    Exit site turn .cleanup failure left.exchange := by
  simp only [cleanup] at h
  split at h
  · cases h
  · rename_i fault hresult
    cases h
    exact .unreleased hresult

/-- A default stage fails in one of these ways. -/
theorem exit_of_failed {stage : Stage World} (hstage : stage ∈ site.stages)
    (h : stage.run turn = (.error failure, left)) : Exit site turn stage.kind failure left.exchange := by
  rw [stages_eq] at hstage
  simp only [List.mem_cons, List.not_mem_nil, or_false] at hstage
  rcases hstage with rfl | rfl | rfl | rfl | rfl | rfl | rfl
  · exact exit_of_parse h
  · exact exit_of_route h
  · exact exit_of_serveStatic h
  · exact exit_of_dispatch h
  · exact exit_of_render h
  · exact exit_of_emit h
  · exact exit_of_cleanup h

/-! ## What is left -/

/-- A registered controller was run and failed by itself: what is left is what it left. -/
def FailedInController (kind : StageKind) (turn : Turn World) (failure : Failure) (left : Exchange) : Prop :=
  kind = .runController ∧ ∃ route controller, turn.exchange.request.targets.controller = some route ∧
    turn.shared.workshop.controllers.get? route = some controller ∧
      controller turn.shared.files turn.exchange = (.error failure, left)

/-- The response is the one before the stage, except that a stage that runs controllers has made it a 404 when
it failed to resolve the not-found route. The request is finished or not as before, except that a stage that
sends static files has finished it; where the stage hands the request to the intake, this has to leave that as it
is, as the usual one does. -/
structure NothingHalfDone (site : Site) (kind : StageKind) (turn : Turn World) (failure : Failure)
    (left : Exchange) : Prop where
  headers : left.response.headers = turn.exchange.response.headers
  body : left.response.body = turn.exchange.response.body
  payload : left.response.payload = turn.exchange.response.payload
  rendered : left.response.rendered = turn.exchange.response.rendered
  status : left.response.status = turn.exchange.response.status ∨
    kind = .runController ∧ left.response.status = 404 ∧
      site.resolveExact turn.shared site.router.notFoundRoute = .error failure
  sent : kind = .serveStatic → left.request.finished = true
  finished : kind ≠ .serveStatic → (kind = .parse ∨ kind = .cleanup → site.intake.KeepsFinished) →
    left.request.finished = turn.exchange.request.finished

theorem Exit.nothingHalfDone {kind : StageKind} {left : Exchange} (h : Exit site turn kind failure left) :
    FailedInController kind turn failure left ∨ NothingHalfDone site kind turn failure left := by
  cases h with
  | refused =>
      exact .inr ⟨rfl, rfl, rfl, rfl, .inl rfl, nofun, fun _ hintake => (hintake (.inl rfl)).parse _ _⟩
  | unsent => exact .inr ⟨rfl, rfl, rfl, rfl, .inl rfl, fun _ => rfl, fun hkind => absurd rfl hkind⟩
  | controlled matched registered ran => exact .inl ⟨rfl, _, _, matched, registered, ran⟩
  | unresolved _ _ resolved =>
      exact .inr ⟨rfl, rfl, rfl, rfl, .inr ⟨rfl, rfl, resolved⟩, nofun, fun _ _ => rfl⟩
  | unreleased =>
      exact .inr ⟨rfl, rfl, rfl, rfl, .inl rfl, nofun, fun _ hintake => (hintake (.inr rfl)).cleanup _ _⟩
  | urlNotParsed | unrouted | unregistered | noData | uncompiled | unrendered | noText =>
      exact .inr ⟨rfl, rfl, rfl, rfl, .inl rfl, nofun, fun _ _ => rfl⟩

/-- A default stage that fails leaves the response as it found it, unless that was done by a controller. Where
the intake is the usual one, only a stage that sends static files changes whether the request is finished. -/
theorem failed_stage_leaves_response {stage : Stage World} (hstage : stage ∈ site.stages)
    (h : stage.run turn = (.error failure, left)) :
    FailedInController stage.kind turn failure left.exchange ∨
      NothingHalfDone site stage.kind turn failure left.exchange ∧
        ∀ options, site.intake = .usual options → stage.kind ≠ .serveStatic →
          left.exchange.request.finished = turn.exchange.request.finished := by
  refine (exit_of_failed hstage h).nothingHalfDone.imp_right fun hleft => ⟨hleft, ?_⟩
  intro options husual hkind
  have hkeeps : site.intake.KeepsFinished := by
    rw [husual]
    exact Intake.usual_keepsFinished options
  exact hleft.finished hkind fun _ => hkeeps

/-! ## A route that cannot be resolved -/

def unanswering : Site :=
  { uniform .none with matcher := fun _ path => .error ⟨path, "table is gone"⟩ }

/-- A request for which nothing matched, with a response that was begun. -/
def begun : Turn World where
  exchange := ⟨.arriving "1" "GET" ⟨none, none, "/x", none⟩ [] [],
    { status := 201, headers := [("x-trace", [49])], payload := .text "kept", rendered := some "kept",
      body := some [49] }⟩
  shared := ⟨⟨[]⟩, .opening .empty⟩
  log := []

theorem failed_stage_leaves_response_unresolved :
    ∃ left, unanswering.dispatch begun = (.error (.resolution ⟨"/404", "table is gone"⟩), left) ∧
      NothingHalfDone unanswering .runController begun (.resolution ⟨"/404", "table is gone"⟩)
        left.exchange ∧
      left.exchange.response = { begun.exchange.response with status := 404 } := by
  have hyields : Yields unanswering.dispatch begun.exchange begun.shared
      (.error (.resolution ⟨"/404", "table is gone"⟩)) (begun.exchange.withStatus 404) begun.shared :=
    dispatch_yields_unresolved rfl rfl rfl rfl rfl
  obtain ⟨log, hrun⟩ := hyields begun.log
  have hstage : ⟨StageKind.name .runController, .runController, unanswering.dispatch⟩ ∈ unanswering.stages :=
    by simp [stages_eq]
  refine ⟨_, hrun, ((failed_stage_leaves_response hstage hrun).resolve_left ?_).1, rfl⟩
  rintro ⟨_, _, _, hmatched, _⟩
  cases hmatched

end Site

end SiteServer
