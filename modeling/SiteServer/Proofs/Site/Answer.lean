import SiteServer.Proofs.Site.Stages

/-! # What a request is answered with, found in one go.

`accept` is what becomes of a request until its targets are known, and `answer` what is made of the
targets. Neither speaks of stages, skipping or flags of a run; that a run of the default stages ends with
this answer is `ends_answer`. -/

namespace SiteServer

open Message (Exchange Request Response)
open Pipeline (At Call Handler Sink Stage StageKind StageOutput Turn Yields)

/-! ## Answers -/

/-- What came of a request: its response, the failure that was reported, and the workshop as it was left. -/
structure Answer where
  response : Response
  failure : Option Failure
  workshop : Workshop

namespace Site

/-- A request is taken in and its targets are found: the request then, and the world that is left. -/
def accept (site : Site) (world : World) (request : Request) : Except Failure (Request × World) := do
  let outcome := site.intake.parse world.files request
  outcome.result
  let after := world.withFiles outcome.files
  match outcome.request.url with
  | none => .error (.stage (some "route") .urlNotParsed)
  | some url =>
    let decision ← site.resolve after url.pathname
    return ({ outcome.request with
      targets := decision.targets
      renderRequested := outcome.request.renderRequested && decision.render }, after)

def fail (site : Site) (world : World) (failure : Failure) (response : Response) : Answer :=
  ⟨site.errorResponse world failure response, some failure,
    (site.afterErrorPage world failure).workshop⟩

/-- The answer to a request that was finished. Where nothing was written, a failure to clean up is
answered like any other. -/
def conclude (site : Site) (world : World) (e : Exchange) : Answer :=
  if e.response.isWritten then ⟨e.response, none, world.workshop⟩
  else
    let outcome := site.intake.cleanup world.files e.request
    match outcome.result with
    | .ok () => ⟨e.response, none, world.workshop⟩
    | .error failure => site.fail (world.withFiles outcome.files) failure e.response

/-- The answer to a request that is still open: the template on the payload, if it is to be rendered; else
the rendered text that is there; else the payload. -/
def complete (site : Site) (world : World) (e : Exchange) : Answer :=
  match page? e.request with
  | some template =>
    match e.response.payload.value with
    | .error fault => site.fail world (.serialization fault) e.response
    | .ok data =>
      match site.renderFile world template data with
      | (.ok text, after) =>
        ⟨{ e.response with rendered := some text }.write Message.htmlType (bytesOf text), none,
          after.workshop⟩
      | (.error failure, after) => site.fail after (.template failure) e.response
  | none =>
    match e.response.rendered with
    | some text => ⟨e.response.write Message.htmlType (bytesOf text), none, world.workshop⟩
    | none =>
      match e.response.payload.sent with
      | .ok body => ⟨e.response.write Message.jsonType body, none, world.workshop⟩
      | .error fault => site.fail world (.serialization fault) e.response

def notFound (site : Site) (world : World) (e : Exchange) : Answer :=
  let response := { e.response with status := 404 }
  let plain : Answer :=
    ⟨response.write Message.textType (bytesOf notFoundBody), none, world.workshop⟩
  if e.request.renderRequested then
    match site.resolveExact world site.router.notFoundRoute with
    | .error failure => site.fail world failure response
    | .ok targets =>
      match targets.template with
      | some template =>
        site.complete world
          ⟨{ e.request with targets := { e.request.targets with template := some template } }, response⟩
      | none => plain
  else plain

/-- The answer that a controller leads to. -/
def control (site : Site) (world : World) (e : Exchange) (controller : Controller) : Answer :=
  match controller world.files e with
  | (.error failure, left) => site.fail world failure left.response
  | (.ok (), left) =>
    if left.request.finished then site.conclude world left else site.complete world left

/-- The answer to an accepted request: its static file comes first, then its controller, then its
template. -/
def answer (site : Site) (world : World) (e : Exchange) : Answer :=
  match e.request.targets.static with
  | some path =>
    match site.transport world.files path with
    | .ok file => ⟨e.response.write file.mediaType file.content, none, world.workshop⟩
    | .error fault => site.fail world (.static path fault) e.response
  | none =>
    match e.request.targets.controller with
    | some route =>
      match world.workshop.controllers.get? route with
      | some controller => site.control world e controller
      | none => site.fail world (.stage (some "run_controller") (.controllerMissing route)) e.response
    | none =>
      match e.request.targets.template with
      | some _ => site.complete world e
      | none => site.notFound world e

/-! ## Runs of the default stages -/

def pipeline (site : Site) (sink : Sink) (clock : Nat → Binary64) : Pipeline World :=
  ⟨site.stages, site.errorPages, sink, clock⟩

end Site

namespace Pipeline

def Call.isOf (kind : StageKind) : Call → Bool
  | .stage _ k _ _ _ => k = kind
  | .handler _ _ _ => false

def controllerCalls (calls : List Call) : List Call :=
  calls.filter (Call.isOf .runController)

/-- A run ends with an answer, and after these calls of the stage that runs controllers. -/
structure Ends (pipeline : Pipeline World) (turn : Turn World) (answer : Answer)
    (controlled : List Call) : Prop where
  response : (pipeline.run turn).2.exchange.response = answer.response
  failure : (pipeline.run turn).1.failure = answer.failure
  workshop : (pipeline.run turn).2.shared.workshop = answer.workshop
  controlled : controllerCalls (pipeline.calls turn) = controlled

variable {pipeline : Pipeline World} {turn : Turn World} {answer : Answer} {calls : List Call}
  {entry exit : Exchange}

theorem controllerCalls_other {place : Nat} {kind : StageKind}
    {result : Except Failure StageOutput} (h : kind ≠ .runController) :
    controllerCalls (calls ++ [.stage place kind entry result exit]) = controllerCalls calls := by
  simp [controllerCalls, List.filter_append, Call.isOf, h]

/-- Calls of other stages do not count. -/
theorem Ends.ofOther {place : Nat} {kind : StageKind} {result : Except Failure StageOutput}
    (h : Ends pipeline turn answer
      (controllerCalls (calls ++ [.stage place kind entry result exit])))
    (hkind : kind ≠ .runController) : Ends pipeline turn answer (controllerCalls calls) := by
  rwa [controllerCalls_other hkind] at h

/-- Neither do those of the handler. -/
theorem Ends.ofHandler {call : Call} {failure : Failure}
    (h : Ends pipeline turn answer
      (controllerCalls (calls ++ [call, .handler failure entry exit]))) :
    Ends pipeline turn answer (controllerCalls (calls ++ [call])) := by
  rw [List.append_cons, controllerCalls, List.filter_append] at h
  rwa [show [Call.handler failure entry exit].filter (Call.isOf .runController) = [] from rfl,
    List.append_nil] at h

end Pipeline

open Pipeline (Ends controllerCalls controllerCalls_other)

namespace Site

variable {site : Site} {sink : Sink} {clock : Nat → Binary64} {turn : Turn World} {place : Nat}
  {e : Exchange} {world : World} {calls : List Call}

theorem exists_stage (site : Site) (sink : Sink) (clock : Nat → Binary64) {place : Nat}
    (h : place < 6) :
    ∃ stage, (site.pipeline sink clock).stages[place]? = some stage ∧ stage.kind ≠ .cleanup := by
  match place, h with
  | 0, _ => exact ⟨_, rfl, nofun⟩
  | 1, _ => exact ⟨_, rfl, nofun⟩
  | 2, _ => exact ⟨_, rfl, nofun⟩
  | 3, _ => exact ⟨_, rfl, nofun⟩
  | 4, _ => exact ⟨_, rfl, nofun⟩
  | 5, _ => exact ⟨_, rfl, nofun⟩

/-- All stages up to the one that cleans up are passed over. -/
theorem at_cleanup {failure : Option Failure}
    (h : At (site.pipeline sink clock) turn place e world failure calls) (hle : place ≤ 6)
    (hdone : failure ≠ none ∨ e.request.finished = true) :
    At (site.pipeline sink clock) turn 6 e world failure calls := by
  -- By induction on the number of stages that are passed over.
  have hlater : ∀ passed, place + passed ≤ 6 →
      At (site.pipeline sink clock) turn (place + passed) e world failure calls := by
    intro passed
    induction passed with
    | zero => exact fun _ => h
    | succ passed ih =>
        intro hlt
        obtain ⟨stage, hs, hkind⟩ := exists_stage site sink clock hlt
        exact (ih (Nat.le_of_lt hlt)).pass hs hkind hdone
  have hsix := hlater (6 - place) (by omega)
  rwa [Nat.add_sub_cancel' hle] at hsix

theorem ends_of_at {failure : Option Failure}
    (h : At (site.pipeline sink clock) turn 7 e world failure calls) :
    Ends (site.pipeline sink clock) turn ⟨e.response, failure, world.workshop⟩
      (controllerCalls calls) := by
  obtain ⟨hexchange, hshared, hfailure, hcalls⟩ := At.run_eq h
  exact ⟨by rw [hexchange], hfailure, by rw [hshared], by rw [hcalls]⟩

/-- A failure was answered, and cleaning up follows. -/
theorem ends_of_answered {failure : Failure}
    (h : At (site.pipeline sink clock) turn place e world (some failure) calls) (hle : place ≤ 6) :
    Ends (site.pipeline sink clock) turn ⟨e.response, some failure, world.workshop⟩
      (controllerCalls calls) := by
  have hend := ends_of_at ((at_cleanup h hle (.inl nofun)).call rfl (.inl rfl)
    (cleanup_yields site world e) fun _ _ => .inl nofun)
  exact hend.ofOther nofun

/-- The error pages answer the failure of a stage. -/
theorem at_answered {stage : Stage World} {failure : Failure} {exit : Exchange} {left : World}
    (h : At (site.pipeline sink clock) turn place e world none calls)
    (hs : (site.pipeline sink clock).stages[place]? = some stage)
    (hasked : stage.kind = .cleanup ∨ e.request.finished = false)
    (hyields : Yields stage.run e world (.error failure) exit left)
    (hpending : ¬ (stage.kind = .cleanup ∧ exit.response.isWritten = true)) :
    ∃ handled, handled.response = site.errorResponse left failure exit.response ∧
      At (site.pipeline sink clock) turn (place + 1) handled (site.afterErrorPage left failure)
        (some failure) (calls ++
          [.stage place stage.kind e (.error failure) exit, .handler failure exit handled]) := by
  obtain ⟨log, handled, rfl, hat⟩ := h.hand hs hasked hyields hpending
  obtain ⟨hexchange, hshared⟩ := errorPages_eq site failure ⟨exit, left, log⟩
  rw [← hshared]
  exact ⟨_, congrArg Exchange.response hexchange, hat⟩

/-- A stage fails, and its failure is answered. -/
theorem ends_fail {stage : Stage World} {failure : Failure} {exit : Exchange} {left : World}
    (h : At (site.pipeline sink clock) turn place e world none calls) (hlt : place < 6)
    (hs : (site.pipeline sink clock).stages[place]? = some stage) (hopen : e.request.finished = false)
    (hyields : Yields stage.run e world (.error failure) exit left) :
    Ends (site.pipeline sink clock) turn (site.fail left failure exit.response)
      (controllerCalls (calls ++ [.stage place stage.kind e (.error failure) exit])) := by
  have hkind : stage.kind ≠ .cleanup := by
    obtain ⟨other, hother, hkind⟩ := exists_stage site sink clock hlt
    cases hother.symm.trans hs
    exact hkind
  obtain ⟨handled, hresponse, hat⟩ := at_answered h hs (.inr hopen) hyields fun hc => hkind hc.1
  have hend := ends_of_answered hat hlt
  rw [hresponse] at hend
  exact hend.ofHandler

/-- The response of a finished request stands if it is written or cleaning up succeeds. -/
theorem conclude_eq (h : e.response.isWritten = true ∨
    (site.intake.cleanup world.files e.request).result = .ok ()) :
    site.conclude world e = ⟨e.response, none, world.workshop⟩ := by
  rw [conclude]
  rcases h with hwritten | hclean
  · rw [if_pos hwritten]
  · simp only [hclean, ite_self]

theorem conclude_eq_fail {failure : Failure} (h : e.response.isWritten = false)
    (hclean : (site.intake.cleanup world.files e.request).result = .error failure) :
    site.conclude world e = site.fail
      (world.withFiles (site.intake.cleanup world.files e.request).files) failure e.response := by
  rw [conclude, if_neg (by simp [h])]
  simp only [hclean]

/-- A stage finished the request. -/
theorem ends_conclude (h : At (site.pipeline sink clock) turn place e world none calls)
    (hle : place ≤ 6) (hdone : e.request.finished = true) :
    Ends (site.pipeline sink clock) turn (site.conclude world e) (controllerCalls calls) := by
  have hsix := at_cleanup h hle (.inr hdone)
  have hyields := cleanup_yields site world e
  by_cases hexcuse : e.response.isWritten = true ∨
      (site.intake.cleanup world.files e.request).result = .ok ()
  · have hend := ends_of_at (hsix.call rfl (.inl rfl) hyields fun fault hfault =>
      .inr ⟨rfl, hexcuse.resolve_right fun hclean => by rw [hclean] at hfault; cases hfault⟩)
    rw [conclude_eq hexcuse]
    exact hend.ofOther nofun
  · obtain ⟨hunwritten, hfailed⟩ := not_or.mp hexcuse
    cases hresult : (site.intake.cleanup world.files e.request).result with
    | ok _ => exact absurd hresult hfailed
    | error failure =>
        rw [hresult] at hyields
        obtain ⟨handled, hresponse, hat⟩ :=
          at_answered hsix rfl (.inl rfl) hyields fun hc => hunwritten hc.2
        have hend := ends_of_at hat
        rw [hresponse] at hend
        rw [conclude_eq_fail (Bool.eq_false_iff.mpr hunwritten) hresult]
        exact hend.ofHandler.ofOther nofun

/-! ## Rendering and emitting -/

theorem ends_emitted {contentType : String} {body : Bytes}
    (h : At (site.pipeline sink clock) turn 5 e world none calls) (hopen : e.request.finished = false)
    (hyields : Yields emitStage.run e world (.ok .ok) (e.answer contentType body) world) :
    Ends (site.pipeline sink clock) turn ⟨e.response.write contentType body, none, world.workshop⟩
      (controllerCalls calls) := by
  have hend := ends_conclude (h.call rfl (.inr ⟨rfl, hopen⟩) hyields nofun) (Nat.le_refl 6) rfl
  rw [conclude_eq (.inl rfl)] at hend
  exact hend.ofOther nofun

theorem ends_complete (h : At (site.pipeline sink clock) turn 4 e world none calls)
    (hopen : e.request.finished = false) :
    Ends (site.pipeline sink clock) turn (site.complete world e) (controllerCalls calls) := by
  have hs : (site.pipeline sink clock).stages[4]? =
      some ⟨StageKind.name .render, .render, site.render⟩ := rfl
  have hasked : StageKind.render = .cleanup ∨ (none : Option Failure) = none ∧
      e.request.finished = false := .inr ⟨rfl, hopen⟩
  rw [complete]
  cases hpage : page? e.request with
  | none =>
      obtain ⟨reason, hskip⟩ := render_yields_skip site world hopen hpage
      have hfive := h.call hs hasked hskip nofun
      cases hrendered : e.response.rendered with
      | some text =>
          exact (ends_emitted hfive hopen (emit_yields_rendered hrendered)).ofOther nofun
      | none =>
          cases hsent : e.response.payload.sent with
          | ok body =>
              exact (ends_emitted hfive hopen (emit_yields_payload hrendered hsent)).ofOther nofun
          | error fault =>
              exact ((ends_fail hfive (by decide) rfl hopen
                (emit_yields_unserializable hrendered hsent)).ofOther nofun).ofOther nofun
  | some template =>
      cases hvalue : e.response.payload.value with
      | error fault =>
          exact (ends_fail h (by decide) hs hopen
            (render_yields_unserializable hopen hpage hvalue)).ofOther nofun
      | ok data =>
          cases hfile : site.renderFile world template data with
          | mk result after =>
              cases result with
              | error failure =>
                  simp only [hfile]
                  exact (ends_fail h (by decide) hs hopen
                    (render_yields_failed hopen hpage hvalue hfile)).ofOther nofun
              | ok text =>
                  have hfive := h.call hs hasked (render_yields_page hopen hpage hvalue hfile) nofun
                  simp only [hfile]
                  exact (ends_emitted hfive hopen (emit_yields_rendered rfl)).ofOther nofun

/-! ## Controllers -/

/-- The call of the stage that runs controllers: where a static file matched it is not called. -/
def controlled (site : Site) (world : World) (e : Exchange) : List Call :=
  match e.request.targets.static with
  | some _ => []
  | none =>
    let (result, left) := site.dispatch ⟨e, world, []⟩
    [.stage 3 .runController e result left.exchange]

theorem controlled_eq {result : Except Failure StageOutput} {exit : Exchange} {left : World}
    (hstatic : e.request.targets.static = none)
    (hyields : Yields site.dispatch e world result exit left) :
    site.controlled world e = [.stage 3 .runController e result exit] := by
  obtain ⟨later, hrun⟩ := hyields []
  simp only [controlled, hstatic, hrun]

theorem ends_controlled {answer : Answer} {result : Except Failure StageOutput} {exit : Exchange}
    {left : World} (hcalls : controllerCalls calls = []) (hstatic : e.request.targets.static = none)
    (hyields : Yields site.dispatch e world result exit left)
    (hends : Ends (site.pipeline sink clock) turn answer
      (controllerCalls (calls ++ [.stage 3 .runController e result exit]))) :
    Ends (site.pipeline sink clock) turn answer (site.controlled world e) := by
  rw [controlled_eq hstatic hyields]
  rwa [controllerCalls, List.filter_append, ← controllerCalls, hcalls, List.nil_append] at hends

section Dispatch

variable (h : At (site.pipeline sink clock) turn 3 e world none calls)
  (hopen : e.request.finished = false) (hcalls : controllerCalls calls = [])
  (hstatic : e.request.targets.static = none)

include h hopen hcalls hstatic

theorem ends_dispatch_fail {failure : Failure} {exit : Exchange}
    (hyields : Yields site.dispatch e world (.error failure) exit world) :
    Ends (site.pipeline sink clock) turn (site.fail world failure exit.response)
      (site.controlled world e) :=
  ends_controlled hcalls hstatic hyields (ends_fail h (by decide) rfl hopen hyields)

theorem ends_dispatch_conclude {output : StageOutput} {exit : Exchange}
    (hyields : Yields site.dispatch e world (.ok output) exit world)
    (hdone : exit.request.finished = true) :
    Ends (site.pipeline sink clock) turn (site.conclude world exit) (site.controlled world e) :=
  ends_controlled hcalls hstatic hyields
    (ends_conclude (h.call rfl (.inr ⟨rfl, hopen⟩) hyields nofun) (by decide) hdone)

theorem ends_dispatch_complete {output : StageOutput} {exit : Exchange}
    (hyields : Yields site.dispatch e world (.ok output) exit world)
    (hleft : exit.request.finished = false) :
    Ends (site.pipeline sink clock) turn (site.complete world exit) (site.controlled world e) :=
  ends_controlled hcalls hstatic hyields
    (ends_complete (h.call rfl (.inr ⟨rfl, hopen⟩) hyields nofun) hleft)

theorem ends_control {route : String} {controller : Controller}
    (hroute : e.request.targets.controller = some route)
    (hget : world.workshop.controllers.get? route = some controller) :
    Ends (site.pipeline sink clock) turn (site.control world e controller)
      (site.controlled world e) := by
  rw [control]
  cases hrun : controller world.files e with
  | mk result left =>
      have hyields := dispatch_yields_controller site hroute hget hrun
      cases result with
      | error failure => exact ends_dispatch_fail h hopen hcalls hstatic hyields
      | ok _ =>
          cases hleft : left.request.finished with
          | true =>
              simp only [hleft, if_true]
              exact ends_dispatch_conclude h hopen hcalls hstatic hyields hleft
          | false =>
              simp only [hleft, Bool.false_eq_true, if_false]
              exact ends_dispatch_complete h hopen hcalls hstatic hyields hleft

theorem ends_notFound (hcontroller : e.request.targets.controller = none)
    (htemplate : e.request.targets.template = none) :
    Ends (site.pipeline sink clock) turn (site.notFound world e) (site.controlled world e) := by
  have hplain : Yields site.dispatch e world (.ok .ok)
        ((e.withStatus 404).answer Message.textType (bytesOf notFoundBody)) world →
      Ends (site.pipeline sink clock) turn
        ⟨{ e.response with status := 404 }.write Message.textType (bytesOf notFoundBody), none,
          world.workshop⟩ (site.controlled world e) := by
    intro hyields
    have hend := ends_dispatch_conclude h hopen hcalls hstatic hyields rfl
    rwa [conclude_eq (.inl rfl)] at hend
  rw [notFound]
  cases hrender : e.request.renderRequested with
  | false => exact hplain (dispatch_yields_quiet hcontroller htemplate hstatic hrender)
  | true =>
      simp only [if_true]
      cases hresolve : site.resolveExact world site.router.notFoundRoute with
      | error failure =>
          have hend := ends_dispatch_fail h hopen hcalls hstatic
            (dispatch_yields_unresolved hcontroller htemplate hstatic hrender hresolve)
          exact hend
      | ok targets =>
          cases hpage : targets.template with
          | none =>
              simp only [hpage]
              exact hplain
                (dispatch_yields_plain hcontroller htemplate hstatic hrender hresolve hpage)
          | some template =>
              simp only [hpage]
              exact ends_dispatch_complete h hopen hcalls hstatic
                (dispatch_yields_substitute hcontroller htemplate hstatic hrender hresolve hpage) hopen

end Dispatch

/-! ## Accepted requests -/

theorem accept_eq_ok_iff {request routed : Request} {after : World} :
    site.accept world request = .ok (routed, after) ↔
      ∃ url decision, (site.intake.parse world.files request).result = .ok () ∧
        (site.intake.parse world.files request).request.url = some url ∧
        site.resolve (world.withFiles (site.intake.parse world.files request).files) url.pathname =
          .ok decision ∧
        routed = { (site.intake.parse world.files request).request with
          targets := decision.targets
          renderRequested := (site.intake.parse world.files request).request.renderRequested &&
            decision.render } ∧
        after = world.withFiles (site.intake.parse world.files request).files := by
  simp only [accept]
  cases hparsed : (site.intake.parse world.files request).result with
  | error failure => simp [bind, Except.bind]
  | ok _ =>
      cases hurl : (site.intake.parse world.files request).request.url with
      | none => simp [bind, Except.bind]
      | some url =>
          cases hresolve : site.resolve
            (world.withFiles (site.intake.parse world.files request).files) url.pathname with
          | error failure => simp [bind, Except.bind, hresolve]
          | ok decision => simp [bind, Except.bind, pure, Except.pure, hresolve, eq_comm]

theorem at_accepted (sink : Sink) (clock : Nat → Binary64) {routed : Request} {after : World}
    (hopen : turn.exchange.request.finished = false) (hrouted : routed.finished = false)
    (h : site.accept turn.shared turn.exchange.request = .ok (routed, after)) :
    ∃ calls, At (site.pipeline sink clock) turn 2 ⟨routed, turn.exchange.response⟩ after none calls ∧
      controllerCalls calls = [] ∧ Pipeline.placesOf calls = [0, 1] := by
  obtain ⟨url, decision, hparsed, hurl, hresolve, rfl, rfl⟩ := accept_eq_ok_iff.mp h
  have hparse := parse_yields site turn.shared turn.exchange
  rw [hparsed] at hparse
  have hone := (Pipeline.at_start (site.pipeline sink clock) turn).call rfl (.inr ⟨rfl, hopen⟩)
    hparse nofun
  have htwo := hone.call rfl (.inr ⟨rfl, hrouted⟩) (route_yields hurl hresolve) nofun
  exact ⟨_, htwo, rfl, rfl⟩

/-- A run of the default stages on an accepted request ends with the answer to it. -/
theorem ends_answer (sink : Sink) (clock : Nat → Binary64) {routed : Request} {after : World}
    (hopen : turn.exchange.request.finished = false) (hrouted : routed.finished = false)
    (h : site.accept turn.shared turn.exchange.request = .ok (routed, after)) :
    Ends (site.pipeline sink clock) turn (site.answer after ⟨routed, turn.exchange.response⟩)
      (site.controlled after ⟨routed, turn.exchange.response⟩) := by
  obtain ⟨calls, htwo, hcalls, _⟩ := at_accepted sink clock hopen hrouted h
  have hs : (site.pipeline sink clock).stages[2]? =
      some ⟨StageKind.name .serveStatic, .serveStatic, site.serveStatic⟩ := rfl
  have hasked : StageKind.serveStatic = .cleanup ∨ (none : Option Failure) = none ∧
      routed.finished = false := .inr ⟨rfl, hrouted⟩
  rw [answer]
  cases hstatic : routed.targets.static with
  | some path =>
      have hnone : site.controlled after ⟨routed, turn.exchange.response⟩ = controllerCalls calls := by
        rw [hcalls, controlled]
        simp only [hstatic]
      rw [hnone]
      cases hfile : site.transport after.files path with
      | error fault =>
          simp only [hfile]
          exact (ends_fail htwo (by decide) hs hrouted
            (serveStatic_yields_unsent hstatic hfile)).ofOther nofun
      | ok file =>
          simp only [hfile]
          have hend := ends_conclude
            (htwo.call hs hasked (serveStatic_yields_sent hstatic hfile) nofun) (by decide) rfl
          rw [conclude_eq (.inl rfl)] at hend
          exact hend.ofOther nofun
  | none =>
      have hthree := htwo.call hs hasked (serveStatic_yields_skip hstatic) nofun
      have hquiet : controllerCalls (calls ++ [.stage 2 .serveStatic ⟨routed, turn.exchange.response⟩
          (.ok (.skip "no static file matched")) ⟨routed, turn.exchange.response⟩]) = [] := by
        rw [controllerCalls_other, hcalls]
        nofun
      cases hcontroller : routed.targets.controller with
      | some route =>
          cases hget : after.workshop.controllers.get? route with
          | some controller =>
              simp only [hget]
              exact ends_control hthree hrouted hquiet hstatic hcontroller hget
          | none =>
              simp only [hget]
              have hend := ends_dispatch_fail hthree hrouted hquiet hstatic
                (dispatch_yields_missing hcontroller hget)
              exact hend
      | none =>
          cases htemplate : routed.targets.template with
          | some template =>
              exact ends_dispatch_complete hthree hrouted hquiet hstatic
                (dispatch_yields_template hcontroller htemplate) hrouted
          | none =>
              exact ends_notFound hthree hrouted hquiet hstatic hcontroller htemplate

/-! ## The small site -/

theorem resolve_uniform (targets : Route.Targets) (world : World) (path : String) :
    (uniform targets).resolve world path =
      .ok ⟨targets, !Route.wantsData (Route.asked path)⟩ := by
  rw [resolve, Route.resolve, Route.asks]
  cases Route.wantsData (Route.asked path) with
  | false => rfl
  | true =>
      obtain ⟨controller, template, static⟩ := targets
      cases static <;> rfl

/-- The request that arrives at the small site, as routing leaves it. -/
def routedAt (path : String) (targets : Route.Targets) : Request :=
  { Request.arriving "1" "GET" ⟨none, none, path, none⟩ [] [] with
    url := some ⟨path, []⟩
    targets
    renderRequested := !Route.wantsData (Route.asked path) }

theorem accept_uniform (targets : Route.Targets) (path : String) (files : FileTree)
    (controller : Controller) :
    (uniform targets).accept (arrival path files controller).shared
      (arrival path files controller).exchange.request =
        .ok (routedAt path targets, (arrival path files controller).shared) := by
  have hresolve := resolve_uniform targets (arrival path files controller).shared path
  rw [routedAt]
  generalize Route.wantsData (Route.asked path) = data at hresolve ⊢
  exact accept_eq_ok_iff.mpr ⟨⟨path, []⟩, ⟨targets, !data⟩, rfl, rfl, hresolve, rfl, rfl⟩

end Site

end SiteServer
