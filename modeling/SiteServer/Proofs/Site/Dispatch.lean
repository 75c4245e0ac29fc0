import SiteServer.Proofs.Site.Answer

/-! # What becomes of a request whose targets are known.

A static file that can be sent comes first, then the controller, then the template. What a controller
leaves open is completed: by its template on the payload, by the rendered text that is there, or by the
payload. -/

namespace SiteServer

open Message (Exchange Request Response)
open Pipeline (At Call Ends Sink StageOutput Turn Yields controllerCalls placesOf)

namespace Site

structure Completes (site : Site) (world : World) (e : Exchange) (ends : Answer → Prop) : Prop where
  /-- A template that is to be rendered is rendered on the payload, as HTML. -/
  page : ∀ template data text after, page? e.request = some template →
    e.response.payload.value = .ok data → site.renderFile world template data = (.ok text, after) →
      ends ⟨{ e.response with rendered := some text }.write Message.htmlType (bytesOf text), none,
        after.workshop⟩
  /-- If that fails, the failure is answered. -/
  unrendered : ∀ template data failure after, page? e.request = some template →
    e.response.payload.value = .ok data →
      site.renderFile world template data = (.error failure, after) →
        ends (site.fail after (.template failure) e.response)
  unserializable : ∀ template fault, page? e.request = some template →
    e.response.payload.value = .error fault →
      ends (site.fail world (.serialization fault) e.response)
  /-- Otherwise a rendered text is sent as it is. -/
  rendered : ∀ text, page? e.request = none → e.response.rendered = some text →
    ends ⟨e.response.write Message.htmlType (bytesOf text), none, world.workshop⟩
  /-- Otherwise the payload is sent, with the JSON content type. -/
  payload : ∀ body, page? e.request = none → e.response.rendered = none →
    e.response.payload.sent = .ok body →
      ends ⟨e.response.write Message.jsonType body, none, world.workshop⟩
  /-- If it has no JSON text, that failure is answered. -/
  unsendable : ∀ fault, page? e.request = none → e.response.rendered = none →
    e.response.payload.sent = .error fault →
      ends (site.fail world (.serialization fault) e.response)

theorem completes_of_complete {site : Site} {world : World} {e : Exchange} {ends : Answer → Prop}
    (h : ends (site.complete world e)) : Completes site world e ends where
  page template data text after hpage hvalue hfile := by
    simpa only [complete, hpage, hvalue, hfile] using h
  unrendered template data failure after hpage hvalue hfile := by
    simpa only [complete, hpage, hvalue, hfile] using h
  unserializable template fault hpage hvalue := by
    simpa only [complete, hpage, hvalue] using h
  rendered text hpage hrendered := by
    simpa only [complete, hpage, hrendered] using h
  payload body hpage hrendered hsent := by
    simpa only [complete, hpage, hrendered, hsent] using h
  unsendable fault hpage hrendered hsent := by
    simpa only [complete, hpage, hrendered, hsent] using h

/-- The call of the stage that runs controllers, on a request as routing left it. -/
def controllerCall (routed : Request) (result : Except Failure StageOutput) (left : Exchange) :
    Call :=
  .stage 3 .runController (.opening routed) result left

/-- A routed request, to which nothing has been answered yet, is dispatched. `ends` tells the answer and
the calls of the stage that runs controllers. -/
structure Dispatches (site : Site) (world : World) (routed : Request)
    (ends : Answer → List Call → Prop) : Prop where
  /-- A static file is sent as it is; no controller is run, nothing is compiled. -/
  sent : ∀ path file, routed.targets.static = some path →
    site.transport world.files path = .ok file →
      ends ⟨Response.fresh.write file.mediaType file.content, none, world.workshop⟩ []
  /-- If it cannot be sent, that failure is answered, and no controller is run either. -/
  unsent : ∀ path fault, routed.targets.static = some path →
    site.transport world.files path = .error fault →
      ends (site.fail world (.static path fault) .fresh) []
  /-- A controller is run once, on the exchange as routing left it. If it leaves the request open, that
  is completed with what it left. -/
  completed : ∀ route controller left, routed.targets.static = none →
    routed.targets.controller = some route →
    world.workshop.controllers.get? route = some controller →
    controller world.files (.opening routed) = (.ok (), left) → left.request.finished = false →
      Completes site world left fun answer =>
        ends answer [controllerCall routed (.ok .ok) left]
  /-- If it finishes the request, the response is what it left, if that is written or cleaning up
  succeeds. -/
  finished : ∀ route controller left, routed.targets.static = none →
    routed.targets.controller = some route →
    world.workshop.controllers.get? route = some controller →
    controller world.files (.opening routed) = (.ok (), left) → left.request.finished = true →
    (left.response.isWritten = true ∨
      (site.intake.cleanup world.files left.request).result = .ok ()) →
      ends ⟨left.response, none, world.workshop⟩ [controllerCall routed (.ok .ok) left]
  /-- If neither is so, the failure to clean up is answered. -/
  unreleased : ∀ route controller left failure, routed.targets.static = none →
    routed.targets.controller = some route →
    world.workshop.controllers.get? route = some controller →
    controller world.files (.opening routed) = (.ok (), left) → left.request.finished = true →
    left.response.isWritten = false →
    (site.intake.cleanup world.files left.request).result = .error failure →
      ends (site.fail (world.withFiles (site.intake.cleanup world.files left.request).files) failure
        left.response) [controllerCall routed (.ok .ok) left]
  /-- If it fails, that failure is answered. -/
  failed : ∀ route controller failure left, routed.targets.static = none →
    routed.targets.controller = some route →
    world.workshop.controllers.get? route = some controller →
    controller world.files (.opening routed) = (.error failure, left) →
      ends (site.fail world failure left.response) [controllerCall routed (.error failure) left]
  /-- If it is not registered, that is a failure, too. -/
  missing : ∀ route, routed.targets.static = none → routed.targets.controller = some route →
    world.workshop.controllers.get? route = none →
      ends (site.fail world (.stage (some "run_controller") (.controllerMissing route)) .fresh)
        [controllerCall routed (.error (.stage (some "run_controller") (.controllerMissing route)))
          (.opening routed)]
  /-- Where there is only a template, no controller is run, and the template is rendered on an object
  without fields, if rendering is asked for; otherwise the body is empty. -/
  template : routed.targets.static = none → routed.targets.controller = none →
    ∃ template, routed.targets.template = some template ∧
      (∀ text after, routed.renderRequested = true →
        site.renderFile world template (.object []) = (.ok text, after) →
          ends ⟨{ Response.fresh with rendered := some text }.write Message.htmlType (bytesOf text),
            none, after.workshop⟩
            [controllerCall routed (.ok (.skip "template only")) (.opening routed)]) ∧
      (∀ failure after, routed.renderRequested = true →
        site.renderFile world template (.object []) = (.error failure, after) →
          ends (site.fail after (.template failure) .fresh)
            [controllerCall routed (.ok (.skip "template only")) (.opening routed)]) ∧
      (routed.renderRequested = false →
        ends ⟨Response.fresh.write Message.jsonType [], none, world.workshop⟩
          [controllerCall routed (.ok (.skip "template only")) (.opening routed)])

section Answer

variable {site : Site} {world : World} {routed : Request} {ends : Answer → List Call → Prop}
  (h : ends (site.answer world (.opening routed)) (site.controlled world (.opening routed)))

include h

theorem ends_of_controller {route : String} {controller : Controller} {result : Except Failure Unit}
    {left : Exchange} (hstatic : routed.targets.static = none)
    (hroute : routed.targets.controller = some route)
    (hget : world.workshop.controllers.get? route = some controller)
    (hrun : controller world.files (.opening routed) = (result, left)) :
    ends (site.control world (.opening routed) controller)
      [controllerCall routed (result.map fun _ => .ok) left] := by
  have hcalls := controlled_eq hstatic (dispatch_yields_controller site hroute hget hrun)
  have hanswer : site.answer world (.opening routed) =
      site.control world (.opening routed) controller := by
    simp only [answer, Exchange.opening, hstatic, hroute, hget]
  rwa [hanswer, hcalls] at h

theorem ends_of_template {template : Path} (hstatic : routed.targets.static = none)
    (hcontroller : routed.targets.controller = none)
    (htemplate : routed.targets.template = some template) :
    ends (site.complete world (.opening routed))
      [controllerCall routed (.ok (.skip "template only")) (.opening routed)] := by
  have hyields : Yields site.dispatch (.opening routed) world (.ok (.skip "template only"))
      (.opening routed) world := dispatch_yields_template hcontroller htemplate
  have hcalls := controlled_eq hstatic hyields
  have hanswer : site.answer world (.opening routed) = site.complete world (.opening routed) := by
    simp only [answer, Exchange.opening, hstatic, hcontroller, htemplate]
  rwa [hanswer, hcalls] at h

theorem dispatches_of_answer (hfound : routed.targets.isEmpty = false) :
    Dispatches site world routed ends where
  sent path file hstatic hfile := by
    simpa only [answer, controlled, Exchange.opening, hstatic, hfile] using h
  unsent path fault hstatic hfile := by
    simpa only [answer, controlled, Exchange.opening, hstatic, hfile] using h
  completed route controller left hstatic hroute hget hrun hopen := by
    have hends := ends_of_controller h hstatic hroute hget hrun
    simp only [control, hrun, hopen] at hends
    exact completes_of_complete hends
  finished route controller left hstatic hroute hget hrun hdone hkept := by
    have hends := ends_of_controller h hstatic hroute hget hrun
    simp only [control, hrun, hdone, if_true, conclude_eq hkept] at hends
    exact hends
  unreleased route controller left failure hstatic hroute hget hrun hdone hunwritten hclean := by
    have hends := ends_of_controller h hstatic hroute hget hrun
    have hconclude := conclude_eq_fail hunwritten hclean
    simp only [control, hrun, hdone, if_true, hconclude] at hends
    exact hends
  failed route controller failure left hstatic hroute hget hrun := by
    have hends := ends_of_controller h hstatic hroute hget hrun
    simp only [control, hrun] at hends
    exact hends
  missing route hstatic hroute hget := by
    have hyields : Yields site.dispatch (.opening routed) world
        (.error (.stage (some "run_controller") (.controllerMissing route))) (.opening routed) world :=
      dispatch_yields_missing hroute hget
    have hcalls := controlled_eq hstatic hyields
    have hanswer : site.answer world (.opening routed) =
        site.fail world (.stage (some "run_controller") (.controllerMissing route)) .fresh := by
      simp only [answer, Exchange.opening, hstatic, hroute, hget]
    rwa [hanswer, hcalls] at h
  template hstatic hcontroller := by
    cases htemplate : routed.targets.template with
    | none => simp [Route.Targets.isEmpty, hstatic, hcontroller, htemplate] at hfound
    | some template =>
        have hends : Completes site world (.opening routed) fun answer => ends answer
            [controllerCall routed (.ok (.skip "template only")) (.opening routed)] :=
          completes_of_complete (ends_of_template h hstatic hcontroller htemplate)
        have hpage : routed.renderRequested = true → page? routed = some template := by
          intro hrender
          rw [page?, if_pos hrender, htemplate]
        refine ⟨template, rfl, ?_, ?_, ?_⟩
        · intro text after hrender hfile
          exact hends.page template _ text after (hpage hrender) rfl hfile
        · intro failure after hrender hfile
          exact hends.unrendered template _ failure after (hpage hrender) rfl hfile
        · intro hrender
          have hnone : page? routed = none := by
            rw [page?, hrender]
            rfl
          exact hends.payload [] hnone rfl rfl

end Answer

/-! ## Runs of the default stages -/

theorem fetch_eq_ok {tree : FileTree} {path : Path} {content : Bytes}
    (h : tree.read path = .ok content) :
    StaticFile.fetch tree path =
      .ok ⟨(StaticFile.mediaType? path).getD StaticFile.unknownType, content⟩ := by
  rw [StaticFile.fetch, h]
  rfl

/-- How a run of the default stages dispatches a request that routing left with these targets. -/
structure DispatchLaw (site : Site) (pipeline : Pipeline World) (turn : Turn World)
    (routed : Request) (after : World) : Prop where
  dispatches : Dispatches site after routed (Ends pipeline turn)
  /-- Where a static file is sent, only taking in, routing and cleaning up are called besides. -/
  alone : ∀ path file, routed.targets.static = some path →
    site.transport after.files path = .ok file → placesOf (pipeline.calls turn) = [0, 1, 2, 6]
  /-- With the usual transport, a file that can be read is sent byte by byte, with status 200. -/
  bytes : ∀ path content, site.transport = StaticFile.fetch → routed.targets.static = some path →
    after.files.read path = .ok content →
      (pipeline.run turn).2.exchange.response.status = 200 ∧
        (pipeline.run turn).2.exchange.response.body = some content

section Run

variable {site : Site} {turn : Turn World} {routed : Request} {after : World}
  (sink : Sink) (clock : Nat → Binary64)
  (hopen : turn.exchange.request.finished = false) (hrouted : routed.finished = false)
  (h : site.accept turn.shared turn.exchange.request = .ok (routed, after))

include hopen hrouted h

theorem placesOf_sent {path : Path} {file : StaticFile}
    (hstatic : routed.targets.static = some path)
    (hfile : site.transport after.files path = .ok file) :
    placesOf ((site.pipeline sink clock).calls turn) = [0, 1, 2, 6] := by
  obtain ⟨calls, htwo, _, hplaces⟩ := at_accepted sink clock hopen hrouted h
  have hthree := htwo.call rfl (.inr ⟨rfl, hrouted⟩) (serveStatic_yields_sent hstatic hfile) nofun
  have hsix := at_cleanup hthree (by decide) (.inr rfl)
  have hseven := hsix.call rfl (.inl rfl) (cleanup_yields site after _) fun _ _ => .inr ⟨rfl, rfl⟩
  rw [(At.run_eq hseven).2.2.2, placesOf, List.filterMap_append, List.filterMap_append, ← placesOf,
    hplaces]
  rfl

/-- A request that is accepted, and for which there are targets, is dispatched by a run of the default
stages. -/
theorem accepted_request_dispatched (hentry : turn.exchange.response = .fresh)
    (hfound : routed.targets.isEmpty = false) :
    DispatchLaw site (site.pipeline sink clock) turn routed after := by
  have hanswer := ends_answer sink clock hopen hrouted h
  rw [hentry] at hanswer
  have hdispatches := dispatches_of_answer hanswer hfound
  refine ⟨hdispatches, ?_, ?_⟩
  · intro path file hstatic hfile
    exact placesOf_sent sink clock hopen hrouted h hstatic hfile
  · intro path content htransport hstatic hread
    have hfile := fetch_eq_ok hread
    rw [← htransport] at hfile
    rw [(hdispatches.sent path _ hstatic hfile).response]
    exact ⟨rfl, rfl⟩

end Run

/-! ## Runs of the small site -/

def plainly (targets : Route.Targets) : Pipeline World :=
  (uniform targets).pipeline .silent fun _ => .zero

def tell : Controller := fun _ e =>
  (.ok (), { e with response := { e.response with payload := .text "told" } })

theorem told_text_dispatched :
    ((plainly ⟨some "x", none, none⟩).run (arrival "/x" .empty tell)).2.exchange.response.body =
        some (bytesOf "told") ∧
      controllerCalls ((plainly ⟨some "x", none, none⟩).calls (arrival "/x" .empty tell)) =
        [controllerCall (routedAt "/x" ⟨some "x", none, none⟩) (.ok .ok)
          (tell .empty (.opening (routedAt "/x" ⟨some "x", none, none⟩))).2] := by
  have hdispatched := (accepted_request_dispatched .silent (fun _ => .zero) rfl rfl
    (accept_uniform ⟨some "x", none, none⟩ "/x" .empty tell) rfl rfl).dispatches
  have hends := (hdispatched.completed "x" tell _ rfl rfl rfl rfl rfl).payload
    (bytesOf "told") rfl rfl rfl
  exact ⟨congrArg Response.body hends.response, hends.controlled⟩

/-- A controller that finishes the request with nothing written, and leaves behind what cannot be
removed. -/
def abandon : Controller := fun _ e => (.ok (), ⟨(e.request.track ⟨"/"⟩).finish, e.response⟩)

/-- A controller has no say where a static file matched that cannot be sent; and where it finishes a
request with nothing written, its response does not stand if cleaning up fails. -/
theorem controller_overruled :
    (StaticFile.fetch .empty ⟨"/none"⟩ = .error .notFound ∧
      controllerCalls
        ((plainly ⟨some "x", none, some ⟨"/none"⟩⟩).calls (arrival "/x" .empty tell)) = [] ∧
      ((plainly ⟨some "x", none, some ⟨"/none"⟩⟩).run
        (arrival "/x" .empty tell)).2.exchange.response.status = 500) ∧
    (abandon .empty (.opening (routedAt "/x" ⟨some "x", none, none⟩))).2.request.finished = true ∧
      (abandon .empty (.opening (routedAt "/x" ⟨some "x", none, none⟩))).2.response = .fresh ∧
      ((plainly ⟨some "x", none, none⟩).run
        (arrival "/x" .empty abandon)).2.exchange.response.status = 500 := by
  have hunsent := ends_answer .silent (fun _ => .zero) rfl rfl
    (accept_uniform ⟨some "x", none, some ⟨"/none"⟩⟩ "/x" .empty tell)
  have habandoned := ends_answer .silent (fun _ => .zero) rfl rfl
    (accept_uniform ⟨some "x", none, none⟩ "/x" .empty abandon)
  refine ⟨⟨rfl, hunsent.controlled, ?_⟩, rfl, rfl, ?_⟩
  · exact (congrArg Response.status hunsent.response).trans (errorResponse_spec _ _ _ _).1
  · exact (congrArg Response.status habandoned.response).trans (errorResponse_spec _ _ _ _).1

end Site

end SiteServer
