import SiteServer.Proofs.Route.Policy
import SiteServer.Proofs.Site.Answer

/-! # Requests for data.

A path that ends in `.json` asks for data. Rendering is not asked for then, so that no template has a part
in what is answered, but for the one of the error route: a failure is answered with it as that of any
other request. -/

namespace SiteServer

open Message (Exchange Request Response)
open Pipeline (Ends Sink Turn)

/-! ## Routing -/

theorem Site.render_of_wantsData {site : Site} {world : World} {path : String}
    {decision : Route.Decision} (hdata : Route.wantsData (Route.asked path) = true)
    (h : site.resolve world path = .ok decision) : decision.render = false := by
  rw [Site.resolve] at h
  cases hresolve : Route.resolve (site.matcher world) site.answers path with
  | error fault =>
      rw [hresolve] at h
      cases h
  | ok found =>
      rw [hresolve] at h
      cases h
      exact Route.render_of_wantsData hdata hresolve

/-! ## Controllers -/

/-- A controller that neither asks for rendering again, nor sets a rendered text, nor writes. -/
def Controller.HandsOn (controller : Controller) : Prop :=
  ∀ files e, e.request.renderRequested = false → e.response.rendered = none →
    (controller files e).2.request.renderRequested = false ∧
      (controller files e).2.response.rendered = none ∧
      (controller files e).2.response.body = e.response.body

/-! ## Answers -/

/-- The answers to a request for data: nothing is written; or a static file, the payload or the fixed text
is; or a failure is answered, with the page of the error route if it has one. Nothing is compiled before
that. -/
inductive DataAnswer (site : Site) (world : World) (routed : Request) : Answer → Prop where
  | unwritten {response : Response} (body : response.body = none) :
      DataAnswer site world routed ⟨response, none, world.workshop⟩
  | file {path : Path} {file : StaticFile} {response : Response}
      (static : routed.targets.static = some path)
      (read : site.transport world.files path = .ok file) :
      DataAnswer site world routed
        ⟨response.write file.mediaType file.content, none, world.workshop⟩
  | payload {response : Response} {body : Bytes} (sent : response.payload.sent = .ok body) :
      DataAnswer site world routed ⟨response.write Message.jsonType body, none, world.workshop⟩
  | notFound {response : Response} :
      DataAnswer site world routed
        ⟨response.write Message.textType (bytesOf Site.notFoundBody), none, world.workshop⟩
  | failed {left : World} {failure : Failure} {response : Response}
      (workshop : left.workshop = world.workshop) :
      DataAnswer site world routed (site.fail left failure response)

namespace Site

variable {site : Site} {world : World} {routed : Request} {e : Exchange}

theorem dataAnswer_complete (hrender : e.request.renderRequested = false)
    (hrendered : e.response.rendered = none) :
    DataAnswer site world routed (site.complete world e) := by
  have hpage : page? e.request = none := by
    rw [page?, hrender]
    rfl
  cases hsent : e.response.payload.sent with
  | ok body =>
      simp only [complete, hpage, hrendered, hsent]
      exact .payload hsent
  | error fault =>
      simp only [complete, hpage, hrendered, hsent]
      exact .failed rfl

theorem dataAnswer_conclude (h : e.response.body = none) :
    DataAnswer site world routed (site.conclude world e) := by
  cases hclean : (site.intake.cleanup world.files e.request).result with
  | ok _ =>
      rw [conclude_eq (.inr hclean)]
      exact .unwritten h
  | error failure =>
      rw [conclude_eq_fail (by simp [Response.isWritten, h]) hclean]
      exact .failed rfl

theorem dataAnswer_control {controller : Controller} (h : controller.HandsOn)
    (hrender : e.request.renderRequested = false) (hrendered : e.response.rendered = none)
    (hbody : e.response.body = none) :
    DataAnswer site world routed (site.control world e controller) := by
  have hkept := h world.files e hrender hrendered
  rw [control]
  cases hrun : controller world.files e with
  | mk result left =>
      rw [hrun] at hkept
      obtain ⟨hstill, hnone, hsame⟩ := hkept
      cases result with
      | error failure => exact .failed rfl
      | ok _ =>
          cases hleft : left.request.finished with
          | true =>
              simp only [hleft, if_true]
              exact dataAnswer_conclude (hsame.trans hbody)
          | false =>
              simp only [hleft, Bool.false_eq_true, if_false]
              exact dataAnswer_complete hstill hnone

/-- Where rendering is not asked for, and the controllers only hand on, the answer is one to a request
for data. -/
theorem dataAnswer_answer (hrender : routed.renderRequested = false)
    (hcontrollers : ∀ route controller,
      world.workshop.controllers.get? route = some controller → controller.HandsOn) :
    DataAnswer site world routed (site.answer world (.opening routed)) := by
  rw [answer]
  cases hstatic : routed.targets.static with
  | some path =>
      cases hfile : site.transport world.files path with
      | ok file =>
          simp only [Exchange.opening, hstatic, hfile]
          exact .file hstatic hfile
      | error fault =>
          simp only [Exchange.opening, hstatic, hfile]
          exact .failed rfl
  | none =>
      cases hcontroller : routed.targets.controller with
      | some route =>
          cases hget : world.workshop.controllers.get? route with
          | some controller =>
              simp only [Exchange.opening, hstatic, hcontroller, hget]
              exact dataAnswer_control (hcontrollers route controller hget) hrender rfl rfl
          | none =>
              simp only [Exchange.opening, hstatic, hcontroller, hget]
              exact .failed rfl
      | none =>
          cases htemplate : routed.targets.template with
          | some template =>
              simp only [Exchange.opening, hstatic, hcontroller, htemplate]
              exact dataAnswer_complete hrender rfl
          | none =>
              simp only [Exchange.opening, hstatic, hcontroller, htemplate, notFound, hrender]
              exact .notFound

/-- A request for a path that ends in `.json` is answered as one for data, if its URL is parsed and its
targets are found. Only the answer to a failure may be a page. -/
theorem json_request_answered (sink : Sink) (clock : Nat → Binary64) {turn : Turn World}
    {after : World} {url : Message.ParsedUrl}
    (hentry : turn.exchange.response = .fresh) (hopen : turn.exchange.request.finished = false)
    (haccept : site.accept turn.shared turn.exchange.request = .ok (routed, after))
    (hrouted : routed.finished = false) (hurl : routed.url = some url)
    (hjson : ".json".toList <:+ url.pathname.toList) (hquery : '?' ∉ url.pathname.toList)
    (hcontrollers : ∀ route controller,
      after.workshop.controllers.get? route = some controller → controller.HandsOn) :
    ∃ answer, DataAnswer site after routed answer ∧
      Ends (site.pipeline sink clock) turn answer (site.controlled after (.opening routed)) := by
  have hrender : routed.renderRequested = false := by
    obtain ⟨parsed, decision, _, hparsed, hresolve, rfl, _⟩ := accept_eq_ok_iff.mp haccept
    cases hparsed.symm.trans hurl
    have hdata := render_of_wantsData (Route.wantsData_asked hjson hquery) hresolve
    simp only [hdata, Bool.and_false]
  have hends := ends_answer sink clock hopen hrouted haccept
  rw [hentry] at hends
  exact ⟨_, dataAnswer_answer hrender hcontrollers, hends⟩

/-! ## A failure that is answered with a page -/

def refuse : Controller := fun _ e => (.error (.inStage "controller" "refused"), e)

theorem refuse_handsOn : Controller.HandsOn refuse :=
  fun _ _ hrender hrendered => ⟨hrender, hrendered, rfl⟩

/-- A site with this controller and a template, for its error route as for any other. -/
def refusing : Site := uniform ⟨some "x", some ⟨"/e"⟩, none⟩

def dataArrival : Turn World :=
  arrival "/x.json" ⟨[(["e"], .file (bytesOf "<h1><%= error %></h1>"))]⟩ refuse

def dataRequest : Request := routedAt "/x.json" ⟨some "x", some ⟨"/e"⟩, none⟩

theorem refused_data_answered :
    ∃ answer, DataAnswer refusing dataArrival.shared dataRequest answer ∧
      Ends (refusing.pipeline .silent fun _ => .zero) dataArrival answer
        (refusing.controlled dataArrival.shared (.opening dataRequest)) := by
  refine json_request_answered _ _ rfl rfl (accept_uniform _ _ _ _) rfl rfl (by decide) (by decide) ?_
  intro route controller hget
  rw [eq_of_get?_arrival hget]
  exact refuse_handsOn

/-- The failure of a controller that only hands on is answered with the page of the error route, also
where the path ends in `.json`. -/
theorem data_failure_gets_page :
    Controller.HandsOn refuse ∧ ".json".toList <:+ "/x.json".toList ∧
      dataRequest.renderRequested = false ∧
      refusing.errorPage? dataArrival.shared (.inStage "controller" "refused") =
        some "<h1>pipeline</h1>" ∧
      ((refusing.pipeline .silent fun _ => .zero).run dataArrival).2.exchange.response.body =
        some (bytesOf "<h1>pipeline</h1>") := by
  have hpage : refusing.errorPage? dataArrival.shared (.inStage "controller" "refused") =
      some "<h1>pipeline</h1>" := by decide +kernel
  have hends := ends_answer .silent (fun _ => .zero) rfl rfl
    (accept_uniform ⟨some "x", some ⟨"/e"⟩, none⟩ "/x.json" dataArrival.shared.files refuse)
  refine ⟨refuse_handsOn, by decide, by decide, hpage, ?_⟩
  refine (congrArg Response.body hends.response).trans ?_
  refine (errorResponse_spec _ _ _ _).2.trans ?_
  change some (bytesOf ((refusing.errorPage? dataArrival.shared
    (.inStage "controller" "refused")).getD errorBody)) = _
  rw [hpage]
  rfl

end Site

end SiteServer
