import SiteServer.Proofs.Site.Dispatch

/-! # What becomes of a request for which nothing matched.

The not-found route may have a page, it may have none, or finding out may fail. Which of these is so decides
the response, and no controller has a say in it. -/

namespace SiteServer

open Message (Exchange Request Response)
open Pipeline (Call Ends Sink StageOutput Turn controllerCalls)

def World.withControllers (world : World) (controllers : Route.Registry Controller) : World :=
  { world with workshop := { world.workshop with controllers } }

def Pipeline.Turn.withControllers (turn : Turn World) (controllers : Route.Registry Controller) :
    Turn World :=
  { turn with shared := turn.shared.withControllers controllers }

namespace Site

/-! ## Pages of routes -/

/-- How it ends to render the template of a route on data, and the world that is left: with the text, if the
route has a template that compiles and renders. -/
inductive Shows (site : Site) (world : World) (route : String) (data : Json) :
    Except Failure (Option String) → World → Prop
  | unresolved {failure : Failure} (resolved : site.resolveExact world route = .error failure) :
      Shows site world route data (.error failure) world
  | missing {targets : Route.Targets} (resolved : site.resolveExact world route = .ok targets)
      (matched : targets.template = none) : Shows site world route data (.ok none) world
  | uncompiled {targets : Route.Targets} {path : Path} {fault : Template.Failure} {left : World}
      (resolved : site.resolveExact world route = .ok targets) (matched : targets.template = some path)
      (compiled : site.compile world path = (.error fault, left)) :
      Shows site world route data (.error (.template fault)) left
  | unrendered {targets : Route.Targets} {path : Path} {template : Template} {fault : Template.Failure}
      {left : World} (resolved : site.resolveExact world route = .ok targets)
      (matched : targets.template = some path) (compiled : site.compile world path = (.ok template, left))
      (rendered : template.render data = .error fault) :
      Shows site world route data (.error (.template fault)) left
  | page {targets : Route.Targets} {path : Path} {template : Template} {text : String} {left : World}
      (resolved : site.resolveExact world route = .ok targets) (matched : targets.template = some path)
      (compiled : site.compile world path = (.ok template, left))
      (rendered : template.render data = .ok text) : Shows site world route data (.ok (some text)) left

variable {site : Site} {world left : World} {route : String} {data : Json} {text : String}
  {failure : Failure}

theorem shows_renderRoute (site : Site) (world : World) (route : String) (data : Json) :
    Shows site world route data (site.renderRoute world route data).1
      (site.renderRoute world route data).2 := by
  rw [renderRoute]
  cases hresolved : site.resolveExact world route with
  | error failure => exact .unresolved hresolved
  | ok targets =>
      dsimp only
      cases hmatched : targets.template with
      | none => exact .missing hresolved hmatched
      | some path =>
          dsimp only
          rw [renderFile]
          cases hcompiled : site.compile world path with
          | mk result left =>
              cases result with
              | error fault => exact .uncompiled hresolved hmatched hcompiled
              | ok template =>
                  dsimp only
                  cases hrendered : template.render data with
                  | error fault => exact .unrendered hresolved hmatched hcompiled hrendered
                  | ok text => exact .page hresolved hmatched hcompiled hrendered

theorem shows_iff {result : Except Failure (Option String)} :
    Shows site world route data result left ↔ site.renderRoute world route data = (result, left) := by
  constructor
  · intro h
    cases h with
    | unresolved resolved => simp only [renderRoute, resolved]
    | missing resolved matched => simp only [renderRoute, resolved, matched]
    | uncompiled resolved matched compiled =>
        simp only [renderRoute, resolved, matched, renderFile, compiled]
        rfl
    | unrendered resolved matched compiled rendered =>
        simp only [renderRoute, resolved, matched, renderFile, compiled, rendered]
        rfl
    | page resolved matched compiled rendered =>
        simp only [renderRoute, resolved, matched, renderFile, compiled, rendered]
        rfl
  · intro h
    have hshows := shows_renderRoute site world route data
    rwa [h] at hshows

/-! ## The page of the not-found route -/

/-- Rendering is asked for, and the template of the not-found route gives a text on an object without
fields. -/
def GivesPage (site : Site) (world : World) (routed : Request) (text : String) : Prop :=
  routed.renderRequested = true ∧
    ∃ left, Shows site world site.router.notFoundRoute (.object []) (.ok (some text)) left

/-- Rendering is not asked for, or the not-found route has no template. -/
def LacksPage (site : Site) (world : World) (routed : Request) : Prop :=
  routed.renderRequested = false ∨
    ∃ left, Shows site world site.router.notFoundRoute (.object []) (.ok none) left

/-- Rendering is asked for, but the not-found route cannot be resolved, or its template cannot be compiled or
not be rendered: a failure, and the world that is left. -/
def FailsPage (site : Site) (world : World) (routed : Request) (failure : Failure) (left : World) : Prop :=
  routed.renderRequested = true ∧
    Shows site world site.router.notFoundRoute (.object []) (.error failure) left

/-- What there is to be shown where nothing matched. -/
def notFoundPage (site : Site) (world : World) (routed : Request) :
    Except Failure (Option String) × World :=
  if routed.renderRequested then site.renderRoute world site.router.notFoundRoute (.object [])
  else (.ok none, world)

variable {routed : Request}

theorem givesPage_iff :
    site.GivesPage world routed text ↔ ∃ left, site.notFoundPage world routed = (.ok (some text), left) := by
  rw [GivesPage, notFoundPage]
  cases routed.renderRequested with
  | false => simp
  | true => simp [shows_iff]

theorem lacksPage_iff :
    site.LacksPage world routed ↔ ∃ left, site.notFoundPage world routed = (.ok none, left) := by
  rw [LacksPage, notFoundPage]
  cases routed.renderRequested with
  | false => simp
  | true => simp [shows_iff]

theorem failsPage_iff :
    site.FailsPage world routed failure left ↔ site.notFoundPage world routed = (.error failure, left) := by
  rw [FailsPage, notFoundPage]
  cases routed.renderRequested with
  | false => simp
  | true => simp [shows_iff]

theorem exists_notFoundPage_eq (site : Site) (world : World) (routed : Request) :
    ∃ templates, (site.notFoundPage world routed).2 = world.withTemplates templates := by
  rw [notFoundPage]
  split
  · exact exists_renderRoute_eq site world _ _
  · exact ⟨world.workshop.templates, rfl⟩

/-- Where rendering is asked for, the template that is set is what completes a request. -/
theorem complete_eq_rendered {e : Exchange} {path : Path} (hpage : page? e.request = some path)
    (hdata : e.response.payload.value = .ok data) :
    site.complete world e =
      match site.renderFile world path data with
      | (.ok text, left) =>
        ⟨{ e.response with rendered := some text }.write Message.htmlType (bytesOf text), none,
          left.workshop⟩
      | (.error failure, left) => site.fail left (.template failure) e.response := by
  cases hfile : site.renderFile world path data with
  | mk result left => cases result <;> simp only [complete, hpage, hdata, hfile]

/-- A response that says that nothing was found, as yet without a body. -/
def lost : Response := { Response.fresh with status := 404 }

/-- The answer where nothing matched shows what there is to be shown. -/
theorem notFound_eq (site : Site) (world : World) (routed : Request) :
    site.notFound world (.opening routed) =
      match site.notFoundPage world routed with
      | (.ok (some text), left) =>
        ⟨{ lost with rendered := some text }.write Message.htmlType (bytesOf text), none, left.workshop⟩
      | (.ok none, left) => ⟨lost.write Message.textType (bytesOf notFoundBody), none, left.workshop⟩
      | (.error failure, left) => site.fail left failure lost := by
  rw [notFound, notFoundPage]
  cases hasked : routed.renderRequested with
  | false =>
      rw [Exchange.opening, if_neg (by simp [hasked])]
      rfl
  | true =>
      rw [Exchange.opening, if_pos hasked, if_pos rfl, renderRoute]
      cases site.resolveExact world site.router.notFoundRoute with
      | error failure => rfl
      | ok targets =>
          dsimp only
          cases targets.template with
          | none => rfl
          | some path =>
              have hpage : page? { routed with targets := { routed.targets with template := some path } } =
                  some path := if_pos hasked
              dsimp only
              rw [complete_eq_rendered hpage rfl]
              cases site.renderFile world path (.object []) with
              | mk result left => cases result <;> rfl

theorem answer_eq_notFound (h : routed.targets.isEmpty = true) :
    site.answer world (.opening routed) = site.notFound world (.opening routed) := by
  simp only [Route.Targets.isEmpty, Bool.and_eq_true, Option.isNone_iff_eq_none] at h
  obtain ⟨⟨hcontroller, htemplate⟩, hstatic⟩ := h
  simp only [answer, Exchange.opening, hcontroller, htemplate, hstatic]

/-! ## Other controllers -/

/-- The matcher of a site does not tell the controllers that are registered from others. -/
def MatchesAlike (site : Site) (controllers others : Route.Registry Controller) : Prop :=
  ∀ files templates,
    site.matcher ⟨files, templates, others⟩ = site.matcher ⟨files, templates, controllers⟩

/-- The usual matcher asks which routes have a controller. -/
theorem matchesAlike_ofOptions {router : RouterOptions} {parser : ParserOptions}
    {controllers others : Route.Registry Controller} (h : ofOptions router parser = .ok site)
    (hroutes : ∀ route, others.contains route = controllers.contains route) :
    site.MatchesAlike controllers others := by
  obtain ⟨_, _, _, _, rfl⟩ := eq_of_ofOptions h
  have hcontains : others.contains = controllers.contains := funext hroutes
  intro files templates
  unfold fileMatcher
  dsimp only
  rw [hcontains]

section Controllers

variable {others : Route.Registry Controller} (h : site.MatchesAlike world.workshop.controllers others)

theorem renderFile_withControllers (site : Site) (world : World) (path : Path) (data : Json) :
    site.renderFile (world.withControllers others) path data =
      ((site.renderFile world path data).1, (site.renderFile world path data).2.withControllers others) := by
  have hcompile : site.compile (world.withControllers others) path =
      ((site.compile world path).1, (site.compile world path).2.withControllers others) := rfl
  rw [renderFile, renderFile, hcompile]
  cases site.compile world path with
  | mk result left => cases result <;> rfl

include h

theorem resolveExact_withControllers (route : String) :
    site.resolveExact (world.withControllers others) route = site.resolveExact world route := by
  have hmatcher : site.matcher (world.withControllers others) = site.matcher world := h _ _
  rw [resolveExact, resolveExact, hmatcher]

theorem renderRoute_withControllers (route : String) (data : Json) :
    site.renderRoute (world.withControllers others) route data =
      ((site.renderRoute world route data).1,
        (site.renderRoute world route data).2.withControllers others) := by
  rw [renderRoute, renderRoute, resolveExact_withControllers h]
  cases site.resolveExact world route with
  | error failure => rfl
  | ok targets =>
      dsimp only
      cases targets.template with
      | none => rfl
      | some path =>
          dsimp only
          rw [renderFile_withControllers]

theorem errorResponse_withControllers (failure : Failure) (response : Response) :
    site.errorResponse (world.withControllers others) failure response =
      site.errorResponse world failure response := by
  have hpage : site.errorPage? (world.withControllers others) failure =
      site.errorPage? world failure := by
    rw [errorPage?, errorPage?, renderRoute_withControllers h]
    cases site.renderRoute world site.router.errorRoute (errorData failure) with
    | mk result left => cases result <;> rfl
  rw [errorResponse, errorResponse, hpage]

theorem notFoundPage_withControllers (routed : Request) :
    site.notFoundPage (world.withControllers others) routed =
      ((site.notFoundPage world routed).1, (site.notFoundPage world routed).2.withControllers others) := by
  rw [notFoundPage, notFoundPage]
  split
  · exact renderRoute_withControllers h _ _
  · rfl

theorem notFound_withControllers (routed : Request) :
    (site.notFound (world.withControllers others) (.opening routed)).response =
        (site.notFound world (.opening routed)).response ∧
      (site.notFound (world.withControllers others) (.opening routed)).failure =
        (site.notFound world (.opening routed)).failure := by
  rw [notFound_eq, notFound_eq, notFoundPage_withControllers h]
  cases hpage : site.notFoundPage world routed with
  | mk result left =>
      cases result with
      | ok page => cases page <;> exact ⟨rfl, rfl⟩
      | error failure =>
          refine ⟨errorResponse_withControllers ?_ failure lost, rfl⟩
          obtain ⟨templates, hleft⟩ := exists_notFoundPage_eq site world routed
          rw [hpage] at hleft
          rw [hleft]
          exact h

theorem accept_withControllers {request : Request} {after : World}
    (haccept : site.accept world request = .ok (routed, after)) :
    site.accept (world.withControllers others) request = .ok (routed, after.withControllers others) := by
  obtain ⟨url, decision, hparsed, hurl, hresolve, rfl, rfl⟩ := accept_eq_ok_iff.mp haccept
  refine accept_eq_ok_iff.mpr ⟨url, decision, hparsed, hurl, ?_, rfl, rfl⟩
  rw [← hresolve, resolve, resolve]
  exact congrArg (fun matcher => (Route.resolve matcher site.answers url.pathname).mapError Failure.resolution)
    (h _ _)

end Controllers

/-! ## Runs of the default stages -/

/-- A run ends with a response of this status, with one header field and this text as its body, and no
failure is reported. -/
structure Says (pipeline : Pipeline World) (turn : Turn World) (status : Nat) (contentType text : String) :
    Prop where
  status : (pipeline.run turn).2.exchange.response.status = status
  headers : (pipeline.run turn).2.exchange.response.headers = [("content-type", bytesOf contentType)]
  body : (pipeline.run turn).2.exchange.response.body = some (bytesOf text)
  failure : (pipeline.run turn).1.failure = none

/-- A run ends with the answer to a failure, which is reported: status 500, and the page of the error route or
else the fixed text. -/
structure Fails (site : Site) (pipeline : Pipeline World) (turn : Turn World) (failure : Failure)
    (left : World) : Prop where
  response : (pipeline.run turn).2.exchange.response = site.errorResponse left failure lost
  status : (pipeline.run turn).2.exchange.response.status = 500
  body : (pipeline.run turn).2.exchange.response.body =
    some (bytesOf ((site.errorPage? left failure).getD errorBody))
  failure : (pipeline.run turn).1.failure = some failure

/-- How a run of the default stages ends for a request for which nothing matched. -/
structure NotFoundLaw (site : Site) (pipeline : Pipeline World) (turn : Turn World) (routed : Request)
    (after : World) : Prop where
  /-- The page of the not-found route is sent as HTML, with status 404. -/
  page : ∀ text, site.GivesPage after routed text → Says pipeline turn 404 Message.htmlType text
  /-- Without one, the fixed text is. -/
  plain : site.LacksPage after routed → Says pipeline turn 404 Message.textType notFoundBody
  /-- If there should be one, but finding it out or rendering it fails, that failure is answered. -/
  failed : ∀ failure left, site.FailsPage after routed failure left → Fails site pipeline turn failure left
  /-- One of these is so, -/
  covered : (∃ text, site.GivesPage after routed text) ∨ site.LacksPage after routed ∨
    ∃ failure left, site.FailsPage after routed failure left
  /-- and no other then. -/
  page_only : ∀ text, site.GivesPage after routed text →
    ¬ site.LacksPage after routed ∧ ∀ failure left, ¬ site.FailsPage after routed failure left
  plain_only : site.LacksPage after routed → ∀ failure left, ¬ site.FailsPage after routed failure left
  /-- The status is 500 only where there is such a failure. -/
  internal : (pipeline.run turn).2.exchange.response.status = 500 ↔
    ∃ failure left, site.FailsPage after routed failure left
  /-- The stage that runs controllers is called on a request that has none to be run. -/
  quiet : routed.targets.controller = none ∧
    ∃ result left, controllerCalls (pipeline.calls turn) = [controllerCall routed result left]
  /-- Whatever controllers were registered, the response and the reported failure were the same, as long as
  paths match alike. -/
  unheard : ∀ others, site.MatchesAlike turn.shared.workshop.controllers others →
    (pipeline.run (turn.withControllers others)).2.exchange.response =
        (pipeline.run turn).2.exchange.response ∧
      (pipeline.run (turn.withControllers others)).1.failure = (pipeline.run turn).1.failure

/-- Where a site is made from options, paths match alike as long as the same routes have controllers. -/
theorem NotFoundLaw.unheard_ofOptions {pipeline : Pipeline World} {turn : Turn World} {after : World}
    (h : NotFoundLaw site pipeline turn routed after) {router : RouterOptions} {parser : ParserOptions}
    (hsite : ofOptions router parser = .ok site) {others : Route.Registry Controller}
    (hroutes : ∀ route, others.contains route = turn.shared.workshop.controllers.contains route) :
    (pipeline.run (turn.withControllers others)).2.exchange.response =
        (pipeline.run turn).2.exchange.response ∧
      (pipeline.run (turn.withControllers others)).1.failure = (pipeline.run turn).1.failure :=
  h.unheard others (matchesAlike_ofOptions hsite hroutes)

theorem headers_write {contentType : String}
    (h : contentType = Message.htmlType ∨ contentType = Message.textType) {response : Response}
    (hempty : response.headers = []) (body : Bytes) :
    (response.write contentType body).headers = [("content-type", bytesOf contentType)] := by
  have hset : Message.Headers.set? [] "content-type" (bytesOf contentType) =
      some [("content-type", bytesOf contentType)] := by
    rcases h with rfl | rfl
    · decide +kernel
    · decide +kernel
  rw [Response.write, hempty, hset]
  rfl

section Ends

variable {pipeline : Pipeline World} {turn : Turn World} {calls : List Call}
  (hends : Ends pipeline turn (site.notFound world (.opening routed)) calls)

include hends

theorem says_page (h : site.GivesPage world routed text) :
    Says pipeline turn 404 Message.htmlType text := by
  obtain ⟨left, hpage⟩ := givesPage_iff.mp h
  rw [notFound_eq, hpage] at hends
  refine ⟨?_, ?_, ?_, hends.failure⟩
  · rw [hends.response]
    rfl
  · rw [hends.response]
    exact headers_write (.inl rfl) rfl _
  · rw [hends.response]
    rfl

theorem says_plain (h : site.LacksPage world routed) :
    Says pipeline turn 404 Message.textType notFoundBody := by
  obtain ⟨left, hpage⟩ := lacksPage_iff.mp h
  rw [notFound_eq, hpage] at hends
  refine ⟨?_, ?_, ?_, hends.failure⟩
  · rw [hends.response]
    rfl
  · rw [hends.response]
    exact headers_write (.inr rfl) rfl _
  · rw [hends.response]
    rfl

theorem fails_page (h : site.FailsPage world routed failure left) :
    Fails site pipeline turn failure left := by
  rw [notFound_eq, failsPage_iff.mp h] at hends
  obtain ⟨hstatus, hbody⟩ := errorResponse_spec site left failure lost
  refine ⟨hends.response, ?_, ?_, hends.failure⟩
  · rw [hends.response]
    exact hstatus
  · rw [hends.response]
    exact hbody

end Ends

/-- There is a page, or there is none, or there is a failure. -/
theorem page_cases (site : Site) (world : World) (routed : Request) :
    (∃ text, site.GivesPage world routed text) ∨ site.LacksPage world routed ∨
      ∃ failure left, site.FailsPage world routed failure left := by
  cases hpage : site.notFoundPage world routed with
  | mk result left =>
      cases result with
      | error failure => exact .inr (.inr ⟨failure, left, failsPage_iff.mpr hpage⟩)
      | ok page =>
          cases page with
          | some text => exact .inl ⟨text, givesPage_iff.mpr ⟨left, hpage⟩⟩
          | none => exact .inr (.inl (lacksPage_iff.mpr ⟨left, hpage⟩))

theorem workshop_of_accept {request : Request} {after : World}
    (h : site.accept world request = .ok (routed, after)) : after.workshop = world.workshop := by
  obtain ⟨_, _, _, _, _, _, rfl⟩ := accept_eq_ok_iff.mp h
  rfl

section Run

variable (sink : Sink) (clock : Nat → Binary64) {turn : Turn World} {after : World}
  (hentry : turn.exchange.response = .fresh) (hopen : turn.exchange.request.finished = false)
  (hrouted : routed.finished = false) (hnothing : routed.targets.isEmpty = true)
  (haccept : site.accept turn.shared turn.exchange.request = .ok (routed, after))

include hentry hopen hrouted hnothing haccept

theorem ends_nothing :
    Ends (site.pipeline sink clock) turn (site.notFound after (.opening routed))
      (site.controlled after (.opening routed)) := by
  rw [← answer_eq_notFound hnothing, Exchange.opening, ← hentry]
  exact ends_answer sink clock hopen hrouted haccept

/-- Where nothing matched, the page of the not-found route decides how a run of the default stages ends. -/
theorem not_found_answered : NotFoundLaw site (site.pipeline sink clock) turn routed after := by
  have hends := ends_nothing sink clock hentry hopen hrouted hnothing haccept
  have hcovered := page_cases site after routed
  refine ⟨fun _ => says_page hends, says_plain hends, fun _ _ => fails_page hends, hcovered, ?_, ?_, ?_, ?_, ?_⟩
  · intro text hpage
    obtain ⟨shown, hpage⟩ := givesPage_iff.mp hpage
    refine ⟨fun hlacks => ?_, fun failure left hfails => ?_⟩
    · obtain ⟨left, hnone⟩ := lacksPage_iff.mp hlacks
      cases hpage.symm.trans hnone
    · cases hpage.symm.trans (failsPage_iff.mp hfails)
  · intro hlacks failure left hfails
    obtain ⟨left, hnone⟩ := lacksPage_iff.mp hlacks
    cases hnone.symm.trans (failsPage_iff.mp hfails)
  · constructor
    · intro hstatus
      rcases hcovered with ⟨text, hpage⟩ | hlacks | hfails
      · rw [(says_page hends hpage).status] at hstatus
        cases hstatus
      · rw [(says_plain hends hlacks).status] at hstatus
        cases hstatus
      · exact hfails
    · rintro ⟨failure, left, hfails⟩
      exact (fails_page hends hfails).status
  · simp only [Route.Targets.isEmpty, Bool.and_eq_true, Option.isNone_iff_eq_none] at hnothing
    refine ⟨hnothing.1.1, (site.dispatch ⟨.opening routed, after, []⟩).1,
      (site.dispatch ⟨.opening routed, after, []⟩).2.exchange, ?_⟩
    rw [hends.controlled, controlled]
    simp only [Exchange.opening, hnothing.2]
    rfl
  · intro others halike
    have hother : Ends (site.pipeline sink clock) (turn.withControllers others)
        (site.notFound (after.withControllers others) (.opening routed))
        (site.controlled (after.withControllers others) (.opening routed)) :=
      ends_nothing sink clock hentry hopen hrouted hnothing (accept_withControllers halike haccept)
    rw [← workshop_of_accept haccept] at halike
    obtain ⟨hresponse, hfailure⟩ := notFound_withControllers halike routed
    refine ⟨?_, ?_⟩
    · rw [hother.response, hends.response, hresponse]
    · rw [hother.failure, hends.failure, hfailure]

end Run

/-! ## A page for what was not found -/

/-- A site where nothing matches but the not-found route, which has a template. -/
def misplacing : Site :=
  { uniform .none with
    matcher := fun _ path => .ok (if path = "/404" then ⟨none, some ⟨"/lost"⟩, none⟩ else .none) }

/-- The arrival of a request there. -/
def strayed : Turn World :=
  arrival "/x" ⟨[(["lost"], .file (bytesOf "<h1>Lost</h1>"))]⟩ tell

theorem strayed_request_not_found :
    NotFoundLaw misplacing (misplacing.pipeline .silent fun _ => .zero) strayed (routedAt "/x" .none)
        strayed.shared ∧
      ((misplacing.pipeline .silent fun _ => .zero).run strayed).2.exchange.response.status = 404 ∧
      ((misplacing.pipeline .silent fun _ => .zero).run strayed).2.exchange.response.body =
        some (bytesOf "<h1>Lost</h1>") := by
  have hresolve : misplacing.resolve strayed.shared "/x" = .ok ⟨.none, true⟩ := by decide +kernel
  have hrender : (!Route.wantsData (Route.asked "/x")) = true := by decide +kernel
  have haccept : misplacing.accept strayed.shared strayed.exchange.request =
      .ok (routedAt "/x" .none, strayed.shared) := by
    rw [routedAt, hrender]
    exact accept_eq_ok_iff.mpr ⟨⟨"/x", []⟩, ⟨.none, true⟩, rfl, rfl, hresolve, rfl, rfl⟩
  have hlaw := not_found_answered .silent (fun _ => .zero) rfl rfl rfl rfl haccept
  have hgives : misplacing.GivesPage strayed.shared (routedAt "/x" .none) "<h1>Lost</h1>" :=
    givesPage_iff.mpr ⟨_, Prod.ext (by decide +kernel) rfl⟩
  have hsays := hlaw.page _ hgives
  exact ⟨hlaw, hsays.status, hsays.body⟩

end Site

end SiteServer
