import SiteServer.Proofs.Site.Frame
import SiteServer.Proofs.Site.NotFound

/-! # Answers to failures are complete.

Whatever a failed request has left behind, its response is completed: with the page of the error route, if
that is there as a whole, and with a fixed text in all other cases. -/

namespace SiteServer

open Message (Exchange Headers Request Response)
open Pipeline (Handler Turn)

/-! ## Written responses -/

/-- The header fields with a name, and those with other names. -/
theorem Message.Headers.filter_set (headers : Headers) {name : String} (h : name.toLower = name)
    (value : Bytes) :
    (headers.set name value).filter (·.1 = name) = [(name, value)] ∧
      (headers.set name value).filter (·.1 ≠ name) = headers.filter (·.1 ≠ name) := by
  rw [Headers.set, h]
  constructor
  · simp [List.filter_filter]
  · simp [List.filter_filter]

namespace Site

theorem headers_write_eq {contentType : String}
    (h : contentType = Message.htmlType ∨ contentType = Message.textType) (response : Response) (body : Bytes) :
    (response.write contentType body).headers =
      response.headers.set "content-type" (bytesOf contentType) := by
  have hlegal : (Message.isToken "content-type" && Message.isValue (bytesOf contentType)) = true := by
    rcases h with rfl | rfl
    · decide +kernel
    · decide +kernel
  rw [Response.write, Headers.set?, if_pos hlegal]
  rfl

/-- A turn was completed with an answer to a failure, and the body and the header field that go with it are
all that is new. -/
structure Completed (turn left : Turn World) (contentType text : String) : Prop where
  status : left.exchange.response.status = 500
  request : left.exchange.request = turn.exchange.request.finish
  body : left.exchange.response.body = some (bytesOf text)
  contentType : left.exchange.response.headers.filter (·.1 = "content-type") =
    [("content-type", bytesOf contentType)]
  otherHeaders : left.exchange.response.headers.filter (·.1 ≠ "content-type") =
    turn.exchange.response.headers.filter (·.1 ≠ "content-type")
  payload : left.exchange.response.payload = turn.exchange.response.payload
  rendered : left.exchange.response.rendered = turn.exchange.response.rendered

/-- An answer with a page, or without one, completes every turn with this exchange. -/
theorem completed_answerFailure (failure : Failure) (page : Option String) {turn start : Turn World}
    (h : start.exchange = turn.exchange) :
    Completed turn (answerFailure failure page start)
      (page.elim Message.textType fun _ => Message.htmlType) (page.getD errorBody) := by
  have hname : "content-type".toLower = "content-type" := by decide +kernel
  have hheaders (contentType : String) := Headers.filter_set turn.exchange.response.headers hname
    (bytesOf contentType)
  simp only [answerFailure, h]
  cases page with
  | none =>
      have hwritten := headers_write_eq (.inr rfl) { turn.exchange.response with status := failure.status }
        (bytesOf errorBody)
      exact ⟨rfl, rfl, rfl, (congrArg _ hwritten).trans (hheaders _).1,
        (congrArg _ hwritten).trans (hheaders _).2, rfl, rfl⟩
  | some text =>
      have hwritten := headers_write_eq (.inl rfl) { turn.exchange.response with status := failure.status }
        (bytesOf text)
      exact ⟨rfl, rfl, rfl, (congrArg _ hwritten).trans (hheaders _).1,
        (congrArg _ hwritten).trans (hheaders _).2, rfl, rfl⟩

/-! ## The usual handler -/

/-- The handler with the error pages of a site, if there is one. -/
def usualHandler (site? : Option Site) : Handler World :=
  site?.elim plainErrors errorPages

/-- What there is to be said about a failure, with its content type: the page that the error route has for it,
if there is a site and the page can be shown, and else the fixed text. -/
inductive Tells (site? : Option Site) (world : World) (failure : Failure) : String → String → Prop
  | page {site : Site} {text : String} {left : World} (present : site? = some site)
      (shown : Shows site world site.router.errorRoute (errorData failure) (.ok (some text)) left) :
      Tells site? world failure Message.htmlType text
  | missing {site : Site} {left : World} (present : site? = some site)
      (shown : Shows site world site.router.errorRoute (errorData failure) (.ok none) left) :
      Tells site? world failure Message.textType errorBody
  | failed {site : Site} {fault : Failure} {left : World} (present : site? = some site)
      (shown : Shows site world site.router.errorRoute (errorData failure) (.error fault) left) :
      Tells site? world failure Message.textType errorBody
  | alone (absent : site? = none) : Tells site? world failure Message.textType errorBody

theorem errorPages_of_shows {site : Site} {failure : Failure} {turn : Turn World}
    {result : Except Failure (Option String)} {left : World}
    (h : Shows site turn.shared site.router.errorRoute (errorData failure) result left) :
    Completed turn (site.errorPages failure turn)
      (result.toOption.join.elim Message.textType fun _ => Message.htmlType)
      (result.toOption.join.getD errorBody) := by
  rw [errorPages, shows_iff.mp h]
  cases result with
  | ok page => exact completed_answerFailure failure page rfl
  | error fault => exact completed_answerFailure failure none rfl

/-- There is something to be said about every failure, and the handler completes the response with it; all
that it changes besides is which templates have been compiled. A page sees the status and the label of the
failure. -/
structure AnswersFailure (site? : Option Site) (failure : Failure) (turn : Turn World) : Prop where
  data : errorData failure = .object [("error", .string failure.label), ("statusCode", .ofNat 500)]
  completed : ∀ contentType text, Tells site? turn.shared failure contentType text →
    Completed turn (usualHandler site? failure turn) contentType text
  told : ∃ contentType text, Tells site? turn.shared failure contentType text
  shared : ∃ templates, (usualHandler site? failure turn).shared = turn.shared.withTemplates templates

theorem failure_answered_completely (site? : Option Site) (failure : Failure) (turn : Turn World) :
    AnswersFailure site? failure turn where
  data := rfl
  completed contentType text h := by
    cases h with
    | page present shown =>
        rw [present]
        exact errorPages_of_shows shown
    | missing present shown =>
        rw [present]
        exact errorPages_of_shows shown
    | failed present shown =>
        rw [present]
        exact errorPages_of_shows shown
    | alone absent =>
        rw [absent]
        exact completed_answerFailure failure none rfl
  told := by
    cases site? with
    | none => exact ⟨_, _, .alone rfl⟩
    | some site =>
        have hshows := shows_renderRoute site turn.shared site.router.errorRoute (errorData failure)
        cases hrender : site.renderRoute turn.shared site.router.errorRoute (errorData failure) with
        | mk result left =>
            rw [hrender] at hshows
            cases result with
            | error fault => exact ⟨_, _, .failed rfl hshows⟩
            | ok page =>
                cases page with
                | none => exact ⟨_, _, .missing rfl hshows⟩
                | some text => exact ⟨_, _, .page rfl hshows⟩
  shared := by
    cases site? with
    | none => exact ⟨turn.shared.workshop.templates, rfl⟩
    | some site =>
        obtain ⟨templates, hleft⟩ := exists_afterErrorPage_eq site turn.shared failure
        exact ⟨templates, (errorPages_eq site failure turn).2.trans hleft⟩

end Site

end SiteServer
