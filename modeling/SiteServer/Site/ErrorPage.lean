import SiteServer.Pipeline.Run
import SiteServer.Site.Basic

/-! # Answers to failed requests: the template of the error route, or a fixed text. -/

namespace SiteServer.Site

open Pipeline (Handler Turn)

def errorBody : String := "500 Internal Server Error"

/-- What the error template is rendered on. -/
def errorData (failure : Failure) : Json :=
  .ofFields [("statusCode", .ofNat failure.status), ("error", .string failure.label)]

/-- Answers with the status of a failure: with a page as HTML, or else with the fixed text. -/
def answerFailure {σ : Type} (failure : Failure) (page : Option String) (turn : Turn σ) : Turn σ :=
  let exchange := turn.exchange.withStatus failure.status
  { turn with exchange := match page with
    | some page => exchange.answer Message.htmlType (bytesOf page)
    | none => exchange.answer Message.textType (bytesOf errorBody) }

/-- Answers every failure with the fixed text. -/
def plainErrors {σ : Type} : Handler σ := fun failure turn =>
  answerFailure failure none turn

/-- Answers a failure with the template of the error route; if there is none or it fails as well, with
the fixed text. -/
def errorPages (site : Site) : Handler World := fun failure turn =>
  match site.renderRoute turn.shared site.router.errorRoute (errorData failure) with
  | (.ok page, shared) => answerFailure failure page { turn with shared }
  | (.error _, shared) =>
    answerFailure failure none
      ({ turn with shared }.report .warn "error template failed, using plain body")

end SiteServer.Site
