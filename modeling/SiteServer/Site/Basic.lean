import SiteServer.Config.Options
import SiteServer.Intake
import SiteServer.Route.FileMatcher
import SiteServer.Route.Resolver
import SiteServer.Site.World
import SiteServer.StaticFile

/-! # Sites: what the default stages need besides the request and the response. -/

namespace SiteServer

/-- A site, as it was set up. `finish` and `answers` tell in which order the includes of a template and
the two answers of a matcher arrive. -/
structure Site where
  router : RouterOptions
  matcher : World → Route.Matcher
  library : Template.Library
  intake : Intake
  transport : Transport
  finish : Template.Schedule
  answers : List Nat

namespace Site

/-- The absolute form of a root directory. -/
def root (path : Path) : Except Failure Path :=
  match path.absolute? with
  | some path => .ok path
  | none => .error (.io .emptyPath)

/-- Matches paths against the directories of the options, and against the controllers of the world. -/
def fileMatcher (m : Route.FileMatcher) (world : World) : Route.Matcher :=
  fun path => .ok (m.targets world.files world.workshop.controllers.contains path)

/-- The site that options describe. Both of its roots need an absolute form. -/
def ofOptions (router : RouterOptions) (parser : ParserOptions) : Except Failure Site := do
  let templateRoot ← root router.templateRoot
  let staticRoot ← root router.staticRoot
  return {
    router
    matcher := fileMatcher ⟨templateRoot, staticRoot, router.extensions⟩
    library := Template.Library.ofRoot router.templateRoot router.extensions
    intake := Intake.usual parser
    transport := StaticFile.fetch
    finish := Template.Schedule.inOrder
    answers := [] }

theorem eq_of_ofOptions {router : RouterOptions} {parser : ParserOptions} {site : Site}
    (h : ofOptions router parser = .ok site) :
    ∃ templateRoot staticRoot, root router.templateRoot = .ok templateRoot ∧
      root router.staticRoot = .ok staticRoot ∧
      site = ⟨router, fileMatcher ⟨templateRoot, staticRoot, router.extensions⟩,
        Template.Library.ofRoot router.templateRoot router.extensions, Intake.usual parser,
        StaticFile.fetch, Template.Schedule.inOrder, []⟩ := by
  simp only [ofOptions, bind, Except.bind] at h
  split at h
  · cases h
  · rename_i templateRoot htemplate
    split at h
    · cases h
    · rename_i staticRoot hstatic
      cases h
      exact ⟨templateRoot, staticRoot, htemplate, hstatic, rfl⟩

def resolve (site : Site) (world : World) (path : String) : Except Failure Route.Decision :=
  (Route.resolve (site.matcher world) site.answers path).mapError .resolution

/-- The targets of a route, which is taken as it stands. -/
def resolveExact (site : Site) (world : World) (route : String) : Except Failure Route.Targets :=
  (site.matcher world route).mapError .resolution

/-- The compiled template of a file, and the world with the compiled templates after that. -/
def compile (site : Site) (world : World) (path : Path) : Except Template.Failure Template × World :=
  let (result, templates) :=
    Template.compile site.library world.files site.finish world.workshop.templates path
  (result, world.withTemplates templates)

def renderFile (site : Site) (world : World) (path : Path) (data : Json) :
    Except Template.Failure String × World :=
  match site.compile world path with
  | (.ok template, world) => (template.render data, world)
  | (.error failure, world) => (.error failure, world)

/-- Renders the template of a route on data, if it has one. -/
def renderRoute (site : Site) (world : World) (route : String) (data : Json) :
    Except Failure (Option String) × World :=
  match site.resolveExact world route with
  | .error failure => (.error failure, world)
  | .ok targets =>
    match targets.template with
    | none => (.ok none, world)
    | some path =>
      let (result, world) := site.renderFile world path data
      ((result.map some).mapError .template, world)

end Site

end SiteServer
