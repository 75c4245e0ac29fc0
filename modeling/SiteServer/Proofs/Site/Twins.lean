import SiteServer.Proofs.Pipeline.Alike
import SiteServer.Proofs.Site.Stages
import SiteServer.Proofs.Template.Sources

/-! # Worlds that differ in their compiled templates.

The default stages and the error pages do not tell two such worlds from each other, when both caches are
sound and the files that templates are made from have stayed as they were. -/

namespace SiteServer

open FileTree (AgreeOn)
open Pipeline (Hides Stage StageKind StageOutput Turn Work)
open Template (Cache Closed key)

/-! ## Twins -/

@[simp] theorem World.withTemplates_files (world : World) (templates : Cache) :
    (world.withTemplates templates).files = world.files := rfl

@[simp] theorem World.withTemplates_controllers (world : World) (templates : Cache) :
    (world.withTemplates templates).workshop.controllers = world.workshop.controllers := rfl

/-- Two worlds differ in their compiled templates only, and a property holds for those of both. -/
structure World.Twins (S : Cache → Prop) (world twin : World) : Prop where
  left : S world.workshop.templates
  right : S twin.workshop.templates
  rest : twin = world.withTemplates twin.workshop.templates

namespace Pipeline.Turn

def withTemplates (turn : Turn World) (templates : Cache) : Turn World :=
  { turn with shared := turn.shared.withTemplates templates }

variable (turn : Turn World) (templates : Cache)

@[simp] theorem withTemplates_exchange : (turn.withTemplates templates).exchange = turn.exchange := rfl

@[simp] theorem withTemplates_shared :
    (turn.withTemplates templates).shared = turn.shared.withTemplates templates := rfl

@[simp] theorem withTemplates_withRequest (request : Message.Request) :
    (turn.withTemplates templates).withRequest request =
      (turn.withRequest request).withTemplates templates := rfl

@[simp] theorem withTemplates_report (level : Level) (message : String) :
    (turn.withTemplates templates).report level message =
      (turn.report level message).withTemplates templates := rfl

end Pipeline.Turn

variable {S : Cache → Prop} {turn other : Turn World}

theorem Pipeline.Turn.Alike.eq_withTemplates (h : turn.Alike (World.Twins S) other) :
    other = turn.withTemplates other.shared.workshop.templates := by
  obtain ⟨exchange, shared, log⟩ := other
  obtain ⟨rfl, rfl, htwins⟩ := h
  exact congrArg (Turn.mk _ · _) htwins.rest

/-! ## Work that does not look at compiled templates -/

/-- Work that does not look at the compiled templates and leaves them as they are. -/
def Blind {α : Type} (work : Work World α) : Prop :=
  ∀ turn templates, work (turn.withTemplates templates) =
    ((work turn).1, (work turn).2.withTemplates templates)

theorem Blind.templates_eq {α : Type} {work : Work World α} (h : Blind work) (turn : Turn World) :
    (work turn).2.shared.workshop.templates = turn.shared.workshop.templates := by
  have hsame : turn.withTemplates turn.shared.workshop.templates = turn := rfl
  have hown := h turn turn.shared.workshop.templates
  rw [hsame] at hown
  exact congrArg (fun r => r.2.shared.workshop.templates) hown

theorem Blind.alike {α : Type} {work : Work World α} (h : Blind work)
    (halike : turn.Alike (World.Twins S) other) :
    (work other).1 = (work turn).1 ∧ (work turn).2.Alike (World.Twins S) (work other).2 := by
  have hright := halike.shared.right
  rw [halike.eq_withTemplates, h turn _]
  refine ⟨rfl, rfl, rfl, ?_, hright, rfl⟩
  rw [h.templates_eq]
  exact halike.shared.left

namespace Site

variable {site : Site} {files : FileTree} {sources : Set Path} {world twin : World}

/-- The matcher of a site does not look at compiled templates. -/
def IgnoresTemplates (site : Site) : Prop :=
  ∀ world templates, site.matcher (world.withTemplates templates) = site.matcher world

theorem ignoresTemplates_ofOptions {router : RouterOptions} {parser : ParserOptions}
    (h : ofOptions router parser = .ok site) : site.IgnoresTemplates := by
  obtain ⟨_, _, _, _, rfl⟩ := eq_of_ofOptions h
  exact fun _ _ => rfl

theorem resolveExact_withTemplates (h : site.IgnoresTemplates) (world : World) (templates : Cache) :
    site.resolveExact (world.withTemplates templates) = site.resolveExact world := by
  funext route
  rw [resolveExact, resolveExact, h]

theorem resolve_withTemplates (h : site.IgnoresTemplates) (world : World) (templates : Cache) :
    site.resolve (world.withTemplates templates) = site.resolve world := by
  funext path
  rw [resolve, resolve, h]

theorem blind_parse (site : Site) : Blind site.parse :=
  fun _ _ => rfl

theorem blind_route (h : site.IgnoresTemplates) : Blind site.route := by
  intro turn templates
  simp only [route, Turn.withTemplates_exchange, Turn.withTemplates_shared,
    resolve_withTemplates h]
  split
  · rfl
  · split <;> rfl

theorem blind_serveStatic (site : Site) : Blind site.serveStatic := by
  intro turn templates
  simp only [serveStatic, Turn.withTemplates_exchange, Turn.withTemplates_withRequest,
    Turn.withTemplates_shared, World.withTemplates_files]
  split
  · rfl
  · split <;> rfl

theorem blind_targetNotFound (h : site.IgnoresTemplates) : Blind site.targetNotFound := by
  intro turn templates
  simp only [targetNotFound, Turn.withTemplates_exchange, Turn.withTemplates_report,
    Turn.withTemplates_shared, resolveExact_withTemplates h]
  split
  · split
    · rfl
    · split <;> rfl
  · rfl

theorem blind_dispatch (h : site.IgnoresTemplates) : Blind site.dispatch := by
  intro turn templates
  simp only [dispatch, Turn.withTemplates_exchange, Turn.withTemplates_shared,
    World.withTemplates_controllers]
  split
  · split <;> rfl
  · rfl
  · rfl
  · exact blind_targetNotFound h turn templates

theorem blind_emit (name : String) :
    Blind (Stage.ofExchange (σ := World) name .emit fun _ => emit).run :=
  fun _ _ => rfl

theorem blind_cleanup (site : Site) : Blind site.cleanup := by
  intro turn templates
  simp only [cleanup, Turn.withTemplates_exchange, Turn.withTemplates_shared,
    World.withTemplates_files]
  split <;> rfl

/-! ## Compiling and rendering -/

/-- The paths that templates are made from read as in some files, and the templates that the matched
targets and the error route have are among them. -/
structure Steady (site : Site) (files : FileTree) (sources : Set Path) (turn : Turn World) : Prop where
  agree : AgreeOn sources files turn.shared.files
  matched : ∀ template place, turn.exchange.request.targets.template = some template →
    key template = .ok place → place ∈ sources
  failed : ∀ targets template place,
    site.matcher turn.shared site.router.errorRoute = .ok targets →
      targets.template = some template → key template = .ok place → place ∈ sources

/-- Compiled templates are what some files give. -/
def SoundFor (site : Site) (files : FileTree) (cache : Cache) : Prop :=
  cache.Sound site.library files site.finish

theorem compile_twins (hclosed : Closed site.library files sources)
    (htwins : world.Twins (site.SoundFor files) twin) (hagree : AgreeOn sources files world.files)
    {path : Path} (hpath : ∀ place, key path = .ok place → place ∈ sources) :
    (site.compile twin path).1 = (site.compile world path).1 ∧
      (site.compile world path).2.Twins (site.SoundFor files) (site.compile twin path).2 := by
  obtain ⟨hleft, hright, hrest⟩ := htwins
  have hagree' : AgreeOn sources files twin.files := by
    rw [hrest]
    exact hagree
  have hworld := Template.compile_of_sound hclosed hagree hleft hpath
  have htwin := Template.compile_of_sound hclosed hagree' hright hpath
  refine ⟨htwin.1.trans hworld.1.symm, hworld.2, htwin.2, ?_⟩
  rw [compile, hrest]
  rfl

theorem renderInto_twins (hclosed : Closed site.library files sources)
    (halike : turn.Alike (World.Twins (site.SoundFor files)) other)
    (hagree : AgreeOn sources files turn.shared.files) {path : Path}
    (hpath : ∀ place, key path = .ok place → place ∈ sources) :
    (site.renderInto path other).1 = (site.renderInto path turn).1 ∧
      (site.renderInto path turn).2.Alike (World.Twins (site.SoundFor files))
        (site.renderInto path other).2 := by
  obtain ⟨hresult, hworlds⟩ := compile_twins hclosed halike.shared hagree hpath
  obtain ⟨exchange, shared, log⟩ := other
  obtain ⟨rfl, rfl, hshared⟩ := halike
  unfold renderInto
  dsimp only at hresult hworlds ⊢
  cases turn.exchange.response.payload.value with
  | error fault => exact ⟨rfl, rfl, rfl, hshared⟩
  | ok data =>
      dsimp only
      rw [hresult]
      cases (site.compile turn.shared path).1 with
      | error failure =>
          refine ⟨rfl, ?_⟩
          unfold noteCompileFailure
          dsimp only
          split
          · exact ⟨rfl, rfl, hworlds⟩
          · exact ⟨rfl, rfl, hworlds⟩
      | ok template =>
          dsimp only
          cases template.render data with
          | error failure => exact ⟨rfl, rfl, rfl, hworlds⟩
          | ok text => exact ⟨rfl, rfl, rfl, hworlds⟩

theorem render_twins (hclosed : Closed site.library files sources)
    (halike : turn.Alike (World.Twins (site.SoundFor files)) other)
    (hsteady : site.Steady files sources turn) :
    (site.render other).1 = (site.render turn).1 ∧
      (site.render turn).2.Alike (World.Twins (site.SoundFor files)) (site.render other).2 := by
  unfold render
  dsimp only
  rw [halike.exchange]
  split
  · exact ⟨rfl, halike⟩
  · split
    · exact ⟨rfl, halike⟩
    · split
      · exact ⟨rfl, halike⟩
      · rename_i htemplate
        exact renderInto_twins hclosed halike hsteady.agree fun place =>
          hsteady.matched _ place htemplate

theorem renderFile_twins (hclosed : Closed site.library files sources)
    (htwins : world.Twins (site.SoundFor files) twin) (hagree : AgreeOn sources files world.files)
    {path : Path} (hpath : ∀ place, key path = .ok place → place ∈ sources) (data : Json) :
    (site.renderFile twin path data).1 = (site.renderFile world path data).1 ∧
      (site.renderFile world path data).2.Twins (site.SoundFor files)
        (site.renderFile twin path data).2 := by
  obtain ⟨hresult, hworlds⟩ := compile_twins hclosed htwins hagree hpath
  unfold renderFile
  cases hcompile : site.compile world path with
  | mk result left =>
      cases hother : site.compile twin path with
      | mk given right =>
          rw [hcompile, hother] at hresult hworlds
          cases hresult
          cases result with
          | ok template => exact ⟨rfl, hworlds⟩
          | error failure => exact ⟨rfl, hworlds⟩

theorem renderRoute_twins (hignores : site.IgnoresTemplates)
    (hclosed : Closed site.library files sources)
    (htwins : world.Twins (site.SoundFor files) twin) (hagree : AgreeOn sources files world.files)
    {route : String} (hroute : ∀ targets template place, site.matcher world route = .ok targets →
      targets.template = some template → key template = .ok place → place ∈ sources) (data : Json) :
    (site.renderRoute twin route data).1 = (site.renderRoute world route data).1 ∧
      (site.renderRoute world route data).2.Twins (site.SoundFor files)
        (site.renderRoute twin route data).2 := by
  have hexact : site.resolveExact twin route = site.resolveExact world route := by
    rw [htwins.rest, resolveExact_withTemplates hignores]
  unfold renderRoute
  rw [hexact, resolveExact]
  cases hmatch : site.matcher world route with
  | error fault => exact ⟨rfl, htwins⟩
  | ok targets =>
      dsimp only [Except.mapError]
      cases htemplate : targets.template with
      | none => exact ⟨rfl, htwins⟩
      | some path =>
          obtain ⟨hresult, hworlds⟩ := renderFile_twins hclosed htwins hagree
            (fun place => hroute targets path place hmatch htemplate) data
          dsimp only
          rw [hresult]
          exact ⟨rfl, hworlds⟩

/-! ## Failures -/

theorem errorPages_twins (hignores : site.IgnoresTemplates)
    (hclosed : Closed site.library files sources)
    (halike : turn.Alike (World.Twins (site.SoundFor files)) other)
    (hagree : AgreeOn sources files turn.shared.files)
    (hroute : ∀ targets template place, site.matcher turn.shared site.router.errorRoute = .ok targets →
      targets.template = some template → key template = .ok place → place ∈ sources)
    (failure : Failure) :
    (site.errorPages failure turn).Alike (World.Twins (site.SoundFor files))
      (site.errorPages failure other) := by
  obtain ⟨hresult, hworlds⟩ := renderRoute_twins hignores hclosed halike.shared hagree hroute
    (errorData failure)
  obtain ⟨exchange, shared, log⟩ := other
  obtain ⟨rfl, rfl, hshared⟩ := halike
  unfold errorPages
  dsimp only at hresult hworlds ⊢
  cases hrender : site.renderRoute turn.shared site.router.errorRoute (errorData failure) with
  | mk result left =>
      cases hother : site.renderRoute shared site.router.errorRoute (errorData failure) with
      | mk given right =>
          rw [hrender, hother] at hresult hworlds
          cases hresult
          cases result with
          | ok page => exact ⟨rfl, rfl, hworlds⟩
          | error fault => exact ⟨rfl, rfl, hworlds⟩

theorem steady_before_errorPages (hignores : site.IgnoresTemplates) {failure : Failure}
    (h : site.Steady files sources (site.errorPages failure turn)) :
    AgreeOn sources files turn.shared.files ∧ ∀ targets template place,
      site.matcher turn.shared site.router.errorRoute = .ok targets →
        targets.template = some template → key template = .ok place → place ∈ sources := by
  obtain ⟨templates, hleft⟩ := exists_afterErrorPage_eq site turn.shared failure
  have hshared : (site.errorPages failure turn).shared = turn.shared.withTemplates templates :=
    (errorPages_eq site failure turn).2.trans hleft
  obtain ⟨hagree, _, hfailed⟩ := h
  rw [hshared] at hagree hfailed
  rw [hignores] at hfailed
  exact ⟨hagree, hfailed⟩

/-! ## The default pipeline -/

/-- While the files that templates are made from stay as they were, what has been compiled before does not
show in a run of the default stages. -/
theorem hides_templates {pipeline : Pipeline World} (hstages : pipeline.stages = site.stages)
    (hhandler : pipeline.handler = site.errorPages) (hignores : site.IgnoresTemplates)
    (hclosed : Closed site.library files sources) :
    pipeline.Hides (World.Twins (site.SoundFor files)) (site.Steady files sources) where
  stage stage hstage turn other hsteady halike := by
    rw [hstages, stages_eq] at hstage
    simp only [List.mem_cons, List.not_mem_nil, or_false] at hstage
    rcases hstage with rfl | rfl | rfl | rfl | rfl | rfl | rfl
    · exact (blind_parse site).alike halike
    · exact (blind_route hignores).alike halike
    · exact (blind_serveStatic site).alike halike
    · exact (blind_dispatch hignores).alike halike
    · exact render_twins hclosed halike hsteady
    · exact (blind_emit _).alike halike
    · exact (blind_cleanup site).alike halike
  handler failure turn other hsteady halike := by
    rw [hhandler] at hsteady ⊢
    obtain ⟨hagree, hroute⟩ := steady_before_errorPages hignores hsteady
    exact errorPages_twins hignores hclosed halike hagree hroute failure
  note _ _ h := ⟨h.agree, h.matched, h.failed⟩

end Site

end SiteServer
