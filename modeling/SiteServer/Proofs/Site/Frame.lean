import SiteServer.Proofs.Route.Policy
import SiteServer.Proofs.Site.Stages

/-! # What the default stages leave alone.

Between the stage that parses and the one that cleans up, no stage touches the files, what a request tracks, or
the controllers, unless it hands the exchange to a controller. Nor does it come up with a template that was not
matched. -/

namespace SiteServer

open Message (Exchange Request)
open Pipeline (Stage StageKind Turn)

/-! ## Frames -/

def Site.HasTemplate (site : Site) (world : World) (template : Path) : Prop :=
  ∃ route targets, site.matcher world route = .ok targets ∧ targets.template = some template

/-- Files, tracked files and controllers stay as they were, and so does the template, or the site has it. -/
structure Untouched (site : Site) (turn left : Turn World) : Prop where
  files : left.shared.files = turn.shared.files
  tracked : left.exchange.request.tempFiles = turn.exchange.request.tempFiles
  controllers : left.shared.workshop.controllers = turn.shared.workshop.controllers
  template : ∀ template, left.exchange.request.targets.template = some template →
    turn.exchange.request.targets.template = some template ∨ site.HasTemplate turn.shared template

/-- The same, unless a controller had the exchange. -/
inductive Framed (site : Site) (turn left : Turn World) : Prop
  | untouched (untouched : Untouched site turn left)
  | controlled {route : String} {controller : Controller}
      (registered : turn.shared.workshop.controllers.get? route = some controller)
      (exchange : left.exchange = (controller turn.shared.files turn.exchange).2)
      (shared : left.shared = turn.shared)

theorem Framed.controllers {site : Site} {turn left : Turn World} (h : Framed site turn left) :
    left.shared.workshop.controllers = turn.shared.workshop.controllers := by
  cases h with
  | untouched untouched => exact untouched.controllers
  | controlled _ _ shared => rw [shared]

theorem Untouched.of_templates {site : Site} {turn left : Turn World} {templates : Template.Cache}
    (htracked : left.exchange.request.tempFiles = turn.exchange.request.tempFiles)
    (htargets : left.exchange.request.targets = turn.exchange.request.targets)
    (hshared : left.shared = turn.shared.withTemplates templates) : Untouched site turn left where
  files := by
    rw [hshared]
    rfl
  tracked := htracked
  controllers := by
    rw [hshared]
    rfl
  template template h := by
    rw [htargets] at h
    exact .inl h

namespace Site

variable (site : Site) (turn : Turn World)

/-! ## The stages, one by one -/

theorem hasTemplate_of_resolve {world : World} {path : String} {decision : Route.Decision} {template : Path}
    (h : site.resolve world path = .ok decision) (htemplate : decision.targets.template = some template) :
    site.HasTemplate world template := by
  rw [resolve] at h
  cases hdecision : Route.resolve (site.matcher world) site.answers path with
  | error fault =>
      rw [hdecision] at h
      cases h
  | ok found =>
      rw [hdecision] at h
      cases h
      exact Route.exists_of_template hdecision htemplate

theorem hasTemplate_of_resolveExact {world : World} {route : String} {targets : Route.Targets}
    {template : Path} (h : site.resolveExact world route = .ok targets)
    (htemplate : targets.template = some template) : site.HasTemplate world template := by
  rw [resolveExact] at h
  cases htargets : site.matcher world route with
  | error fault =>
      rw [htargets] at h
      cases h
  | ok found =>
      rw [htargets] at h
      cases h
      exact ⟨route, _, htargets, htemplate⟩

theorem route_untouched : Untouched site turn (site.route turn).2 := by
  simp only [route]
  split
  · exact ⟨rfl, rfl, rfl, fun _ => .inl⟩
  · split
    · exact ⟨rfl, rfl, rfl, fun _ => .inl⟩
    · rename_i hdecision
      exact ⟨rfl, rfl, rfl, fun _ h => .inr (hasTemplate_of_resolve site hdecision h)⟩

theorem serveStatic_untouched : Untouched site turn (site.serveStatic turn).2 := by
  simp only [serveStatic]
  split
  · exact ⟨rfl, rfl, rfl, fun _ => .inl⟩
  · split <;> exact ⟨rfl, rfl, rfl, fun _ => .inl⟩

theorem targetNotFound_untouched : Untouched site turn (site.targetNotFound turn).2 := by
  simp only [targetNotFound]
  split
  · split
    · exact ⟨rfl, rfl, rfl, fun _ => .inl⟩
    · rename_i htargets
      split
      · rename_i htemplate
        refine ⟨rfl, rfl, rfl, fun _ h => .inr ?_⟩
        cases h
        exact hasTemplate_of_resolveExact site htargets htemplate
      · exact ⟨rfl, rfl, rfl, fun _ => .inl⟩
  · exact ⟨rfl, rfl, rfl, fun _ => .inl⟩

theorem dispatch_framed : Framed site turn (site.dispatch turn).2 := by
  simp only [dispatch]
  split
  · split
    · rename_i hget
      exact .controlled hget rfl rfl
    · exact .untouched ⟨rfl, rfl, rfl, fun _ => .inl⟩
  · exact .untouched ⟨rfl, rfl, rfl, fun _ => .inl⟩
  · exact .untouched ⟨rfl, rfl, rfl, fun _ => .inl⟩
  · exact .untouched (targetNotFound_untouched site turn)

theorem noteCompileFailure_frame (failure : Template.Failure) :
    (noteCompileFailure turn failure).exchange = turn.exchange ∧
      (noteCompileFailure turn failure).shared = turn.shared := by
  rw [noteCompileFailure]
  split <;> exact ⟨rfl, rfl⟩

theorem renderInto_frame (template : Path) :
    (site.renderInto template turn).2.exchange.request = turn.exchange.request ∧
      ∃ templates, (site.renderInto template turn).2.shared = turn.shared.withTemplates templates := by
  simp only [renderInto]
  split
  · exact ⟨rfl, turn.shared.workshop.templates, rfl⟩
  · split
    · obtain ⟨hexchange, hshared⟩ := noteCompileFailure_frame
        { turn with shared := (site.compile turn.shared template).2 } _
      rw [hexchange, hshared]
      exact ⟨rfl, _, rfl⟩
    · split <;> exact ⟨rfl, _, rfl⟩

/-- Rendering leaves the request as it is, and of what requests share it changes compiled templates only. -/
theorem render_frame :
    (site.render turn).2.exchange.request = turn.exchange.request ∧
      ∃ templates, (site.render turn).2.shared = turn.shared.withTemplates templates := by
  rw [render]
  split
  · exact ⟨rfl, turn.shared.workshop.templates, rfl⟩
  · split
    · exact ⟨rfl, turn.shared.workshop.templates, rfl⟩
    · split
      · exact ⟨rfl, turn.shared.workshop.templates, rfl⟩
      · exact renderInto_frame site turn _

theorem render_untouched : Untouched site turn (site.render turn).2 := by
  obtain ⟨hrequest, _, hshared⟩ := render_frame site turn
  exact .of_templates (congrArg Request.tempFiles hrequest) (congrArg Request.targets hrequest) hshared

theorem emit_untouched : Untouched site turn (emitStage.run turn).2 := by
  simp only [emitStage, Stage.ofExchange, emit]
  split
  · exact ⟨rfl, rfl, rfl, fun _ => .inl⟩
  · split <;> exact ⟨rfl, rfl, rfl, fun _ => .inl⟩

/-! ## Answers to failures -/

theorem errorPages_untouched (failure : Failure) : Untouched site turn (site.errorPages failure turn) := by
  obtain ⟨hexchange, hshared⟩ := errorPages_eq site failure turn
  obtain ⟨_, hleft⟩ := exists_afterErrorPage_eq site turn.shared failure
  refine .of_templates ?_ ?_ (hshared.trans hleft) <;> rw [hexchange] <;> rfl

/-! ## The stages between parsing and cleaning up -/

def parseStage : Stage World := ⟨StageKind.name .parse, .parse, site.parse⟩

def cleanupStage : Stage World := ⟨StageKind.name .cleanup, .cleanup, site.cleanup⟩

/-- The default stages between these two. -/
def innerStages : List (Stage World) :=
  [⟨StageKind.name .route, .route, site.route⟩,
    ⟨StageKind.name .serveStatic, .serveStatic, site.serveStatic⟩,
    ⟨StageKind.name .runController, .runController, site.dispatch⟩,
    ⟨StageKind.name .render, .render, site.render⟩, emitStage]

theorem stages_eq_inner : site.stages = site.parseStage :: (site.innerStages ++ [site.cleanupStage]) := rfl

theorem framed_of_mem_innerStages {stage : Stage World} (h : stage ∈ site.innerStages) :
    Framed site turn (stage.run turn).2 := by
  simp only [innerStages, List.mem_cons, List.not_mem_nil, or_false] at h
  rcases h with rfl | rfl | rfl | rfl | rfl
  · exact .untouched (route_untouched site turn)
  · exact .untouched (serveStatic_untouched site turn)
  · exact dispatch_framed site turn
  · exact .untouched (render_untouched site turn)
  · exact .untouched (emit_untouched site turn)

end Site

end SiteServer
