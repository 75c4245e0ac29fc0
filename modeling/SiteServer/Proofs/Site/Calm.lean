import SiteServer.Proofs.Site.Frame

/-! # Requests that leave the files alone.

Where bodies are not stored and controllers track no files, no request changes a file. -/

namespace SiteServer

open Message (Exchange Request)
open Pipeline (Turn)

/-! ## Intakes and controllers -/

/-- An intake that changes no files and tracks none, where none are tracked. -/
structure Intake.LeavesFiles (intake : Intake) : Prop where
  parse : ∀ files request, request.tempFiles = [] →
    (intake.parse files request).files = files ∧ (intake.parse files request).request.tempFiles = []
  cleanup : ∀ files request, request.tempFiles = [] →
    (intake.cleanup files request).files = files ∧
      (intake.cleanup files request).request.tempFiles = []

theorem Intake.takeBody_unstored {options : ParserOptions} (h : options.storageDir = none)
    (files : FileTree) (request : Request) :
    (takeBody options files request).files = files ∧
      (takeBody options files request).request.tempFiles = request.tempFiles := by
  have hstorage : storageFor options request.rawBody.length = none := by
    rw [storageFor, h, ite_self]
  rw [takeBody, hstorage]
  split
  · exact ⟨rfl, rfl⟩
  · split
    · exact ⟨rfl, rfl⟩
    · dsimp only
      split <;> exact ⟨rfl, rfl⟩

theorem Intake.usual_leavesFiles {options : ParserOptions} (h : options.storageDir = none) :
    (Intake.usual options).LeavesFiles where
  parse files request htracked := by
    obtain ⟨hfiles, hrequest⟩ := takeBody_unstored h files { request with url := some (urlOf request) }
    exact ⟨hfiles, hrequest.trans htracked⟩
  cleanup files request htracked := by
    change (release files request).files = files ∧ (release files request).request.tempFiles = []
    rw [release, htracked]
    exact ⟨rfl, rfl⟩

def Controller.TracksNothing (controller : Controller) : Prop :=
  ∀ files e, e.request.tempFiles = [] → (controller files e).2.request.tempFiles = []

/-! ## Calm -/

/-- The files are certain ones, no file is tracked, and no controller tracks any. -/
structure Calm (files : FileTree) (e : Exchange) (world : World) : Prop where
  files : world.files = files
  tracked : e.request.tempFiles = []
  controllers : ∀ route controller, world.workshop.controllers.get? route = some controller →
    controller.TracksNothing

variable {site : Site} {files : FileTree} {turn left : Turn World}

namespace Calm

theorem of_untouched (h : Calm files turn.exchange turn.shared) (huntouched : Untouched site turn left) :
    Calm files left.exchange left.shared where
  files := huntouched.files.trans h.files
  tracked := huntouched.tracked.trans h.tracked
  controllers := by
    rw [huntouched.controllers]
    exact h.controllers

theorem of_framed (h : Calm files turn.exchange turn.shared) (hframed : Framed site turn left) :
    Calm files left.exchange left.shared := by
  cases hframed with
  | untouched untouched => exact h.of_untouched untouched
  | controlled registered exchange shared =>
      rw [exchange, shared]
      exact ⟨h.files, h.controllers _ _ registered _ _ h.tracked, h.controllers⟩

end Calm

namespace Site

theorem leavesFiles_ofOptions {router : RouterOptions} {parser : ParserOptions}
    (h : ofOptions router parser = .ok site) (hstorage : parser.storageDir = none) :
    site.intake.LeavesFiles := by
  obtain ⟨_, _, _, _, rfl⟩ := eq_of_ofOptions h
  exact Intake.usual_leavesFiles hstorage

theorem cleanup_calm (hintake : site.intake.LeavesFiles) (h : Calm files turn.exchange turn.shared) :
    Calm files (site.cleanup turn).2.exchange (site.cleanup turn).2.shared := by
  obtain ⟨hfiles, htracked⟩ := hintake.cleanup turn.shared.files _ h.tracked
  simp only [cleanup]
  split <;> exact ⟨hfiles.trans h.files, htracked, h.controllers⟩

theorem parse_calm (hintake : site.intake.LeavesFiles) (h : Calm files turn.exchange turn.shared) :
    Calm files (site.parse turn).2.exchange (site.parse turn).2.shared := by
  obtain ⟨hfiles, htracked⟩ := hintake.parse turn.shared.files _ h.tracked
  exact ⟨hfiles.trans h.files, htracked, h.controllers⟩

/-- Calm lasts through a run of the default stages. -/
theorem calm_reach {pipeline : Pipeline World} (hstages : pipeline.stages = site.stages)
    (hhandler : pipeline.handler = site.errorPages) (hintake : site.intake.LeavesFiles)
    (h : Calm files turn.exchange turn.shared) (place : Nat) :
    Calm files (pipeline.reach turn place).turn.exchange (pipeline.reach turn place).turn.shared := by
  refine Pipeline.reach_invariant pipeline turn place h ?_ ?_
  · intro stage hstage t ht
    rw [hstages, stages_eq_inner, List.mem_cons, List.mem_append, List.mem_singleton] at hstage
    rcases hstage with rfl | hinner | rfl
    · exact parse_calm hintake ht
    · exact ht.of_framed (framed_of_mem_innerStages site t hinner)
    · exact cleanup_calm hintake ht
  · intro failure t ht
    rw [hhandler]
    exact ht.of_untouched (errorPages_untouched site t failure)

end Site

end SiteServer
