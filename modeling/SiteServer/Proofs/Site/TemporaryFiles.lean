import SiteServer.Proofs.Intake.Parsing
import SiteServer.Proofs.Site.Frame

/-! # No temporary file outlives its request.

A body that is stored in a file is tracked, and the stage that cleans up, which always runs, removes it. Until
then nothing changes regular files or what is tracked: neither the other default stages, nor, as it is assumed,
controllers and stages that were added. -/

namespace SiteServer

open Message (Exchange Request)
open Pipeline (Handler Stage StageKind StageOutput Turn)

/-! ## Files of a request -/

/-- The regular files are those there were at first, but for one that a request holds: it is tracked, and is
at a place where no file was. -/
inductive Held (initial tree : FileTree) : List Path → Prop
  | nothing (files : ∀ place, tree.fileAt? place = initial.fileAt? place) : Held initial tree []
  | body {path : Path} {place : Location} {content : Bytes} (leads : tree.Leads path place)
      (fresh : initial.fileAt? place = none) (stored : tree.fileAt? place = some content)
      (others : ∀ other, other ≠ place → tree.fileAt? other = initial.fileAt? other) :
      Held initial tree [path]

/-- The storage file of a body that is to be stored is not in use, once its directory was made. -/
def ParserOptions.StoresAfresh (options : ParserOptions) (files : FileTree) (request : Request) : Prop :=
  ∀ dir, Intake.storageFor options request.rawBody.length = some dir →
    (files.makeDirectories dir).2.isFile (Intake.storagePath dir request) = false

/-- A path leads to a place where no regular file is. -/
def FileTree.Lacks (tree : FileTree) (path : Path) : Prop :=
  ∃ place, tree.Leads path place ∧ tree.fileAt? place = none

variable {initial files tree : FileTree} {paths : List Path} {path : Path} {request : Request}

theorem FileTree.Lacks.isFile_eq_false (h : tree.Lacks path) : tree.isFile path = false := by
  obtain ⟨place, hleads, hnone⟩ := h
  rw [hleads.isFile_eq, hnone]
  rfl

theorem FileTree.Lacks.of_grows (h : files.Lacks path) (hgrows : files.Grows tree) : tree.Lacks path := by
  obtain ⟨place, hleads, hnone⟩ := h
  exact ⟨place, hleads.of_keepsDirectories hgrows.directories, (hgrows.files place).trans hnone⟩

theorem Held.of_grows (h : Held initial files paths) (hgrows : files.Grows tree) :
    Held initial tree paths := by
  cases h with
  | nothing same => exact .nothing fun place => (hgrows.files place).trans (same place)
  | body leads fresh stored others =>
      exact .body (leads.of_keepsDirectories hgrows.directories) fresh ((hgrows.files _).trans stored)
        fun other hother => (hgrows.files other).trans (others other hother)

theorem Held.files_eq (h : Held initial files []) (place : Location) :
    files.fileAt? place = initial.fileAt? place := by
  cases h with
  | nothing same => exact same place

namespace Intake

/-- However parsing ends, the request holds what was stored for it. -/
theorem held_take {options : ParserOptions} (h : ∀ place, files.fileAt? place = initial.fileAt? place)
    (htracked : request.tempFiles = []) (hfresh : options.StoresAfresh files request) :
    Held initial (take options files request).files (take options files request).request.tempFiles := by
  have hends := ends_take options files request
  generalize take options files request = out at hends ⊢
  cases hends with
  | failed grows =>
      change Held initial _ request.tempFiles
      rw [htracked]
      exact .nothing fun place => (grows.files place).trans (h place)
  | read _ =>
      change Held initial _ request.tempFiles
      rw [htracked]
      exact .nothing h
  | @stored dir left spills written =>
      obtain ⟨_, place, hmade, hleads, hfile, hothers⟩ := exists_place_of_write written
      have hfree : files.fileAt? place = none := by
        have hunused := hfresh dir (storageFor_of_spills spills)
        rw [hmade.isFile_eq, (files.grows_makeDirectories dir).files] at hunused
        simpa using hunused
      change Held initial left (request.tempFiles ++ [_])
      rw [htracked]
      refine .body hleads ((h place).symm.trans hfree) hfile ?_
      intro other hother
      exact (hothers other hother).trans (h other)

/-- What a request holds is removed when it is released. -/
theorem release_held (h : Held initial files request.tempFiles) :
    (∀ place, (release files request).files.fileAt? place = initial.fileAt? place) ∧
      (release files request).request.tempFiles = [] ∧
        ∀ path ∈ request.tempFiles, (release files request).files.Lacks path := by
  rw [release]
  generalize request.tempFiles = paths at h
  cases h with
  | nothing same => exact ⟨same, rfl, List.forall_mem_nil _⟩
  | @body path place content leads fresh stored others =>
      have hplace : files.occupant? place ≠ some .directory := by
        intro hdirectory
        rw [FileTree.fileAt?, hdirectory] at stored
        cases stored
      have hremoved : removeAll files [path] = (files.clear place, []) := by
        rw [removeAll, leads.remove_eq stored]
        rfl
      have hcleared : (files.clear place).fileAt? place = none := by
        rw [FileTree.fileAt?_clear leads.ne_nil, if_pos rfl]
      have hleads : (files.clear place).Leads path place :=
        leads.of_keepsDirectories (FileTree.keepsDirectories_clear leads.ne_nil hplace)
      rw [hremoved]
      refine ⟨?_, rfl, ?_⟩
      · intro other
        by_cases hother : other = place
        · rw [hother]
          exact hcleared.trans fresh.symm
        · dsimp only
          rw [FileTree.fileAt?_clear leads.ne_nil, if_neg hother]
          exact others other hother
      · intro other hother
        rw [List.mem_singleton.mp hother]
        exact ⟨place, hleads, hcleared⟩

end Intake

/-! ## Stages, controllers and handlers that leave files to others -/

/-- A controller that leaves it to the stages which files a request tracks. -/
def Controller.KeepsTracked (controller : Controller) : Prop :=
  ∀ files e, (controller files e).2.request.tempFiles = e.request.tempFiles

def World.KeepsTracked (world : World) : Prop :=
  ∀ route controller, world.workshop.controllers.get? route = some controller → controller.KeepsTracked

/-- From one turn to another, no regular file was written or deleted, no directory was removed, and the same
files are tracked. -/
structure Spared (turn left : Turn World) : Prop where
  grows : turn.shared.files.Grows left.shared.files
  tracked : left.exchange.request.tempFiles = turn.exchange.request.tempFiles
  controllers : left.shared.KeepsTracked

def Pipeline.Stage.Spares (stage : Stage World) : Prop :=
  ∀ turn, turn.shared.KeepsTracked → Spared turn (stage.run turn).2

/-- A handler that spares files, if controllers do. -/
def Pipeline.Handler.Spares (handler : Handler World) : Prop :=
  ∀ failure turn, turn.shared.KeepsTracked → Spared turn (handler failure turn)

variable {turn left : Turn World}

theorem Untouched.spared {site : Site} (h : Untouched site turn left) (hcontrollers : turn.shared.KeepsTracked) :
    Spared turn left where
  grows := .of_eq h.files
  tracked := h.tracked
  controllers := by
    rw [World.KeepsTracked, h.controllers]
    exact hcontrollers

theorem Framed.spared {site : Site} (h : Framed site turn left) (hcontrollers : turn.shared.KeepsTracked) :
    Spared turn left := by
  cases h with
  | untouched untouched => exact untouched.spared hcontrollers
  | controlled registered exchange shared =>
      refine ⟨.of_eq (by rw [shared]), ?_, ?_⟩
      · rw [exchange]
        exact hcontrollers _ _ registered _ _
      · rw [shared]
        exact hcontrollers

namespace Site

theorem innerStages_spare (site : Site) {stage : Stage World} (h : stage ∈ site.innerStages) :
    stage.Spares :=
  fun turn hcontrollers => (framed_of_mem_innerStages site turn h).spared hcontrollers

theorem errorPages_spares (site : Site) : Handler.Spares site.errorPages :=
  fun failure turn hcontrollers => (errorPages_untouched site turn failure).spared hcontrollers

end Site

/-! ## Runs -/

structure Holding (initial : FileTree) (paths : List Path) (e : Exchange) (world : World) : Prop where
  tracked : e.request.tempFiles = paths
  held : Held initial world.files paths
  controllers : world.KeepsTracked

structure Released (initial : FileTree) (paths : List Path) (e : Exchange) (world : World) : Prop where
  files : ∀ place, world.files.fileAt? place = initial.fileAt? place
  nothing : e.request.tempFiles = []
  gone : ∀ path ∈ paths, world.files.Lacks path
  controllers : world.KeepsTracked

theorem Holding.of_spared (h : Holding initial paths turn.exchange turn.shared)
    (hspared : Spared turn left) : Holding initial paths left.exchange left.shared :=
  ⟨hspared.tracked.trans h.tracked, h.held.of_grows hspared.grows, hspared.controllers⟩

theorem Released.of_spared (h : Released initial paths turn.exchange turn.shared)
    (hspared : Spared turn left) : Released initial paths left.exchange left.shared where
  files place := (hspared.grows.files place).trans (h.files place)
  nothing := hspared.tracked.trans h.nothing
  gone path hpath := (h.gone path hpath).of_grows hspared.grows
  controllers := hspared.controllers

section Intake

variable {site : Site} {options : ParserOptions} (hintake : site.intake = .usual options)

include hintake

theorem Holding.parse (h : Holding initial [] turn.exchange turn.shared)
    (hfresh : options.StoresAfresh turn.shared.files turn.exchange.request) :
    ∃ paths, Holding initial paths (site.parse turn).2.exchange (site.parse turn).2.shared := by
  have hheld := Intake.held_take h.held.files_eq h.tracked hfresh
  rw [Site.parse, hintake]
  exact ⟨_, rfl, hheld, h.controllers⟩

theorem Holding.cleanup (h : Holding initial paths turn.exchange turn.shared) :
    Released initial paths (site.cleanup turn).2.exchange (site.cleanup turn).2.shared := by
  have hheld := h.held
  rw [← h.tracked] at hheld
  obtain ⟨hfiles, hnothing, hgone⟩ := Intake.release_held hheld
  rw [h.tracked] at hgone
  rw [Site.cleanup, hintake]
  split <;> exact ⟨hfiles, hnothing, hgone, h.controllers⟩

end Intake

/-- Among the stages of a pipeline there is the one of a site that parses and, in the end, the one that cleans
up. The others are default stages of the site, or spare files, and so does the handler. -/
structure Site.Encloses (site : Site) (pipeline : Pipeline World) (before between : List (Stage World)) :
    Prop where
  stages : pipeline.stages = before ++ site.parseStage :: (between ++ [site.cleanupStage])
  others : ∀ stage ∈ before ++ between, stage ∈ site.innerStages ∨ stage.Spares
  handler : pipeline.handler.Spares

namespace Site.Encloses

variable {site : Site} {pipeline : Pipeline World} {before between : List (Stage World)}
  {options : ParserOptions} (h : site.Encloses pipeline before between)

include h

theorem parse_at : pipeline.stages[before.length]? = some site.parseStage := by
  rw [h.stages, List.getElem?_append_right (Nat.le_refl _), Nat.sub_self]
  rfl

theorem cleanup_at : pipeline.stages[before.length + 1 + between.length]? = some site.cleanupStage := by
  have hindex : before.length + 1 + between.length - before.length = between.length + 1 := by omega
  rw [h.stages, List.getElem?_append_right (by omega), hindex, List.getElem?_cons_succ,
    List.getElem?_append_right (Nat.le_refl _), Nat.sub_self]
  rfl

theorem length_stages : pipeline.stages.length = before.length + 1 + between.length + 1 := by
  rw [h.stages, List.length_append, List.length_cons, List.length_append, List.length_singleton]
  omega

/-- All other stages spare files. -/
theorem spares_at {place : Nat} {stage : Stage World} (hs : pipeline.stages[place]? = some stage)
    (hparse : place ≠ before.length) (hcleanup : place < before.length + 1 + between.length) :
    stage.Spares := by
  have hmem : stage ∈ before ++ between := by
    rw [h.stages] at hs
    rcases Nat.lt_or_gt_of_ne hparse with hlt | hgt
    · rw [List.getElem?_append_left hlt] at hs
      exact List.mem_append_left _ (List.mem_of_getElem? hs)
    · have hindex : place - before.length = place - before.length - 1 + 1 := by omega
      rw [List.getElem?_append_right (Nat.le_of_lt hgt), hindex, List.getElem?_cons_succ,
        List.getElem?_append_left (by omega)] at hs
      exact List.mem_append_right _ (List.mem_of_getElem? hs)
  rcases h.others stage hmem with hinner | hspares
  · exact site.innerStages_spare hinner
  · exact hspares

/-- What a request holds stays so on the way from one place to another, unless it passes the stage that
parses or the one that cleans up. -/
theorem holding_between {start place : Nat} (hle : start ≤ place)
    (hparse : place ≤ before.length ∨ before.length < start)
    (hcleanup : place ≤ before.length + 1 + between.length)
    (hholding : Holding initial paths (pipeline.reach turn start).turn.exchange
      (pipeline.reach turn start).turn.shared) :
    Holding initial paths (pipeline.reach turn place).turn.exchange
      (pipeline.reach turn place).turn.shared := by
  refine Pipeline.reach_between pipeline turn place hle hholding ?_ ?_
  · intro other stage hstart hother hs t ht
    exact ht.of_spared (h.spares_at hs (by omega) (by omega) t ht.controllers)
  · exact fun failure t ht => ht.of_spared (h.handler failure t ht.controllers)

variable (hintake : site.intake = .usual options)

include hintake

/-- The stage that parses starts with nothing held. -/
theorem holding_parsed
    (hentry : Holding initial [] (pipeline.reach turn before.length).turn.exchange
      (pipeline.reach turn before.length).turn.shared)
    (hfresh : options.StoresAfresh (pipeline.reach turn before.length).turn.shared.files
      (pipeline.reach turn before.length).turn.exchange.request) :
    ∃ paths, Holding initial paths (pipeline.reach turn (before.length + 1)).turn.exchange
      (pipeline.reach turn (before.length + 1)).turn.shared := by
  refine Pipeline.reach_step pipeline turn before.length
    (P := fun e world => e = (pipeline.reach turn before.length).turn.exchange ∧
      world = (pipeline.reach turn before.length).turn.shared)
    (Q := fun e world => ∃ paths, Holding initial paths e world) h.parse_at ⟨rfl, rfl⟩ ?_ ?_ ?_
  · rintro _ _ _ ⟨rfl, rfl⟩
    exact ⟨[], hentry⟩
  · rintro t ⟨hexchange, hshared⟩
    rw [← hexchange, ← hshared] at hentry hfresh
    exact hentry.parse hintake hfresh
  · rintro failure t ⟨paths, ht⟩
    exact ⟨paths, ht.of_spared (h.handler failure t ht.controllers)⟩

/-- The stage that cleans up is never passed over, and releases what is held. -/
theorem released_cleanup
    (hentry : Holding initial paths
      (pipeline.reach turn (before.length + 1 + between.length)).turn.exchange
      (pipeline.reach turn (before.length + 1 + between.length)).turn.shared) :
    Released initial paths (pipeline.reach turn pipeline.stages.length).turn.exchange
      (pipeline.reach turn pipeline.stages.length).turn.shared := by
  rw [h.length_stages]
  refine Pipeline.reach_step pipeline turn _ (P := Holding initial paths) (Q := Released initial paths)
    h.cleanup_at hentry ?_ ?_ ?_
  · exact fun hkind => absurd rfl hkind
  · exact fun t ht => ht.cleanup hintake
  · exact fun failure t ht => ht.of_spared (h.handler failure t ht.controllers)

end Site.Encloses

/-- After a run, regular files are what they were before it, no file is tracked, and no path that was tracked
at any time of the run leads to a regular file. -/
structure LeavesNoFile (pipeline : Pipeline World) (turn : Turn World) : Prop where
  files : ∀ place, (pipeline.run turn).2.shared.files.fileAt? place = turn.shared.files.fileAt? place
  tracked : (pipeline.run turn).2.exchange.request.tempFiles = []
  gone : ∀ place, ∀ path ∈ (pipeline.reach turn place).turn.exchange.request.tempFiles,
    (pipeline.run turn).2.shared.files.isFile path = false

/-- No temporary file outlives its request, however the run ends. -/
theorem Site.no_file_outlives_request {site : Site} {options : ParserOptions} {pipeline : Pipeline World}
    {before between : List (Stage World)} (hintake : site.intake = .usual options)
    (hpipeline : site.Encloses pipeline before between) (hcontrollers : turn.shared.KeepsTracked)
    (harrived : turn.exchange.request.tempFiles = [])
    (hfresh : options.StoresAfresh (pipeline.reach turn before.length).turn.shared.files
      (pipeline.reach turn before.length).turn.exchange.request) :
    LeavesNoFile pipeline turn := by
  have hstart (place : Nat) (hplace : place ≤ before.length) :
      Holding turn.shared.files [] (pipeline.reach turn place).turn.exchange
        (pipeline.reach turn place).turn.shared :=
    hpipeline.holding_between (Nat.zero_le place) (.inl hplace) (by omega)
      ⟨harrived, .nothing fun _ => rfl, hcontrollers⟩
  obtain ⟨paths, hparsed⟩ := hpipeline.holding_parsed hintake (hstart _ (Nat.le_refl _)) hfresh
  have hinner (place : Nat) (hplace : before.length < place)
      (hcleanup : place ≤ before.length + 1 + between.length) :
      Holding turn.shared.files paths (pipeline.reach turn place).turn.exchange
        (pipeline.reach turn place).turn.shared :=
    hpipeline.holding_between hplace (.inr (Nat.lt_succ_self _)) hcleanup hparsed
  have hreleased := hpipeline.released_cleanup hintake (hinner _ (by omega) (Nat.le_refl _))
  obtain ⟨hexchange, hshared⟩ := Pipeline.run_turn pipeline turn
  refine ⟨?_, ?_, ?_⟩
  · rw [hshared]
    exact hreleased.files
  · rw [hexchange]
    exact hreleased.nothing
  · intro place path hpath
    rw [hshared]
    rcases Nat.lt_or_ge before.length place with hlt | hle
    · rcases Nat.lt_or_ge (before.length + 1 + between.length) place with hend | hbefore
      · have hover : pipeline.stages.length ≤ place := by
          rw [hpipeline.length_stages]
          exact hend
        rw [Pipeline.reach_of_length_le turn hover, hreleased.nothing] at hpath
        cases hpath
      · rw [(hinner place hlt hbefore).tracked] at hpath
        exact (hreleased.gone path hpath).isFile_eq_false
    · rw [(hstart place hle).tracked] at hpath
      cases hpath

/-! ## A failing stage behind a stored body -/

namespace Site

def broken : Stage World := ⟨"broken", .custom, fun turn => (.error (.server "broken"), turn)⟩

def storing : Site :=
  { uniform .none with intake := .usual { storageDir := some ⟨"tmp"⟩, spillThreshold := 0 } }

/-- Its default stages, with a failing one behind the one that parses. -/
def storingPipeline : Pipeline World where
  stages := storing.parseStage :: broken :: (storing.innerStages ++ [storing.cleanupStage])
  handler := storing.errorPages
  sink := .silent
  clock _ := .zero

def upload : Turn World :=
  ⟨.opening (.arriving "1" "POST" ⟨none, none, "/x", none⟩ [] (bytesOf "data")),
    ⟨.empty, .opening .empty⟩, []⟩

theorem no_file_outlives_upload :
    LeavesNoFile storingPipeline upload ∧
      (storingPipeline.reach upload 1).turn.exchange.request.tempFiles = [⟨"tmp/1.body"⟩] ∧
      (storingPipeline.reach upload 1).turn.shared.files.content? ⟨"tmp/1.body"⟩ = some (bytesOf "data") ∧
      (storingPipeline.run upload).1.isSuccess = false := by
  have hencloses : storing.Encloses storingPipeline [] (broken :: storing.innerStages) := by
    refine ⟨rfl, ?_, storing.errorPages_spares⟩
    intro stage hstage
    rcases List.mem_cons.mp hstage with rfl | hinner
    · exact .inr fun _ hcontrollers => ⟨.refl _, rfl, hcontrollers⟩
    · exact .inl hinner
  have hcontrollers : upload.shared.KeepsTracked := by
    intro route controller hget
    cases hget
  refine ⟨no_file_outlives_request rfl hencloses hcontrollers rfl ?_, ?_, ?_, ?_⟩
  · intro dir hdir
    cases hdir
    decide +kernel
  · decide +kernel
  · decide +kernel
  · decide +kernel

end Site

end SiteServer
