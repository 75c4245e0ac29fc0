import SiteServer.App
import SiteServer.Proofs.Site.Calm
import SiteServer.Proofs.Site.Twins

/-! # Requests do not influence each other.

What an application keeps from one request to the next is its files and what it has compiled. The first
request after a start finds nothing compiled; any later one is answered as if it were the first, as long as
the files that templates are made from stay as they were. -/

namespace SiteServer

open FileTree (AgreeOn)
open Message (Request)
open Pipeline (Stage Turn)
open Template (Cache Closed key)

/-! ## Sequences of requests -/

/-- The world after some requests, one after the other. -/
def App.after (app : App World) (world : World) (requests : List Request) : World :=
  requests.foldl (fun world request => (app.handle world request).2.shared) world

/-- The world that an application finds when it starts on the files and with the controllers there are. -/
def World.renewed (world : World) : World :=
  ⟨world.files, .opening world.workshop.controllers⟩

/-- An application reports the same about a request in two worlds, and leaves the same exchange, the same
log and the same files. -/
structure App.HandlesAlike (app : App World) (request : Request) (world twin : World) : Prop where
  report : (app.handle twin request).1 = (app.handle world request).1
  exchange : (app.handle twin request).2.exchange = (app.handle world request).2.exchange
  log : (app.handle twin request).2.log = (app.handle world request).2.log
  files : (app.handle twin request).2.shared.files = (app.handle world request).2.shared.files

namespace Site

variable {site : Site} {app : App World} {files : FileTree} {sources : Set Path} {world twin : World}
  {request : Request}

/-- Before each stage of each request, and after the last one, all is steady. -/
def Undisturbed (site : Site) (app : App World) (files : FileTree) (sources : Set Path) :
    World → List Request → Prop
  | _, [] => True
  | world, request :: rest =>
    (∀ place, site.Steady files sources
      (app.pipeline.reach ⟨.opening request, world, []⟩ place).turn) ∧
      Undisturbed site app files sources (app.handle world request).2.shared rest

section Default

variable (hstages : app.stages = site.stages) (hhandler : app.handler = site.errorPages)
  (hignores : site.IgnoresTemplates) (hclosed : Closed site.library files sources)

include hstages hhandler hignores hclosed

/-- One request: what has been compiled before does not show, and compiled templates stay sound. -/
theorem handle_twins (htwins : world.Twins (site.SoundFor files) twin)
    (hsteady : ∀ place, site.Steady files sources
      (app.pipeline.reach ⟨.opening request, world, []⟩ place).turn) :
    (app.handle twin request).1 = (app.handle world request).1 ∧
      (app.handle world request).2.Alike (World.Twins (site.SoundFor files))
        (app.handle twin request).2 := by
  have hhides : app.pipeline.Hides _ _ := hides_templates hstages hhandler hignores hclosed
  have hstart : Turn.Alike (World.Twins (site.SoundFor files)) ⟨.opening request, world, []⟩
      ⟨.opening request, twin, []⟩ := ⟨rfl, rfl, htwins⟩
  obtain ⟨hreport, halike⟩ := hhides.run hstart hsteady
  exact ⟨hreport, halike.report .info "request complete"⟩

theorem handlesAlike_of_twins (htwins : world.Twins (site.SoundFor files) twin)
    (hsteady : ∀ place, site.Steady files sources
      (app.pipeline.reach ⟨.opening request, world, []⟩ place).turn) :
    app.HandlesAlike request world twin := by
  obtain ⟨hreport, halike⟩ := handle_twins hstages hhandler hignores hclosed htwins hsteady
  refine ⟨hreport, halike.exchange, halike.log, ?_⟩
  rw [halike.shared.rest, World.withTemplates_files]

theorem handlesAlike_renewed_after {past : List Request}
    (hsound : site.SoundFor files world.workshop.templates)
    (hsteady : site.Undisturbed app files sources world (past ++ [request])) :
    app.HandlesAlike request (app.after world past) (app.after world past).renewed := by
  induction past generalizing world with
  | nil =>
      have htwins : world.Twins (site.SoundFor files) world.renewed :=
        ⟨hsound, Cache.sound_empty, rfl⟩
      exact handlesAlike_of_twins hstages hhandler hignores hclosed htwins hsteady.1
  | cons first rest ih =>
      have hself : world.Twins (site.SoundFor files) world := ⟨hsound, hsound, rfl⟩
      have hleft := (handle_twins hstages hhandler hignores hclosed hself hsteady.1).2.shared.left
      exact ih hleft hsteady.2

end Default

/-! ## Where nothing disturbs -/

theorem undisturbed_of_leavesFiles (hstages : app.stages = site.stages)
    (hhandler : app.handler = site.errorPages) (hintake : site.intake.LeavesFiles)
    {requests : List Request} (hfiles : world.files = files)
    (hcontrollers : ∀ route controller, world.workshop.controllers.get? route = some controller →
      controller.TracksNothing)
    (hrequests : ∀ request ∈ requests, request.tempFiles = []) :
    site.Undisturbed app files Set.univ world requests := by
  induction requests generalizing world with
  | nil => trivial
  | cons first rest ih =>
      have hcalm (place : Nat) :
          Calm files (app.pipeline.reach ⟨.opening first, world, []⟩ place).turn.exchange
            (app.pipeline.reach ⟨.opening first, world, []⟩ place).turn.shared :=
        calm_reach hstages hhandler hintake
          ⟨hfiles, hrequests first List.mem_cons_self, hcontrollers⟩ place
      refine ⟨fun place => ⟨fun p _ => ?_, fun _ _ _ _ => trivial, fun _ _ _ _ _ _ => trivial⟩, ?_⟩
      · rw [(hcalm place).files]
      · have hlast := hcalm app.pipeline.stages.length
        rw [← (Pipeline.run_turn app.pipeline ⟨.opening first, world, []⟩).2] at hlast
        exact ih hlast.files hlast.controllers fun r hr => hrequests r (List.mem_cons_of_mem first hr)

/-! ## Any request as if it were the first -/

/-- A template that is compiled, if one is, is among some paths. -/
def templateIn (paths : List Path) (template : Option Path) : Bool :=
  template.all fun t =>
    match key t with
    | .ok place => paths.contains place
    | .error _ => true

/-- Some paths read as in some files, and the templates that may be compiled are among them. -/
def steadyIn (site : Site) (files : FileTree) (paths : List Path) (turn : Turn World) : Bool :=
  paths.all (fun p => turn.shared.files.read p = files.read p) &&
    templateIn paths turn.exchange.request.targets.template &&
    match site.matcher turn.shared site.router.errorRoute with
    | .ok targets => templateIn paths targets.template
    | .error _ => true

/-- All is steady at each place of the runs of some requests. -/
def undisturbedIn (site : Site) (app : App World) (files : FileTree) (paths : List Path) :
    World → List Request → Bool
  | _, [] => true
  | world, request :: rest =>
    ((List.range (app.pipeline.stages.length + 1)).all fun place =>
      site.steadyIn files paths (app.pipeline.reach ⟨.opening request, world, []⟩ place).turn) &&
      undisturbedIn site app files paths (app.handle world request).2.shared rest

variable {paths : List Path} {turn : Turn World}

theorem mem_of_templateIn {template : Option Path} {t place : Path}
    (h : templateIn paths template = true) (ht : template = some t) (hkey : key t = .ok place) :
    place ∈ paths := by
  subst ht
  rw [templateIn, Option.all_some, hkey] at h
  exact List.contains_iff_mem.mp h

theorem steady_of_steadyIn (h : site.steadyIn files paths turn = true) :
    site.Steady files {p | p ∈ paths} turn := by
  simp only [steadyIn, Bool.and_eq_true, List.all_eq_true, decide_eq_true_eq] at h
  obtain ⟨⟨hagree, hmatched⟩, hfailed⟩ := h
  refine ⟨hagree, fun _ _ => mem_of_templateIn hmatched, fun targets _ _ htargets => ?_⟩
  rw [htargets] at hfailed
  exact mem_of_templateIn hfailed

theorem undisturbed_of_undisturbedIn {requests : List Request}
    (h : site.undisturbedIn app files paths world requests = true) :
    site.Undisturbed app files {p | p ∈ paths} world requests := by
  induction requests generalizing world with
  | nil => trivial
  | cons request rest ih =>
      rw [undisturbedIn, Bool.and_eq_true, List.all_eq_true] at h
      refine ⟨fun place => steady_of_steadyIn ?_, ih h.2⟩
      by_cases hplace : place ≤ app.pipeline.stages.length
      · exact h.1 place (List.mem_range.mpr (Nat.lt_succ_of_le hplace))
      · -- Behind the last stage nothing happens any more.
        have hlast := h.1 app.pipeline.stages.length (List.mem_range.mpr (Nat.lt_succ_self _))
        rw [Pipeline.reach, List.take_of_length_le (Nat.le_of_not_le hplace)]
        rwa [Pipeline.reach, List.take_length] at hlast

/-! ## Stored bodies -/

/-- The options of a site that has its templates in `t`, with these extensions. -/
def smallSite (extensions : List String) : RouterOptions :=
  { basePath := ⟨"/site"⟩, templateDir := ⟨"t"⟩, staticDir := ⟨"s"⟩, extensions }

def storedIn (dir : String) : ParserOptions :=
  { storageDir := some ⟨dir⟩, spillThreshold := 0 }

/-- A page with a part, a page for failures, and a file that the part could be mistaken for. -/
def partFiles : FileTree :=
  ⟨[(["site"], .directory), (["site", "t"], .directory),
    (["site", "t", "page.tmpl"], .file (bytesOf "<%- include('../part') %>")),
    (["site", "t", "500.tmpl"], .file (bytesOf "<b><%= error %></b>")),
    (["site", "part.tmpl"], .file (bytesOf "old")), (["site", "new.txt"], .file (bytesOf "new"))]⟩

/-- The paths that the page and the page for failures are made from. -/
def partPaths : List Path :=
  [⟨"/site/t/page.tmpl"⟩, ⟨"/site/t/500.tmpl"⟩, ⟨"/site/part.tmpl"⟩]

def failing : Controller := fun _ e => (.error (.inStage "controller" "failing"), e)

/-- A start on these files, with one controller, which fails. -/
def partWorld : World := ⟨partFiles, .opening (Route.Registry.empty.register "fail" failing)⟩

def sent (path body : String) : Request :=
  .arriving "1" "POST" ⟨none, none, path, none⟩ [] (bytesOf body)

theorem exists_undisturbed_storing : ∃ site,
    ofOptions (smallSite ["tmpl"]) (storedIn "/site/b") = .ok site ∧
      Template.closedIn site.library partFiles partPaths = true ∧
      site.undisturbedIn (App.ofSite site {} 0) partFiles partPaths partWorld
        [sent "/page" "abc", sent "/page" "abcd"] = true :=
  ⟨_, rfl, by decide +kernel, by decide +kernel⟩

end Site

end SiteServer
