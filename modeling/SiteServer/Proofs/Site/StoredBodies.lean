import SiteServer.Proofs.FileTree.Outside
import SiteServer.Proofs.Intake.Release
import SiteServer.Proofs.Site.Independence
import SiteServer.Proofs.Site.Matching
import SiteServer.Proofs.Site.TemporaryFiles

/-! # Bodies that are stored apart from the templates.

A site that stores bodies writes and removes files in its storage directory. Templates are not made from files
in there, when neither this directory nor the template directory lies in the other and no include leads into it;
then requests do not influence each other. -/

namespace SiteServer

open FileTree (AgreeOn Inside SameOutside)
open Message (Exchange Request)
open Pipeline (Turn)
open Template (Closed key)

/-- The absolute paths in normal form that do not lead into a directory. -/
def Path.outside (dir : Path) : Set Path :=
  {p | p.isAbsolute = true ∧ p.normalize = p ∧ ¬ Inside dir.names p.names}

/-- Neither of two directories lies in the other. -/
def Path.ApartFrom (dir root : Path) : Prop :=
  ¬ dir.names <+: root.names ∧ ¬ root.names <+: dir.names

theorem FileTree.SameOutside.agreeOn {dir : Path} {tree other : FileTree}
    (h : SameOutside dir.names tree other) : AgreeOn dir.outside tree other :=
  fun _ hp => h.read_eq hp.2.1 hp.2.2

/-- A controller that leaves it to the stages which files a request tracks, and asks for no template in a
directory. -/
structure Controller.StaysOutside (dir : Path) (controller : Controller) : Prop where
  tracked : controller.KeepsTracked
  template : ∀ files e template place, (controller files e).2.request.targets.template = some template →
    key template = .ok place → e.request.targets.template = some template ∨ place ∈ dir.outside

/-! ## The files of a request -/

/-- Only what is inside a directory has changed, what a request tracks is inside, and its template is outside. -/
structure Storing (dir : Path) (initial : FileTree) (e : Exchange) (world : World) : Prop where
  files : SameOutside dir.names initial world.files
  tracked : ∀ p ∈ e.request.tempFiles, Inside dir.names p.names
  template : ∀ template place, e.request.targets.template = some template → key template = .ok place →
    place ∈ dir.outside
  controllers : ∀ route controller, world.workshop.controllers.get? route = some controller →
    controller.StaysOutside dir

variable {dir : Path} {initial files : FileTree} {request : Request} {turn left : Turn World}

namespace Intake

theorem isName_body {id : String} (h : '/' ∉ id.toList) : Path.IsName (id ++ ".body") := by
  have hlist : (id ++ ".body").toList = id.toList ++ ['.', 'b', 'o', 'd', 'y'] := String.toList_append
  have hlength : 5 ≤ (id ++ ".body").toList.length := by simp [hlist]
  refine ⟨by simp [hlist, h], ?_⟩
  rw [Path.component?, if_neg, if_neg, String.ofList_toList]
  · intro hup
    simp [hup] at hlength
  · rintro (hnil | hhere)
    · simp [hnil] at hlength
    · simp [hhere] at hlength

theorem storagePath_inside (hnormal : dir.normalize = dir) (hid : '/' ∉ request.id.toList) :
    Inside dir.names (storagePath dir request).names := by
  have hname := isName_body hid
  have hnames : ∀ n ∈ dir.names, Path.IsName n := fun _ => Path.isName_of_mem_names
  have hall : ∀ n ∈ dir.names ++ [request.id ++ ".body"], Path.IsName n := by
    simpa [or_imp, forall_and] using And.intro hnames hname
  have hchild : storagePath dir request = .ofNames dir.isAbsolute (dir.names ++ [request.id ++ ".body"]) := by
    rw [← Path.child_ofNames hnames hname, ← Path.normalize, hnormal]
    rfl
  rw [hchild, Path.names_ofNames hall]
  exact FileTree.inside_append dir.names (List.cons_ne_nil _ _)

/-- A body is stored inside the directory, if it is stored, and nothing else is written. -/
theorem take_storing {options : ParserOptions} (hstorage : options.storageDir = some dir)
    (hnormal : dir.normalize = dir) (hthere : files.isDirectory dir = true)
    (hid : '/' ∉ request.id.toList) (hfiles : SameOutside dir.names initial files) :
    SameOutside dir.names initial (take options files request).files ∧
      (∀ p ∈ (take options files request).request.tempFiles,
        p ∈ request.tempFiles ∨ Inside dir.names p.names) ∧
      (take options files request).request.targets = request.targets := by
  have hinside := storagePath_inside hnormal hid
  have hmade := FileTree.makeDirectories_of_isDirectory hnormal hthere
  rcases body_cases options request with hempty | hlarge | ⟨other, hspills⟩ | hreads
  · rw [take_of_empty hempty]
    exact ⟨hfiles, fun _ => .inl, rfl⟩
  · rw [take_of_tooLarge hlarge]
    exact ⟨hfiles, fun _ => .inl, rfl⟩
  · cases hstorage.symm.trans hspills.storage
    rw [take_of_spills hspills]
    rcases storage_cases files request dir with ⟨fault, hfails⟩ | ⟨written, hok, hwrite⟩
    · rw [storeBody_of_fails hfails, hmade]
      exact ⟨hfiles, fun _ => .inl, rfl⟩
    · rw [storeBody_of_written hok hwrite]
      rw [hmade] at hwrite
      refine ⟨hfiles.write hinside hwrite, fun p hp => ?_, rfl⟩
      rcases List.mem_append.mp hp with hp | hp
      · exact .inl hp
      · rw [List.mem_singleton.mp hp]
        exact .inr hinside
  · rw [take_of_reads hreads]
    cases typedBody request <;> exact ⟨hfiles, fun _ => .inl, rfl⟩

theorem release_storing (hfiles : SameOutside dir.names initial files)
    (htracked : ∀ p ∈ request.tempFiles, Inside dir.names p.names) :
    SameOutside dir.names initial (release files request).files := by
  intro place hplace
  rw [files_release, FileTree.occupant?_without_of_forall_ne, hfiles place hplace]
  intro p hp hfile
  apply hplace
  rw [(FileTree.fileOf?_eq_some_iff.mp hfile).1.eq_names]
  exact htracked p hp

end Intake

/-! ## Stages -/

namespace Storing

theorem of_untouched {site : Site} (h : Storing dir initial turn.exchange turn.shared)
    (hsite : ∀ world template place, site.HasTemplate world template → key template = .ok place →
      place ∈ dir.outside) (huntouched : Untouched site turn left) :
    Storing dir initial left.exchange left.shared where
  files := by
    rw [huntouched.files]
    exact h.files
  tracked := by
    rw [huntouched.tracked]
    exact h.tracked
  template template place htemplate hkey := by
    rcases huntouched.template template htemplate with hold | hnew
    · exact h.template template place hold hkey
    · exact hsite _ template place hnew hkey
  controllers := by
    rw [huntouched.controllers]
    exact h.controllers

theorem of_framed {site : Site} (h : Storing dir initial turn.exchange turn.shared)
    (hsite : ∀ world template place, site.HasTemplate world template → key template = .ok place →
      place ∈ dir.outside) (hframed : Framed site turn left) :
    Storing dir initial left.exchange left.shared := by
  cases hframed with
  | untouched untouched => exact h.of_untouched hsite untouched
  | controlled registered exchange shared =>
      have hcontroller := h.controllers _ _ registered
      rw [exchange, shared]
      refine ⟨h.files, ?_, fun template place htemplate hkey => ?_, h.controllers⟩
      · rw [hcontroller.tracked]
        exact h.tracked
      · rcases hcontroller.template _ _ template place htemplate hkey with hold | hnew
        · exact h.template template place hold hkey
        · exact hnew

end Storing

namespace Site

/-- A site stores bodies in a directory, in normal form, that is there. Its templates are outside, and so is
every path that is tried for a directive in a file outside. -/
structure StoresApart (site : Site) (files : FileTree) (dir : Path) : Prop where
  intake : ∃ options : ParserOptions, site.intake = .usual options ∧ options.storageDir = some dir
  normal : dir.normalize = dir
  there : files.isDirectory dir = true
  templates : ∀ world template place, site.HasTemplate world template → key template = .ok place →
    place ∈ dir.outside
  includes : Closed site.library files dir.outside

variable {site : Site} {pipeline : Pipeline World} {app : App World} {world : World}

namespace StoresApart

theorem storing_parse (h : site.StoresApart initial dir) (hid : '/' ∉ turn.exchange.request.id.toList)
    (hstoring : Storing dir initial turn.exchange turn.shared) :
    Storing dir initial (site.parse turn).2.exchange (site.parse turn).2.shared := by
  obtain ⟨options, hintake, hstorage⟩ := h.intake
  have hthere : turn.shared.files.isDirectory dir = true := by
    rw [hstoring.files.isDirectory_eq h.normal fun hinside => hinside.2 rfl]
    exact h.there
  obtain ⟨hfiles, htracked, htargets⟩ :=
    Intake.take_storing hstorage h.normal hthere hid hstoring.files
  rw [parse, hintake]
  refine ⟨hfiles, fun p hp => ?_, fun template place htemplate => ?_, hstoring.controllers⟩
  · rcases htracked p hp with hold | hnew
    · exact hstoring.tracked p hold
    · exact hnew
  · apply hstoring.template
    rw [← htargets]
    exact htemplate

theorem storing_cleanup (h : site.StoresApart initial dir)
    (hstoring : Storing dir initial turn.exchange turn.shared) :
    Storing dir initial (site.cleanup turn).2.exchange (site.cleanup turn).2.shared := by
  obtain ⟨options, hintake, _⟩ := h.intake
  have hfiles := Intake.release_storing hstoring.files hstoring.tracked
  rw [cleanup, hintake]
  split <;> exact ⟨hfiles, List.forall_mem_nil _, hstoring.template, hstoring.controllers⟩

/-- All along a run of the default stages, only what is inside the storage directory changes. -/
theorem storing_reach (h : site.StoresApart initial dir) (hstages : pipeline.stages = site.stages)
    (hhandler : pipeline.handler = site.errorPages) (hid : '/' ∉ turn.exchange.request.id.toList)
    (hstart : Storing dir initial turn.exchange turn.shared) (place : Nat) :
    Storing dir initial (pipeline.reach turn place).turn.exchange (pipeline.reach turn place).turn.shared := by
  have hkept (failure : Failure) (t : Turn World) (ht : Storing dir initial t.exchange t.shared) :
      Storing dir initial (pipeline.handler failure t).exchange (pipeline.handler failure t).shared := by
    rw [hhandler]
    exact ht.of_untouched h.templates (errorPages_untouched site t failure)
  cases place with
  | zero => exact hstart
  | succ place =>
      -- The name of the request is read by the first stage only.
      have hparse : pipeline.stages[0]? = some site.parseStage := by
        rw [hstages, stages_eq_inner]
        rfl
      have hfirst := Pipeline.reach_step pipeline turn 0 hparse
        (P := fun e w => '/' ∉ e.request.id.toList ∧ Storing dir initial e w)
        (Q := Storing dir initial) ⟨hid, hstart⟩ (fun _ _ _ => And.right)
        (fun t ht => h.storing_parse ht.1 ht.2) hkept
      refine Pipeline.reach_between pipeline turn (place + 1) (Nat.le_add_left 1 place) hfirst ?_ hkept
      intro other stage hother _ hs t ht
      obtain ⟨later, rfl⟩ := Nat.exists_eq_add_of_le' hother
      rw [hstages, stages_eq_inner, List.getElem?_cons_succ] at hs
      rcases List.mem_append.mp (List.mem_of_getElem? hs) with hinner | hcleanup
      · exact ht.of_framed h.templates (framed_of_mem_innerStages site t hinner)
      · rw [List.mem_singleton.mp hcleanup]
        exact h.storing_cleanup ht

/-! ## Requests -/

/-- Requests that come with a name of their own, nothing tracked and no template do not disturb each other. -/
theorem undisturbed (h : site.StoresApart initial dir) (hstages : app.stages = site.stages)
    (hhandler : app.handler = site.errorPages) {requests : List Request}
    (hfiles : SameOutside dir.names initial world.files)
    (hcontrollers : ∀ route controller, world.workshop.controllers.get? route = some controller →
      controller.StaysOutside dir)
    (hrequests : ∀ request ∈ requests, '/' ∉ request.id.toList ∧ request.tempFiles = [] ∧
      request.targets.template = none) :
    site.Undisturbed app initial dir.outside world requests := by
  induction requests generalizing world with
  | nil => trivial
  | cons first rest ih =>
      obtain ⟨hid, htracked, htemplate⟩ := hrequests first List.mem_cons_self
      have hstart : Storing dir initial (Exchange.opening first) world := by
        refine ⟨hfiles, fun p hp => ?_, fun template place hsome => ?_, hcontrollers⟩
        · change p ∈ first.tempFiles at hp
          rw [htracked] at hp
          cases hp
        · exact absurd (htemplate.symm.trans hsome) nofun
      have hstoring (place : Nat) : Storing dir initial
          (app.pipeline.reach ⟨.opening first, world, []⟩ place).turn.exchange
          (app.pipeline.reach ⟨.opening first, world, []⟩ place).turn.shared :=
        h.storing_reach hstages hhandler hid hstart place
      refine ⟨fun place => ⟨(hstoring place).files.agreeOn, (hstoring place).template, ?_⟩, ?_⟩
      · exact fun targets template place' hmatch hsome => h.templates _ template place' ⟨_, targets, hmatch, hsome⟩
      · have hlast := hstoring app.pipeline.stages.length
        rw [← (Pipeline.run_turn app.pipeline ⟨.opening first, world, []⟩).1,
          ← (Pipeline.run_turn app.pipeline ⟨.opening first, world, []⟩).2] at hlast
        exact ih hlast.files hlast.controllers fun r hr => hrequests r (List.mem_cons_of_mem first hr)

end StoresApart

variable {router : RouterOptions} {parser : ParserOptions}

/-- The templates of a site are in its template directory, and so outside of a directory apart from it. -/
theorem hasTemplate_outside (h : ofOptions router parser = .ok site)
    (hext : ∀ extension ∈ router.extensions, '/' ∉ extension.toList)
    (hapart : dir.ApartFrom router.templateRoot) {template place : Path}
    (htemplate : site.HasTemplate world template) (hkey : key template = .ok place) :
    place ∈ dir.outside := by
  obtain ⟨m, hm, hmatcher⟩ := exists_fileMatcher h
  obtain ⟨route, targets, htargets, hsome⟩ := htemplate
  rw [hmatcher] at htargets
  obtain rfl := Except.ok.inj htargets
  obtain ⟨names, hasks⟩ : ∃ names, Route.AsksFor route names := by
    by_contra hnone
    rw [m.targets_eq_none world.files _ hnone] at hsome
    cases hsome
  rw [← hm.extensions] at hext
  obtain ⟨before, extension, after, hsplit, rfl, _⟩ :=
    ((m.matched_targets world.files world.workshop.controllers hext hasks).template _).mp hsome
  have hnames : ∀ n ∈ Route.withExtension extension names, Path.IsName n :=
    Route.isName_withExtension (hext extension (by simp [hsplit])) hasks.isName
  refine ⟨Template.isAbsolute_of_key hkey, Template.normalize_of_key hkey, fun hinside => ?_⟩
  have hplace : place.names = router.templateRoot.names ++ Route.withExtension extension names := by
    rw [Template.names_of_key hkey, Route.FileMatcher.templateFile, Path.names_below _ hnames,
      Path.names_absolute? hm.templateRoot]
  have hbelow := hinside.1
  rw [hplace] at hbelow
  rcases List.prefix_or_prefix_of_prefix hbelow (List.prefix_append _ _) with hroot | hdir
  · exact hapart.1 hroot
  · exact hapart.2 hdir

/-- Bodies that are stored do not make requests influence each other when the storage directory is there from
the start, lies apart from the template directory, and no file outside of it includes one inside. -/
theorem handlesAlike_of_storageApart (hstages : app.stages = site.stages)
    (hhandler : app.handler = site.errorPages) (hfresh : world.workshop.templates = .empty)
    (hsite : ofOptions router parser = .ok site) (hstorage : parser.storageDir = some dir)
    (hext : ∀ extension ∈ router.extensions, '/' ∉ extension.toList)
    (hnormal : dir.normalize = dir) (hthere : world.files.isDirectory dir = true)
    (hapart : dir.ApartFrom router.templateRoot)
    (hincludes : Closed site.library world.files dir.outside)
    (hcontrollers : ∀ route controller, world.workshop.controllers.get? route = some controller →
      controller.StaysOutside dir) {past : List Request}
    (hrequests : ∀ r ∈ past ++ [request], '/' ∉ r.id.toList ∧ r.tempFiles = [] ∧ r.targets.template = none) :
    app.HandlesAlike request (app.after world past) (app.after world past).renewed := by
  have hstores : site.StoresApart world.files dir := by
    refine ⟨⟨parser, ?_, hstorage⟩, hnormal, hthere, ?_, hincludes⟩
    · obtain ⟨_, _, _, _, rfl⟩ := eq_of_ofOptions hsite
      rfl
    · exact fun _ _ _ => hasTemplate_outside hsite hext hapart
  have hsound : site.SoundFor world.files world.workshop.templates := by
    rw [hfresh]
    exact Template.Cache.sound_empty
  exact handlesAlike_renewed_after hstages hhandler (ignoresTemplates_ofOptions hsite) hincludes hsound
    (hstores.undisturbed hstages hhandler (.refl _ _) hcontrollers hrequests)

/-! ## Checking includes -/

/-- No file outside of a directory includes one inside. -/
def includesOutside (library : Template.Library) (files : FileTree) (dir : Path) : Bool :=
  files.files.all fun names =>
    match files.readText (.ofNames true names) with
    | .error _ => true
    | .ok content => (Template.Page.ofText content.toList).directives.all fun d =>
      (library.candidates (library.base d.reference (.ofNames true names))).all fun candidate =>
        candidate.isAbsolute && candidate.normalize = candidate && !decide (Inside dir.names candidate.names)

theorem closed_of_includesOutside {library : Template.Library}
    (h : includesOutside library files dir = true) : Closed library files dir.outside := by
  rintro f ⟨habsolute, hnormal, _⟩ content hread d hd candidate hcandidate
  have hself : Path.ofNames true f.names = f := by rw [← habsolute, ← Path.normalize, hnormal]
  have hfound : files.isFile f = true := by
    rw [FileTree.isFile_eq_isOk_read]
    cases hbytes : files.read f with
    | ok bytes => rfl
    | error fault =>
        rw [FileTree.readText, hbytes] at hread
        cases hread
  have hfile := List.all_eq_true.mp h f.names (FileTree.names_mem_files hfound)
  rw [hself, hread] at hfile
  have hdirective := List.all_eq_true.mp (List.all_eq_true.mp hfile d hd) candidate hcandidate
  simpa [Path.outside, and_assoc] using hdirective

example :
    ∃ site, ofOptions (smallSite ["tmpl"]) (storedIn "/site/b") = .ok site ∧
      let world : World := ⟨⟨(["site", "b"], .directory) :: partFiles.entries⟩, .opening .empty⟩
      let now := (App.ofSite site {} 0).after world [sent "/page" "abc"]
      (App.ofSite site {} 0).HandlesAlike (sent "/page" "abcd") now now.renewed := by
  obtain ⟨site, hsite⟩ : ∃ site, ofOptions (smallSite ["tmpl"]) (storedIn "/site/b") = .ok site := ⟨_, rfl⟩
  have hincludes : includesOutside (.ofRoot (smallSite ["tmpl"]).templateRoot ["tmpl"])
      ⟨(["site", "b"], .directory) :: partFiles.entries⟩ ⟨"/site/b"⟩ = true := by decide +kernel
  have hlibrary : site.library = .ofRoot (smallSite ["tmpl"]).templateRoot ["tmpl"] := by
    cases hsite
    rfl
  refine ⟨site, hsite, handlesAlike_of_storageApart rfl rfl rfl hsite rfl ?_ ?_ ?_ ?_ ?_ ?_ ?_⟩
  · decide
  · decide +kernel
  · decide +kernel
  · exact ⟨by decide +kernel, by decide +kernel⟩
  · rw [hlibrary]
    exact closed_of_includesOutside hincludes
  · intro route controller hget
    cases hget
  · simp [sent, Request.arriving, Route.Targets.none]

end Site

end SiteServer
