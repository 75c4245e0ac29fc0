import SiteServer.Proofs.Route.FileMatcher
import SiteServer.Site.Basic

/-! # What a site matches, and what it keeps out.

A site matches request paths against the absolute forms of its two directories, as they are spelled in its
options. A path can lead out of neither of them. The template directory may lie in the static directory;
its files are told from static files by the spelling of the two directories, so that they are kept out when
both are spelled alike. -/

namespace SiteServer.Site

open Route (AsksFor FileMatcher Targets)

variable {router : RouterOptions} {parser : ParserOptions} {site : Site}

/-! ## Matching -/

/-- The directories and the extensions of the options, with both directories in their absolute forms. -/
structure Describes (router : RouterOptions) (m : FileMatcher) : Prop where
  templateRoot : router.templateRoot.absolute? = some m.templateRoot
  staticRoot : router.staticRoot.absolute? = some m.staticRoot
  extensions : m.extensions = router.extensions

theorem root_eq_ok {path absolute : Path} (h : root path = .ok absolute) :
    path.absolute? = some absolute := by
  rw [root] at h
  split at h
  · rename_i hpath
    cases h
    exact hpath
  · cases h

/-- A site matches against the files and the controllers of its world. -/
theorem exists_fileMatcher (h : ofOptions router parser = .ok site) :
    ∃ m : FileMatcher, Describes router m ∧ site.matcher = fileMatcher m := by
  obtain ⟨templateRoot, staticRoot, htemplate, hstatic, rfl⟩ := eq_of_ofOptions h
  exact ⟨⟨templateRoot, staticRoot, router.extensions⟩,
    ⟨root_eq_ok htemplate, root_eq_ok hstatic, rfl⟩, rfl⟩

/-- Request paths have no targets unless they consist of names with one slash between each two of them;
then their targets are the controller of this name and the files with these names in the two directories. -/
theorem matching_exact (h : ofOptions router parser = .ok site)
    (hext : ∀ extension ∈ router.extensions, '/' ∉ extension.toList) :
    ∃ m : FileMatcher, Describes router m ∧ ∀ world path, ∃ targets,
      site.matcher world path = .ok targets ∧
        ((¬ ∃ names, AsksFor path names) → targets = .none) ∧
        ∀ names, AsksFor path names →
          m.Matched world.files world.workshop.controllers.routes names targets := by
  obtain ⟨m, hm, hmatcher⟩ := exists_fileMatcher h
  refine ⟨m, hm, fun world path => ⟨_, congrFun (congrFun hmatcher world) path, ?_, ?_⟩⟩
  · exact m.targets_eq_none world.files _
  · rw [← hm.extensions] at hext
    exact fun names hasks => FileMatcher.matched_targets world.files _ hext hasks

/-- A site with one template and one static file, below a directory that is named in a roundabout way. -/
def roundabout : World where
  files := ⟨[(["site"], .directory), (["site", "public"], .directory),
    (["site", "public", "app.js"], .file (bytesOf "run()")),
    (["site", "public", "templates"], .directory), (["site", "public", "templates", "a"], .directory),
    (["site", "public", "templates", "a", "b.ejs"], .file (bytesOf "page"))]⟩
  workshop := .opening .empty

/-- Slashes at the ends of a path do not matter, and a `..` in it leads nowhere. -/
theorem matching_exact_roundabout :
    ∃ site, ofOptions { basePath := ⟨"site/../site"⟩ } {} = .ok site ∧
      (∃ targets, site.matcher roundabout "//a/b/" = .ok targets ∧
        targets.template = some ⟨"/site/../site/public/templates/a/b.ejs"⟩) ∧
      site.matcher roundabout "/a/../a/b" = .ok .none := by
  have hsite : ofOptions { basePath := ⟨"site/../site"⟩ } {} = .ok _ := rfl
  obtain ⟨m, hm, hmatch⟩ := matching_exact hsite (by decide)
  have hroot : m.templateRoot = ⟨"/site/../site/public/templates"⟩ := by
    have hspelled : (RouterOptions.templateRoot { basePath := ⟨"site/../site"⟩ }).absolute? =
        some ⟨"/site/../site/public/templates"⟩ := by decide +kernel
    exact Option.some.inj (hm.templateRoot.symm.trans hspelled)
  refine ⟨_, hsite, ?_, ?_⟩
  · obtain ⟨targets, htargets, -, hmatched⟩ := hmatch roundabout "//a/b/"
    have hplain : ∀ name ∈ ["a", "b"], Route.IsPlainName name := by
      intro name hname
      rcases List.mem_pair.mp hname with rfl | rfl <;>
        exact ⟨by decide, by decide, by decide, by decide, by decide⟩
    refine ⟨targets, htargets, ((hmatched ["a", "b"] ⟨by decide, hplain, 2, 1, by decide⟩).template
      _).mpr ⟨["tmpl"], "ejs", ["html"], hm.extensions, ?_, by decide +kernel, ?_⟩⟩
    · rw [FileMatcher.templateFile, hroot]
      decide +kernel
    · rw [List.forall_mem_singleton, FileMatcher.templateFile, hroot]
      decide +kernel
  · obtain ⟨targets, htargets, hnone, -⟩ := hmatch roundabout "/a/../a/b"
    rw [htargets, hnone (Route.safe?_eq_none_iff.mp (by decide +kernel))]

/-! ## Templates are not sent -/

/-- A static file never lies in the template directory as that is spelled. Nor does it in normal form,
where the two directories are spelled alike. -/
theorem templates_kept_out {templateRoot staticRoot file : Path} {world : World} {path : String}
    {targets : Targets} (h : ofOptions router parser = .ok site)
    (htemplate : router.templateRoot.absolute? = some templateRoot)
    (hstatic : router.staticRoot.absolute? = some staticRoot)
    (htargets : site.matcher world path = .ok targets) (hfile : targets.static = some file) :
    file.startsWith templateRoot = false ∧
      (templateRoot.SpelledAlike staticRoot →
        file.normalize.startsWith templateRoot.normalize = false) := by
  obtain ⟨m, hm, hmatcher⟩ := exists_fileMatcher h
  cases hm.templateRoot.symm.trans htemplate
  cases hm.staticRoot.symm.trans hstatic
  rw [hmatcher] at htargets
  obtain rfl := Except.ok.inj htargets
  obtain ⟨names, hasks⟩ : ∃ names, AsksFor path names := by
    by_contra hnone
    rw [m.targets_eq_none world.files _ hnone] at hfile
    cases hfile
  rw [FileMatcher.targets, hasks.safe?_eq] at hfile
  obtain ⟨rfl, _, houtside⟩ := FileMatcher.static?_eq_some_iff.mp hfile
  refine ⟨houtside, fun halike => ?_⟩
  by_contra hinside
  rw [Bool.not_eq_false] at hinside
  have hspelled := halike.startsWith_below (Path.isAbsolute_absolute? htemplate)
    (Path.isAbsolute_absolute? hstatic) hasks.isName hinside
  rw [houtside] at hspelled
  cases hspelled

/-- A `..` in the path that both directories start with does no harm. -/
theorem templates_kept_out_roundabout :
    ∃ site targets, ofOptions { basePath := ⟨"site/../site"⟩ } {} = .ok site ∧
      site.matcher roundabout "/app.js" = .ok targets ∧
      targets.static = some ⟨"/site/../site/public/app.js"⟩ ∧
      (Path.mk "/site/../site/public/app.js").normalize.startsWith
        (Path.mk "/site/../site/public/templates").normalize = false := by
  have hsite : ofOptions { basePath := ⟨"site/../site"⟩ } {} = .ok _ := rfl
  have htargets : (fileMatcher ⟨⟨"/site/../site/public/templates"⟩, ⟨"/site/../site/public"⟩,
      ["tmpl", "ejs", "html"]⟩) roundabout "/app.js" =
        .ok ⟨none, none, some ⟨"/site/../site/public/app.js"⟩⟩ := by
    decide +kernel
  have halike : (Path.mk "/site/../site/public/templates").SpelledAlike
      ⟨"/site/../site/public"⟩ := by
    refine ⟨(Path.mk "/site/../site/public").components, [.name "templates"], [], ?_, ?_, ?_, ?_⟩ <;>
      decide +kernel
  exact ⟨_, _, hsite, htargets, rfl, (templates_kept_out hsite (by decide +kernel)
    (by decide +kernel) htargets rfl).2 halike⟩

/-- A site whose template directory is reached through the directory that holds it, and once more. -/
def respelled : World where
  files := ⟨[(["site"], .directory), (["site", "public"], .directory),
    (["site", "public", "templates"], .directory),
    (["site", "public", "templates", "a.tmpl"], .file (bytesOf "x"))]⟩
  workshop := .opening .empty

/-- Where the two directories are not spelled alike, a template may be sent. -/
theorem template_sent_respelled :
    ∃ site targets, ofOptions { basePath := ⟨"/site"⟩, templateDir := ⟨"public/../public/templates"⟩ }
        {} = .ok site ∧
      site.matcher respelled "/templates/a.tmpl" = .ok targets ∧
      targets.static = some ⟨"/site/public/templates/a.tmpl"⟩ ∧
      (Path.mk "/site/public/templates/a.tmpl").normalize.startsWith
        (RouterOptions.templateRoot
          { basePath := ⟨"/site"⟩, templateDir := ⟨"public/../public/templates"⟩ }).normalize = true := by
  have hsite : ofOptions { basePath := ⟨"/site"⟩, templateDir := ⟨"public/../public/templates"⟩ } {} =
      .ok _ := rfl
  have htargets : (fileMatcher ⟨⟨"/site/public/../public/templates"⟩, ⟨"/site/public"⟩,
      ["tmpl", "ejs", "html"]⟩) respelled "/templates/a.tmpl" =
        .ok ⟨none, none, some ⟨"/site/public/templates/a.tmpl"⟩⟩ := by
    decide +kernel
  exact ⟨_, _, hsite, htargets, rfl, by decide +kernel⟩

end SiteServer.Site
