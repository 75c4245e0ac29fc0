import Mathlib.Data.List.Find
import Mathlib.Data.Set.Image
import SiteServer.Proofs.FileTree.Texts
import SiteServer.Proofs.Template.References
import SiteServer.Proofs.Template.Snapshot
import SiteServer.Proofs.Template.Spelling
import SiteServer.Proofs.Template.Tokens

/-! # Pages as texts.

Two trees may differ in the text of one page. An expansion that does not come to the page is the same in both,
and an include of the page that comes back to it fails, since it would come back to it for ever. So what a page
comes to depends on the text of the page and on the other files. -/

namespace SiteServer.Template

variable {library : Library} {tree other : FileTree} {finish changed : Schedule} {path page target : Path}
  {text : List Char}

/-! ## Trees that differ in one page -/

/-- Two trees have the same files, and these have the same texts, perhaps with the exception of one. -/
structure AlikeBut (page : Path) (tree other : FileTree) : Prop where
  isFile : ∀ p, other.isFile p = tree.isFile p
  readText : ∀ p, p.names ≠ page.names → other.readText p = tree.readText p

theorem AlikeBut.symm (h : AlikeBut page tree other) : AlikeBut page other tree :=
  ⟨fun p => (h.isFile p).symm, fun p hp => (h.readText p hp).symm⟩

theorem AlikeBut.trans {third : FileTree} (h : AlikeBut page tree other) (hother : AlikeBut page other third) :
    AlikeBut page tree third :=
  ⟨fun p => (hother.isFile p).trans (h.isFile p), fun p hp => (hother.readText p hp).trans (h.readText p hp)⟩

theorem AlikeBut.resolve?_eq (h : AlikeBut page tree other) (reference : String) (including : Path) :
    library.resolve? other reference including = library.resolve? tree reference including :=
  List.find?_congr fun c _ => h.isFile c

structure IsPage (library : Library) (tree : FileTree) (page : Path) : Prop where
  root : library.root.isAbsolute
  absolute : page.isAbsolute
  file : tree.isFile page

theorem IsPage.of_alikeBut (h : IsPage library tree page) (halike : AlikeBut page tree other) :
    IsPage library other page :=
  ⟨h.root, h.absolute, (halike.isFile page).trans h.file⟩

theorem IsPage.alikeBut_withText (h : IsPage library tree page) (text : List Char) :
    AlikeBut page tree (tree.withText page text) where
  isFile := (FileTree.sameShape_withText (FileTree.holdsFile_names h.file) text).isFile_eq
  readText p hne := by
    have hlocate : tree.locate p ≠ .ok page.names :=
      fun hplace => hne (FileTree.eq_names_of_locate hplace).symm
    rw [FileTree.readText, FileTree.readText,
      FileTree.read_withText_of_ne (FileTree.holdsFile_names h.file) text hlocate]

/-- What the page is read as, by whatever path. -/
def ReadsAs (tree : FileTree) (page : Path) (content : Page) : Prop :=
  ∀ p, tree.isFile p = true → p.names = page.names →
    ∃ text, tree.readText p = .ok text ∧ Page.ofText text.toList = content

theorem ReadsAs.expand_eq {content : Page} (h : ReadsAs tree page content)
    (hfile : tree.isFile path = true) (hpath : path.names = page.names) (stack : List Path) :
    expand library tree finish path stack = expandPage library tree finish path stack content := by
  obtain ⟨text, hread, rfl⟩ := h path hfile hpath
  exact expand_of_readText hread stack

theorem IsPage.readsAs_withText (h : IsPage library tree page) (text : List Char) :
    ReadsAs (tree.withText page text) page (Page.ofText text) := by
  intro p hfile hp
  rw [(h.alikeBut_withText text).isFile] at hfile
  refine ⟨.ofList text, FileTree.readText_withText (FileTree.holdsFile_names h.file) text ?_, ?_⟩
  · rw [(FileTree.locate_of_isFile hfile).1, hp]
  · rw [String.toList_ofList]

/-! ## Coming back to the page -/

/-- A file on the way from a file is that of the page, by whatever path. -/
def ComesBack (library : Library) (tree : FileTree) (page path : Path) : Prop :=
  ∃ file, Reaches library tree path file ∧ file.names = page.names

theorem Includes.isFile (h : Includes library tree path target) : tree.isFile target = true := by
  obtain ⟨_, _, _, _, hresolve⟩ := h
  exact isFile_of_resolve? hresolve

theorem Includes.isAbsolute (h : Includes library tree path target) (hroot : library.root.isAbsolute)
    (habsolute : path.isAbsolute) : target.isAbsolute := by
  obtain ⟨_, _, _, _, hresolve⟩ := h
  exact isAbsolute_of_resolve? hroot habsolute hresolve

/-- A file includes the same files by whatever absolute path it is known. -/
theorem Includes.of_names_eq {p q : Path} (h : Includes library tree p target) (hp : p.isAbsolute)
    (hq : q.isAbsolute) (hfileP : tree.isFile p = true) (hfileQ : tree.isFile q = true)
    (hnames : p.names = q.names) : Includes library tree q target := by
  obtain ⟨content, hread, d, hd, hresolve⟩ := h
  refine ⟨content, ?_, d, hd, ?_⟩
  · rw [← hread, FileTree.readText_congr hfileP hfileQ hnames]
  · rwa [Library.resolve?, base_congr hq hp hfileQ hfileP hnames.symm]

/-- If an include of the page comes back to the page, no file is expanded from which the page is reached. -/
theorem IsPage.expand_ne_ok (h : IsPage library tree page) (hincludes : Includes library tree page target)
    (hback : ComesBack library tree page target) (habsolute : path.isAbsolute)
    (hfile : tree.isFile path = true) (hpath : ComesBack library tree page path) (stack : List Path)
    (text : List Char) : expand library tree finish path (path :: stack) ≠ .ok text := by
  let files : Set Path := {p | p.isAbsolute ∧ tree.isFile p = true ∧ ComesBack library tree page p}
  have hendless : ∀ f ∈ files, ∃ g ∈ files, Includes library tree f g := by
    rintro f ⟨hf, hfileF, again, hreach, hnames⟩
    rcases Relation.ReflTransGen.cases_head hreach with rfl | ⟨next, hstep, hrest⟩
    · exact ⟨target, ⟨hincludes.isAbsolute h.root h.absolute, hincludes.isFile, hback⟩,
        hincludes.of_names_eq h.absolute hf h.file hfileF hnames.symm⟩
    · exact ⟨next, ⟨hstep.isAbsolute h.root hf, hstep.isFile, again, hrest, hnames⟩, hstep⟩
  have hmem : path ∈ files := ⟨habsolute, hfile, hpath⟩
  exact expand_ne_ok_of_endless hendless hmem stack text

/-! ## What does not come back to the page -/

/-- A page that can be expanded is expanded wherever its directives stand for the same. -/
theorem expandPage_eq_ok_congr {stack : List Path} {content : Page}
    (hsame : ∀ i : Inclusion, i.1 ∈ content.directives → ∀ expansion,
      expandInclusion library tree finish path stack i = .ok expansion →
        expandInclusion library other changed path stack i = .ok expansion)
    (h : expandPage library tree finish path stack content = .ok text) :
    expandPage library other changed path stack content = .ok text := by
  obtain ⟨includes, expansions, hincludes, hmap, htext⟩ := expandPage_eq_ok_iff.mp h
  refine expandPage_eq_ok_iff.mpr ⟨includes, expansions, hincludes, ?_, htext⟩
  rw [← hmap]
  refine List.map_congr_left fun i hi => ?_
  have hdirective : i.1 ∈ content.directives := (mem_directives_iff hincludes).mpr ⟨i.2, hi⟩
  have hmem : expandInclusion library tree finish path stack i ∈ expansions.map .ok :=
    hmap ▸ List.mem_map_of_mem hi
  obtain ⟨expansion, _, hexpansion⟩ := List.mem_map.mp hmem
  rw [← hexpansion, hsame i hdirective expansion hexpansion.symm]

theorem AlikeBut.expandInclusion_eq_ok (halike : AlikeBut page tree other) {stack : List Path}
    {i : Inclusion} (htarget : ∀ target, library.resolve? tree i.1.reference path = some target →
      stack.any target.same = false → ∀ inner,
        expand library tree finish target (target :: stack) = .ok inner →
          expand library other changed target (target :: stack) = .ok inner)
    (h : expandInclusion library tree finish path stack i = .ok text) :
    expandInclusion library other changed path stack i = .ok text := by
  obtain ⟨target, inner, hresolve, hs, hinner, hfill⟩ := expandInclusion_eq_ok_iff.mp h
  refine expandInclusion_eq_ok_iff.mpr ⟨target, inner, ?_, hs, htarget target hresolve hs inner hinner, hfill⟩
  rwa [halike.resolve?_eq]

/-- A file from which the page is not reached, and which can be expanded, is expanded without looking at the
page, in whatever order includes finish. -/
theorem AlikeBut.expand_eq_ok (halike : AlikeBut page tree other) {stack : List Path}
    (haway : ¬ ComesBack library tree page path)
    (h : expand library tree finish path (path :: stack) = .ok text) :
    expand library other changed path (path :: stack) = .ok text := by
  induction path, stack using expand_induction tree generalizing text with
  | call path stack ih =>
      have hpath : path.names ≠ page.names := fun hnames => haway ⟨path, .refl, hnames⟩
      obtain ⟨content, _, _, hread, _⟩ := expand_eq_ok_iff.mp h
      rw [expand_of_readText hread] at h
      rw [expand_of_readText ((halike.readText path hpath).trans hread)]
      refine expandPage_eq_ok_congr (fun i hi expansion => ?_) h
      refine halike.expandInclusion_eq_ok fun target hresolve hs inner hinner => ?_
      refine ih target (isFile_of_resolve? hresolve) hs (fun hback => haway ?_) hinner
      obtain ⟨file, hreach, hnames⟩ := hback
      exact ⟨file, hreach.head ⟨content, hread, i.1, hi, hresolve⟩, hnames⟩

/-- Parts of a page that can be expanded are expanded without looking at the page. -/
theorem IsPage.expandPage_eq_ok (h : IsPage library tree page) (halike : AlikeBut page tree other)
    {whole : List Char} (hok : expand library tree finish page [page] = .ok whole) {content part : Page}
    (hcontent : ReadsAs tree page content) (hpart : part.directives ⊆ content.directives)
    (hexpand : expandPage library tree finish page [page] part = .ok text) :
    expandPage library other changed page [page] part = .ok text := by
  obtain ⟨source, hread, rfl⟩ := hcontent page h.file rfl
  refine expandPage_eq_ok_congr (fun i hi expansion => ?_) hexpand
  refine halike.expandInclusion_eq_ok fun target hresolve _ inner => halike.expand_eq_ok fun hback => ?_
  have hincludes : Includes library tree page target := ⟨source, hread, i.1, hpart hi, hresolve⟩
  exact h.expand_ne_ok hincludes hback h.absolute h.file ⟨page, .refl, rfl⟩ [] whole hok

/-! ## Pages from left to right -/

theorem directives_append (first second : Page) :
    Page.directives (first ++ second) = first.directives ++ second.directives := by
  induction first with
  | nil => rfl
  | cons piece first ih =>
      cases piece with
      | char c => exact ih
      | found d => exact congrArg (d :: ·) ih

theorem splice_append {first : Page} {expansions : List (List Char)}
    (h : expansions.length = first.directives.length) (second : Page) (more : List (List Char)) :
    Page.splice (first ++ second) (expansions ++ more) = first.splice expansions ++ second.splice more := by
  induction first generalizing expansions with
  | nil =>
      rw [List.eq_nil_of_length_eq_zero h]
      rfl
  | cons piece first ih =>
      cases piece with
      | char c => exact congrArg (c :: ·) (ih h)
      | found d =>
          cases expansions with
          | nil => cases h
          | cons expansion expansions =>
              have hrest := ih (Nat.succ.inj h)
              simp [Page.splice, hrest]

theorem inclusions_append (path : Path) (first second : List Directive) :
    inclusions path (first ++ second) = (inclusions path first).bind fun includes =>
      (inclusions path second).map (includes ++ ·) := by
  induction first with
  | nil =>
      rw [List.nil_append]
      cases inclusions path second <;> rfl
  | cons d first ih =>
      rw [List.cons_append, inclusions, inclusions]
      cases d.arguments with
      | error fault => rfl
      | ok arguments =>
          dsimp only
          rw [ih]
          cases inclusions path first with
          | error failure => rfl
          | ok includes => cases inclusions path second <;> rfl

/-- Characters in front of a page stay there. -/
theorem expandPage_chars {stack : List Path} (text : List Char) (rest : Page) :
    expandPage library tree finish path stack (text.map .char ++ rest) =
      (expandPage library tree finish path stack rest).map (text ++ ·) := by
  unfold expandPage
  rw [directives_chars]
  cases inclusions path rest.directives with
  | error failure => rfl
  | ok includes =>
      dsimp only
      cases Join.settle (finish stack) (includes.map (expandInclusion library tree finish path stack)) with
      | error failure => rfl
      | ok values => exact congrArg Except.ok (splice_chars text rest values)

/-! ## Files without tags -/

theorem ofText_plain (h : '<' ∉ text) : Page.ofText text = text.map .char := by
  have hsplit : Directive.pattern.split (text ++ []) = _ :=
    marked_directive.split_quiet (quiet_of_not_mem h)
  rwa [List.append_nil, Text.Pattern.split_nil, List.append_nil] at hsplit

theorem directives_plain (h : '<' ∉ text) : (Page.ofText text).directives = [] := by
  have hdirectives := directives_chars text []
  rwa [List.append_nil, ← ofText_plain h] at hdirectives

/-- A file without tags is its own expansion. -/
theorem expand_plain {fragment : String} {stack : List Path} (hread : tree.readText path = .ok fragment)
    (hplain : '<' ∉ fragment.toList) : expand library tree finish path stack = .ok fragment.toList := by
  refine expand_eq_ok_iff.mpr ⟨fragment, [], [], hread, ?_, rfl, ?_⟩
  · rw [directives_plain hplain]
    rfl
  · have hsplice := splice_chars fragment.toList [] []
    rwa [List.append_nil, ← ofText_plain hplain, Page.splice, List.append_nil] at hsplice

end SiteServer.Template
