import SiteServer.Proofs.FileTree.Removal
import SiteServer.Proofs.Path.Canonical
import SiteServer.Proofs.Template.Termination

/-! # What references lead to.

A reference starts beside the file it stands in, or with a slash in the template directory. From there its
steps settle on a base, and the first regular file among the base and the base with each extension is what
it leads to. A second slash at its start makes it a path of its own, which no directory has a say in. -/

namespace SiteServer.Template

variable {library : Library} {tree : FileTree} {finish : Schedule} {extensions : List String}
  {reference : String} {including base target : Path} {stack : List Path}

/-! ## Bases -/

/-- The directory where a reference in a file starts, and what is left of the reference there. One slash at
the start stands for the template directory. -/
inductive StartsIn (library : Library) (including : Path) : String → Path → String → Prop where
  | root (rest : String) : StartsIn library including ("/" ++ rest) library.root rest
  | beside {reference : String} (unrooted : ∀ rest, reference ≠ "/" ++ rest) :
      StartsIn library including reference (including.parent?.getD library.root) reference

theorem base_root (library : Library) (rest : String) (including : Path) :
    library.base ("/" ++ rest) including = (library.root.join ⟨rest⟩).normalize := by
  have hlist : ("/" ++ rest).toList = '/' :: rest.toList := String.toList_append
  rw [Library.base, hlist]
  change (library.root.join ⟨String.ofList rest.toList⟩).normalize = _
  rw [String.ofList_toList]

theorem base_beside (unrooted : ∀ rest, reference ≠ "/" ++ rest) :
    library.base reference including =
      ((including.parent?.getD library.root).join ⟨reference⟩).normalize := by
  rw [Library.base]
  split
  · rename_i rooted hlist
    exact absurd (String.toList_inj.mp (by simp [hlist])) (unrooted (.ofList rooted))
  · rfl

theorem exists_startsIn (library : Library) (reference : String) (including : Path) :
    ∃ directory rest, StartsIn library including reference directory rest ∧
      library.base reference including = (directory.join ⟨rest⟩).normalize := by
  by_cases hrooted : ∃ rest, reference = "/" ++ rest
  · obtain ⟨rest, rfl⟩ := hrooted
    exact ⟨_, rest, .root rest, base_root library rest including⟩
  · have hunrooted := not_exists.mp hrooted
    exact ⟨_, reference, .beside hunrooted, base_beside hunrooted⟩

/-- It does not matter by which absolute path a file is known that a reference stands in. -/
theorem base_congr {p q : Path} (hp : p.isAbsolute) (hq : q.isAbsolute) (hfileP : tree.isFile p = true)
    (hfileQ : tree.isFile q = true) (hnames : p.names = q.names) (reference : String) :
    library.base reference p = library.base reference q := by
  by_cases hrooted : ∃ rest, reference = "/" ++ rest
  · obtain ⟨rest, rfl⟩ := hrooted
    rw [base_root, base_root]
  · have hrelative : (Path.mk reference).isAbsolute = false :=
      Bool.eq_false_iff.mpr fun habs => hrooted (Path.isAbsolute_iff.mp habs)
    obtain ⟨nameP, hnameP⟩ := FileTree.exists_fileName? hfileP
    obtain ⟨nameQ, hnameQ⟩ := FileTree.exists_fileName? hfileQ
    obtain ⟨parentP, hparentP, habsP, houterP⟩ := Path.exists_parent? hp hnameP
    obtain ⟨parentQ, hparentQ, habsQ, houterQ⟩ := Path.exists_parent? hq hnameQ
    have houter : parentP.names = parentQ.names := by
      rw [houterP, houterQ] at hnames
      exact (List.append_inj' hnames rfl).1
    have hparent : parentP.normalize = parentQ.normalize := by
      rw [Path.normalize, Path.normalize, habsP, habsQ, houter]
    rw [base_beside (not_exists.mp hrooted), base_beside (not_exists.mp hrooted), hparentP, hparentQ,
      Option.getD_some, Option.getD_some, Path.normalize_join hrelative, hparent,
      ← Path.normalize_join hrelative]

/-! ## Candidates -/

/-- The last name of a path ends in one of the extensions, after a dot and something before the dot. -/
def HasExtension (extensions : List String) (p : Path) : Prop :=
  ∃ outer stem extension, p.names = outer ++ [stem ++ "." ++ extension] ∧ stem ≠ "" ∧
    '.' ∉ extension.toList ∧ extension ∈ extensions

theorem hasExtension_iff {p : Path} (h : p.normalize = p) :
    p.extension?.any extensions.contains = true ↔ HasExtension extensions p := by
  simp only [Option.any_eq_true, List.contains_iff_mem, Path.extension?_eq_some_iff,
    Path.fileName?_eq_some_iff h]
  constructor
  · rintro ⟨extension, ⟨stem, ⟨outer, hnames⟩, hstem, hdot⟩, hmem⟩
    exact ⟨outer, stem, extension, hnames, hstem, hdot, hmem⟩
  · rintro ⟨outer, stem, extension, hnames, hstem, hdot, hmem⟩
    exact ⟨extension, ⟨stem, ⟨outer, hnames⟩, hstem, hdot⟩, hmem⟩

/-- The first regular file for a base: the base as it is, if it has one of the extensions, or else the base
with the first extension that makes it one. -/
inductive FirstFile (extensions : List String) (tree : FileTree) (base : Path) : Path → Prop where
  | asIs (known : HasExtension extensions base) (file : tree.isFile base = true) :
      FirstFile extensions tree base base
  | extended {before after : List String} {extension : String}
      (notAsIs : HasExtension extensions base → tree.isFile base = false)
      (split : extensions = before ++ extension :: after)
      (passed : ∀ e ∈ before, tree.isFile (base.appendExtension e) = false)
      (file : tree.isFile (base.appendExtension extension) = true) :
      FirstFile extensions tree base (base.appendExtension extension)

structure NoFile (extensions : List String) (tree : FileTree) (base : Path) : Prop where
  asIs : HasExtension extensions base → tree.isFile base = false
  extended : ∀ e ∈ extensions, tree.isFile (base.appendExtension e) = false

theorem find?_candidates (h : base.normalize = base) :
    (library.candidates base).find? tree.isFile = some target ↔
      FirstFile library.extensions tree base target := by
  have hknown : base.extension?.any library.extensions.contains = true ↔
      HasExtension library.extensions base := hasExtension_iff h
  unfold Library.candidates
  dsimp only
  rw [List.find?_append, List.find?_map]
  by_cases hasIs : HasExtension library.extensions base ∧ tree.isFile base = true
  · rw [if_pos (hknown.mpr hasIs.1), List.find?_cons_of_pos hasIs.2, Option.some_or]
    constructor
    · intro htarget
      cases htarget
      exact .asIs hasIs.1 hasIs.2
    · rintro (⟨_, _⟩ | ⟨notAsIs, _⟩)
      · rfl
      · rw [notAsIs hasIs.1] at hasIs
        exact absurd hasIs.2 Bool.false_ne_true
  · have hpass : HasExtension library.extensions base → tree.isFile base = false :=
      fun hhas => Bool.eq_false_iff.mpr fun hfile => hasIs ⟨hhas, hfile⟩
    have hnone : (if base.extension?.any library.extensions.contains then [base] else []).find?
        tree.isFile = none := by
      split_ifs with hhas
      · simpa using hpass (hknown.mp hhas)
      · rfl
    rw [hnone, Option.none_or, Option.map_eq_some_iff]
    simp only [List.find?_eq_some_iff_append, Bool.not_eq_true']
    constructor
    · rintro ⟨extension, ⟨file, before, after, split, passed⟩, rfl⟩
      exact .extended hpass split passed file
    · rintro (⟨known, file⟩ | ⟨_, split, passed, file⟩)
      · exact absurd ⟨known, file⟩ hasIs
      · exact ⟨_, ⟨file, _, _, split, passed⟩, rfl⟩

theorem resolve?_eq_some_iff : library.resolve? tree reference including = some target ↔
    FirstFile library.extensions tree (library.base reference including) target :=
  find?_candidates (normalize_base reference including)

theorem resolve?_eq_none_iff : library.resolve? tree reference including = none ↔
    NoFile library.extensions tree (library.base reference including) := by
  rw [Library.resolve?, List.find?_eq_none]
  simp only [mem_candidates_iff, hasExtension_iff (normalize_base reference including),
    Bool.not_eq_true]
  constructor
  · intro h
    exact ⟨fun known => h _ (.inl ⟨known, rfl⟩), fun e he => h _ (.inr ⟨e, he, rfl⟩)⟩
  · rintro ⟨asIs, extended⟩ candidate (⟨known, rfl⟩ | ⟨e, he, rfl⟩)
    · exact asIs known
    · exact extended e he

/-! ## References without a file -/

/-- A reference that leads to no file fails every expansion that it is part of with at least the files that
were being expanded there. -/
theorem length_le_chain {path : Path} {failure : Failure}
    (h : expand library tree finish path (path :: stack) = .error failure)
    (hcause : failure.cause = .missing reference) : (path :: stack).length ≤ failure.chain.length := by
  induction path, stack using expand_induction tree with
  | call path stack ih =>
      rw [expand_eq] at h
      cases hread : tree.readText path with
      | error fault =>
          rw [hread] at h
          cases h
          cases hcause
      | ok content =>
          rw [hread] at h
          dsimp only at h
          cases hincludes : inclusions path (Page.ofText content.toList).directives with
          | error other =>
              rw [hincludes] at h
              cases h
              obtain ⟨_, _, _, _, rfl⟩ := inclusions_eq_error hincludes
              cases hcause
          | ok includes =>
              rw [hincludes] at h
              dsimp only at h
              obtain ⟨i, _, herror⟩ := error_of_map_settle_eq_error h
              rcases expandInclusion_eq_error herror with
                ⟨_, rfl⟩ | ⟨inner, hresolve, ⟨_, rfl⟩ | ⟨hfresh, hexpand⟩⟩
              · rw [List.length_reverse]
              · cases hcause
              · have hle := ih inner (isFile_of_resolve? hresolve) hfresh hexpand
                rw [List.length_cons] at hle
                exact Nat.le_of_succ_le hle

/-- A directive fails for want of a file, with the files that are being expanded, exactly when its reference
leads to none: a directive further inside fails with more files. -/
theorem expandInclusion_eq_missing_iff {i : Inclusion} :
    expandInclusion library tree finish including stack i =
        .error ⟨.missing i.1.reference, including, stack.reverse⟩ ↔
      library.resolve? tree i.1.reference including = none := by
  constructor
  · intro h
    rcases expandInclusion_eq_error h with ⟨hnone, _⟩ | ⟨_, _, ⟨_, hcircular⟩ | ⟨_, hexpand⟩⟩
    · exact hnone
    · have hcause : Cause.missing i.1.reference = .circular := congrArg Failure.cause hcircular
      cases hcause
    · have hle := length_le_chain hexpand rfl
      rw [List.length_cons, List.length_reverse] at hle
      omega
  · intro hnone
    unfold expandInclusion
    rw [hnone]

/-! ## What every reference leads to -/

structure Resolves (library : Library) (tree : FileTree) (including : Path) (reference : String) :
    Prop where
  /-- Its base is what is left of it, joined to the directory where it starts, in normal form. -/
  base : ∃ directory rest, StartsIn library including reference directory rest ∧
    library.base reference including = (directory.join ⟨rest⟩).normalize
  /-- It leads to the first regular file for its base. -/
  found : ∀ target, library.resolve? tree reference including = some target ↔
    FirstFile library.extensions tree (library.base reference including) target
  /-- It never leads to a directory. -/
  regular : ∀ target, library.resolve? tree reference including = some target →
    tree.isDirectory target = false
  /-- A directive with this reference fails for want of a file, naming the file it stands in and the files
  that are being expanded, exactly when there is no regular file for the base. -/
  missing : ∀ (finish : Schedule) (stack : List Path) (i : Inclusion), i.1.reference = reference →
    (expandInclusion library tree finish including stack i =
        .error ⟨.missing reference, including, stack.reverse⟩ ↔
      NoFile library.extensions tree (library.base reference including))
  /-- References with the same base lead to the same file, or to none. -/
  sameBase : ∀ (other : String) (file : Path),
    library.base other file = library.base reference including →
      library.resolve? tree other file = library.resolve? tree reference including
  /-- If no extension has a slash, it leads to a path in normal form, which is absolute if the base is; and of
  two references that lead to one file by absolute paths, or both by relative ones, the paths are the same. -/
  canonical : (∀ e ∈ library.extensions, '/' ∉ e.toList) →
    ∀ target, library.resolve? tree reference including = some target →
      target.normalize = target ∧
        target.isAbsolute = (library.base reference including).isAbsolute ∧
        ∀ (other : String) (file found : Path), library.resolve? tree other file = some found →
          found.isAbsolute = target.isAbsolute → tree.locate found = tree.locate target →
            found = target
  /-- If the template directory and the files are written as absolute paths, it leads to an absolute path, the
  one path by which any reference in any file leads to that file. -/
  onePath : (∀ e ∈ library.extensions, '/' ∉ e.toList) → library.root.isAbsolute → including.isAbsolute →
    ∀ target, library.resolve? tree reference including = some target →
      target.isAbsolute ∧
        ∀ (other : String) (file found : Path), file.isAbsolute →
          library.resolve? tree other file = some found → tree.locate found = tree.locate target →
            found = target

/-- References in absolute files lead to absolute paths. -/
theorem isAbsolute_of_resolve? (hroot : library.root.isAbsolute) (hincluding : including.isAbsolute)
    (h : library.resolve? tree reference including = some target) : target.isAbsolute := by
  have hbase : (library.base reference including).isAbsolute := isAbsolute_base hroot hincluding
  rcases eq_base_of_resolve? h with rfl | ⟨e, _, rfl⟩
  · exact hbase
  · exact Path.isAbsolute_append (Path.isAbsolute_append hbase ".") e

/-- A file is reached by one absolute path in normal form, and by one that is relative. -/
theorem eq_of_resolve? {other : String} {file found : Path}
    (hext : ∀ e ∈ library.extensions, '/' ∉ e.toList)
    (h : library.resolve? tree reference including = some target)
    (hfound : library.resolve? tree other file = some found)
    (hsame : found.isAbsolute = target.isAbsolute) (hplace : tree.locate found = tree.locate target) :
    found = target :=
  FileTree.eq_of_locate_eq (normalize_of_resolve? hext hfound).1 (normalize_of_resolve? hext h).1 hsame
    (isFile_of_resolve? hfound) (isFile_of_resolve? h) hplace

/-- Every reference in every file is resolved so, whatever files there are. -/
theorem reference_resolved (library : Library) (tree : FileTree) (including : Path)
    (reference : String) : Resolves library tree including reference where
  base := exists_startsIn library reference including
  found _ := resolve?_eq_some_iff
  regular _ h := FileTree.isDirectory_of_isFile (isFile_of_resolve? h)
  missing finish stack i hreference := by
    subst hreference
    rw [expandInclusion_eq_missing_iff, resolve?_eq_none_iff]
  sameBase other file hbase := by
    rw [Library.resolve?, Library.resolve?, hbase]
  canonical hext target h := by
    obtain ⟨hnormal, habs⟩ := normalize_of_resolve? hext h
    exact ⟨hnormal, habs, fun other file found => eq_of_resolve? hext h⟩
  onePath hext hroot hincluding target h := by
    have habs := isAbsolute_of_resolve? hroot hincluding h
    refine ⟨habs, fun other file found hfile hfound hplace => ?_⟩
    have hfoundAbs := isAbsolute_of_resolve? hroot hfile hfound
    exact eq_of_resolve? hext h hfound (hfoundAbs.trans habs.symm) hplace

/-- A page and a part, with an extension that has a dot in it. -/
def dottedTree : FileTree :=
  ⟨[(["page.html.ejs"], .file (bytesOf "<%- include('part.html.ejs') %>")),
    (["part.html.ejs"], .file (bytesOf "P"))]⟩

/-- In an empty template directory two references lead to one file by two paths. And a name that ends in an
extension with a dot in it does not have that extension, but the part behind its last dot. -/
theorem one_file_by_two_paths :
    ((Library.ofRoot ⟨""⟩ ["tmpl"]).resolve? crossedTree "b" ⟨"/a.tmpl"⟩ = some ⟨"/b.tmpl"⟩ ∧
      (Library.ofRoot ⟨""⟩ ["tmpl"]).resolve? crossedTree "/b" ⟨"/a.tmpl"⟩ = some ⟨"b.tmpl"⟩ ∧
      crossedTree.locate ⟨"b.tmpl"⟩ = crossedTree.locate ⟨"/b.tmpl"⟩ ∧ Path.mk "b.tmpl" ≠ ⟨"/b.tmpl"⟩) ∧
    ((Library.ofRoot ⟨"/"⟩ ["html.ejs"]).resolve? dottedTree "part" ⟨"/page.html.ejs"⟩ =
        some ⟨"/part.html.ejs"⟩ ∧
      (Library.ofRoot ⟨"/"⟩ ["html.ejs"]).resolve? dottedTree "part.html.ejs" ⟨"/page.html.ejs"⟩ = none) := by
  decide +kernel

/-! ## References that start with a slash -/

/-- Without `..`, the steps of a reference are names. -/
theorem exists_names_of_rooted {rest : String}
    (hup : .up ∉ (Path.mk ("/" ++ rest)).components) : ∃ names : List String,
      (Path.slices rest.toList).filterMap Path.component? = names.map .name := by
  have hlist : ("/" ++ rest).toList = '/' :: rest.toList := String.toList_append
  have habs : (Path.mk ("/" ++ rest)).isAbsolute = true := Path.isAbsolute_iff.mpr ⟨rest, rfl⟩
  have hsteps : (Path.mk ("/" ++ rest)).components =
      .root :: (Path.slices rest.toList).filterMap Path.component? := by
    unfold Path.components
    dsimp only
    rw [if_pos habs, hlist, Path.slices_cons_slash, List.singleton_append]
    rfl
  obtain ⟨inner, hinner, hnames⟩ := Path.components_of_isAbsolute habs
  rw [hsteps] at hinner hup
  cases hinner
  exact Path.exists_names hnames fun hmem => hup (List.mem_cons_of_mem _ hmem)

/-- A reference that starts with one slash and has no `..` in it goes on from the template directory. -/
theorem base_root_eq {rest : String} (hrest : (Path.mk rest).isAbsolute = false)
    (hup : .up ∉ (Path.mk ("/" ++ rest)).components) (library : Library) (including : Path) :
    ∃ names, (∀ n ∈ library.root.names ++ names, Path.IsName n) ∧
      library.base ("/" ++ rest) including =
        .ofNames library.root.isAbsolute (library.root.names ++ names) := by
  obtain ⟨names, hnames⟩ := exists_names_of_rooted hup
  have hsettled : (library.root.join ⟨rest⟩).names = library.root.names ++ names := by
    rw [Path.names_join hrest, Path.settleNames_components, hnames, Path.settleNames_names,
      List.reverse_append, List.reverse_reverse, List.reverse_reverse]
  refine ⟨names, fun n hn => Path.isName_of_mem_names (hsettled ▸ hn), ?_⟩
  rw [base_root, Path.normalize, Path.isAbsolute_join_of_relative hrest, hsettled]

theorem startsWith_of_components {p root : Path} (more : List Component)
    (h : p.components = root.components ++ more) : p.startsWith root = true := by
  rw [Path.startsWith, List.isPrefixOf_iff_prefix, h]
  exact List.prefix_append _ _

/-- What such a reference leads to lies in the template directory, or is the directory's own path with an
extension. -/
theorem anchored_of_relative {rest : String} (hroot : library.root.normalize = library.root)
    (hrest : (Path.mk rest).isAbsolute = false)
    (hup : .up ∉ (Path.mk ("/" ++ rest)).components)
    (h : library.resolve? tree ("/" ++ rest) including = some target) :
    target.startsWith library.root = true ∨
      ∃ e ∈ library.extensions, target = library.root.appendExtension e := by
  obtain ⟨names, hnames, hbase⟩ := base_root_eq hrest hup library including
  have hcomponents := Path.components_of_normalize hroot
  rcases eq_base_of_resolve? h with rfl | ⟨e, he, rfl⟩
  · left
    refine startsWith_of_components (names.map .name) ?_
    rw [hbase, Path.components_ofNames hnames, hcomponents, List.map_append, List.append_assoc]
  · rcases List.eq_nil_or_concat names with rfl | ⟨outer, last, rfl⟩
    · right
      refine ⟨e, he, ?_⟩
      rw [hbase, List.append_nil, ← Path.normalize, hroot]
    · left
      rw [List.concat_eq_append, ← List.append_assoc] at hnames hbase
      obtain ⟨more, hmore⟩ := Path.exists_components_ofNames library.root.isAbsolute
        (fun n hn => hnames n (List.mem_append_left _ hn)) (last ++ "." ++ e)
      refine startsWith_of_components (outer.map .name ++ more) ?_
      rw [hbase, Path.appendExtension_ofNames, hmore, hcomponents, List.map_append]
      simp only [List.append_assoc]

theorem normalize_root (directory : Path) (extensions : List String) :
    (Library.ofRoot directory extensions).root.normalize = (Library.ofRoot directory extensions).root :=
  Path.normalize_normalize _

/-- A reference that starts with one slash and has no `..` in it never leads out of the template directory,
other than to the directory's own path with an extension. One that starts with more slashes leads to a file
as if it were written from the root of the file tree, wherever the template directory is. -/
theorem rooted_reference_anchored (directory : Path) {rest : String}
    (hup : .up ∉ (Path.mk ("/" ++ rest)).components)
    (h : (Library.ofRoot directory extensions).resolve? tree ("/" ++ rest) including = some target) :
    ((∀ more, rest ≠ "/" ++ more) →
      target.startsWith (Library.ofRoot directory extensions).root = true ∨
        ∃ e ∈ extensions, target = (Library.ofRoot directory extensions).root.appendExtension e) ∧
    (∀ more, rest = "/" ++ more → FirstFile extensions tree (Path.mk rest).normalize target) := by
  constructor
  · intro hone
    have hrest : (Path.mk rest).isAbsolute = false :=
      Bool.eq_false_iff.mpr fun habs => not_exists.mpr hone (Path.isAbsolute_iff.mp habs)
    exact anchored_of_relative (normalize_root directory extensions) hrest hup h
  · rintro more rfl
    have hrest : (Path.mk ("/" ++ more)).isAbsolute = true := Path.isAbsolute_iff.mpr ⟨more, rfl⟩
    rw [resolve?_eq_some_iff, base_root, Path.join, if_pos hrest] at h
    exact h

/-- A site whose templates are in `/site`, with a template beside it. -/
def guardedTree : FileTree :=
  ⟨[(["site"], .directory), (["site", "part.tmpl"], .file (bytesOf "P")),
    (["secret.tmpl"], .file (bytesOf "S"))]⟩

theorem rooted_reference_anchored_roundabout :
    .up ∉ (Path.mk "/.//./part").components ∧
      (Library.ofRoot ⟨"/x/../site//"⟩ ["ejs", "tmpl"]).resolve? guardedTree "/.//./part"
        ⟨"/elsewhere/page.tmpl"⟩ = some ⟨"/site/part.tmpl"⟩ ∧
      ((Path.mk "/site/part.tmpl").startsWith
          (Library.ofRoot ⟨"/x/../site//"⟩ ["ejs", "tmpl"]).root = true ∨
        ∃ e ∈ ["ejs", "tmpl"], Path.mk "/site/part.tmpl" =
          (Library.ofRoot ⟨"/x/../site//"⟩ ["ejs", "tmpl"]).root.appendExtension e) := by
  have hup : .up ∉ (Path.mk ("/" ++ ".//./part")).components := by decide +kernel
  have hfound : (Library.ofRoot ⟨"/x/../site//"⟩ ["ejs", "tmpl"]).resolve? guardedTree
      ("/" ++ ".//./part") ⟨"/elsewhere/page.tmpl"⟩ = some ⟨"/site/part.tmpl"⟩ := by decide +kernel
  have hone : ∀ more, ".//./part" ≠ "/" ++ more := by
    intro more heq
    have hhead := congrArg (fun text : String => text.toList.head?) heq
    simp at hhead
  exact ⟨hup, hfound, (rooted_reference_anchored ⟨"/x/../site//"⟩ hup hfound).1 hone⟩

/-- A reference that starts with two slashes leads out of the template directory, and not to the file in it. -/
theorem doubled_slash_leaves_root :
    .up ∉ (Path.mk "//secret").components ∧
      (Library.ofRoot ⟨"/site"⟩ ["tmpl"]).resolve? guardedTree "//secret" ⟨"/site/page.tmpl"⟩ =
        some ⟨"/secret.tmpl"⟩ ∧
      (Path.mk "/secret.tmpl").startsWith (Library.ofRoot ⟨"/site"⟩ ["tmpl"]).root = false ∧
      (∀ e ∈ ["tmpl"], Path.mk "/secret.tmpl" ≠
        (Library.ofRoot ⟨"/site"⟩ ["tmpl"]).root.appendExtension e) ∧
      (Library.ofRoot ⟨"/site"⟩ ["tmpl"]).resolve? guardedTree "/part" ⟨"/site/page.tmpl"⟩ =
        some ⟨"/site/part.tmpl"⟩ ∧
      (Library.ofRoot ⟨"/site"⟩ ["tmpl"]).resolve? guardedTree "//part" ⟨"/site/page.tmpl"⟩ = none :=
  ⟨by decide +kernel, by decide +kernel, by decide +kernel, by decide +kernel, by decide +kernel,
    by decide +kernel⟩

end SiteServer.Template
