import Mathlib.Data.List.Find
import Mathlib.Data.Set.Defs
import SiteServer.Proofs.Template.Includes
import SiteServer.Proofs.Template.Snapshot

/-! # What templates are made from.

A template is made from its file and from the paths that are tried for the directives in it, and so on. As
long as these read the same, it makes no difference when the template was made, or whether it was kept in a
cache. -/

namespace SiteServer

/-! ## Trees that agree on some paths -/

/-- Reading any of some paths gives the same in two trees. -/
def FileTree.AgreeOn (paths : Set Path) (tree other : FileTree) : Prop :=
  ∀ p ∈ paths, other.read p = tree.read p

namespace FileTree

variable {tree other : FileTree} {paths : Set Path} {p : Path}

theorem isFile_eq_isOk_read (tree : FileTree) (p : Path) : tree.isFile p = (tree.read p).isOk := by
  unfold isFile content? read
  cases tree.find p with
  | error fault => rfl
  | ok found =>
      obtain ⟨place, entry⟩ := found
      cases entry <;> rfl

theorem AgreeOn.isFile (h : AgreeOn paths tree other) (hp : p ∈ paths) :
    other.isFile p = tree.isFile p := by
  rw [isFile_eq_isOk_read, isFile_eq_isOk_read, h p hp]

theorem AgreeOn.readText (h : AgreeOn paths tree other) (hp : p ∈ paths) :
    other.readText p = tree.readText p := by
  rw [FileTree.readText, FileTree.readText, h p hp]

end FileTree

namespace Template

open FileTree (AgreeOn)

variable {library : Library} {tree other : FileTree} {finish : Schedule} {sources : Set Path}

/-! ## Sources -/

/-- Some paths are sources in a tree when all paths that are tried for a directive in one of them are among
them. -/
def Closed (library : Library) (tree : FileTree) (sources : Set Path) : Prop :=
  ∀ f ∈ sources, ∀ content, tree.readText f = .ok content →
    ∀ d ∈ (Page.ofText content.toList).directives,
      ∀ candidate ∈ library.candidates (library.base d.reference f), candidate ∈ sources

theorem resolve?_congr {reference : String} {including : Path} (hagree : AgreeOn sources tree other)
    (h : ∀ c ∈ library.candidates (library.base reference including), c ∈ sources) :
    library.resolve? other reference including = library.resolve? tree reference including :=
  List.find?_congr fun c hc => hagree.isFile (h c hc)

/-- The expansion of a source depends on sources only. -/
theorem expand_congr (hclosed : Closed library tree sources) (hagree : AgreeOn sources tree other)
    {path : Path} (hpath : path ∈ sources) (stack : List Path) :
    expand library other finish path (path :: stack) = expand library tree finish path (path :: stack) := by
  induction path, stack using expand_induction tree with
  | call path stack ih =>
      rw [expand_eq, expand_eq, hagree.readText hpath]
      cases hread : tree.readText path with
      | error fault => rfl
      | ok content =>
          dsimp only
          cases hincludes : inclusions path (Page.ofText content.toList).directives with
          | error failure => dsimp only
          | ok includes =>
              suffices hmap : includes.map (expandInclusion library other finish path (path :: stack)) =
                  includes.map (expandInclusion library tree finish path (path :: stack)) by
                dsimp only
                rw [hmap]
              refine List.map_congr_left fun i hi => ?_
              have hmem : i.1 ∈ (Page.ofText content.toList).directives :=
                (mem_directives_iff hincludes).mpr ⟨i.2, hi⟩
              have hcandidates := hclosed path hpath content hread i.1 hmem
              unfold expandInclusion
              rw [resolve?_congr hagree hcandidates]
              cases hresolve : library.resolve? tree i.1.reference path with
              | none => rfl
              | some target =>
                  dsimp only
                  cases hs : (path :: stack).any target.same with
                  | true => rfl
                  | false =>
                      have htarget := hcandidates target (List.mem_of_find?_eq_some hresolve)
                      rw [ih target (isFile_of_resolve? hresolve) hs htarget]

theorem build_congr (hclosed : Closed library tree sources) (hagree : AgreeOn sources tree other)
    {path : Path} (hpath : path ∈ sources) :
    build library other finish path = build library tree finish path := by
  rw [build, build, expand_congr hclosed hagree hpath]

/-- All paths that are tried for directives in the files of a list are in the list. -/
def closedIn (library : Library) (tree : FileTree) (paths : List Path) : Bool :=
  paths.all fun f =>
    match tree.readText f with
    | .error _ => true
    | .ok content => (Page.ofText content.toList).directives.all fun d =>
      (library.candidates (library.base d.reference f)).all paths.contains

theorem closed_of_closedIn {paths : List Path} (h : closedIn library tree paths = true) :
    Closed library tree {p | p ∈ paths} := by
  intro f hf content hread d hd candidate hcandidate
  have hfile := List.all_eq_true.mp h f hf
  rw [hread] at hfile
  have hdirective := List.all_eq_true.mp hfile d hd
  exact List.contains_iff_mem.mp (List.all_eq_true.mp hdirective candidate hcandidate)

/-! ## Sound caches -/

/-- What a cache has is what some files give. -/
def Cache.Sound (library : Library) (tree : FileTree) (finish : Schedule) (cache : Cache) : Prop :=
  ∀ path place template, key path = .ok place → cache.find? place = some template →
    build library tree finish place = .ok template

theorem Cache.sound_empty : Cache.empty.Sound library tree finish := by
  intro path place template _ hfind
  cases hfind

theorem Cache.Sound.insert {cache : Cache} (h : cache.Sound library tree finish) {path place : Path}
    {template : Template} (hkey : key path = .ok place)
    (hbuild : build library tree finish place = .ok template) :
    (cache.insert place template).Sound library tree finish := by
  intro asked other kept hother hfind
  rw [Cache.find?_insert] at hfind
  split at hfind
  · rename_i hsame
    cases eq_of_same_of_key hkey hother hsame
    cases hfind
    exact hbuild
  · exact h asked other kept hother hfind

/-- From a sound cache as from none, a source is compiled to what its files give. -/
theorem compile_of_sound {cache : Cache} {path : Path} (hclosed : Closed library tree sources)
    (hagree : AgreeOn sources tree other) (hsound : cache.Sound library tree finish)
    (hpath : ∀ place, key path = .ok place → place ∈ sources) :
    (compile library other finish cache path).1 = (key path).bind (build library tree finish) ∧
      (compile library other finish cache path).2.Sound library tree finish := by
  unfold compile
  cases hkey : key path with
  | error failure => exact ⟨rfl, hsound⟩
  | ok place =>
      dsimp only
      cases hfind : cache.find? place with
      | some template => exact ⟨(hsound path place template hkey hfind).symm, hsound⟩
      | none =>
          dsimp only
          rw [build_congr hclosed hagree (hpath place hkey)]
          cases hbuild : build library tree finish place with
          | error failure => exact ⟨hbuild.symm, hsound⟩
          | ok template => exact ⟨hbuild.symm, hsound.insert hkey hbuild⟩

end Template

end SiteServer
