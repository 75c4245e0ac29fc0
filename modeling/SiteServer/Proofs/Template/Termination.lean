import SiteServer.Proofs.FileTree
import SiteServer.Proofs.Template.Includes
import SiteServer.Template.Compiler

/-! # How deep an expansion goes.

A directive refers to a regular file, by a path in normal form, and such a path is on the stack at most
once. So a stack has room for each file and for the root, and an expansion that may open so many calls
inside each other comes to its end. -/

namespace SiteServer.Template

variable {library : Library} {tree : FileTree} {finish : Schedule} {root : Path}

/-! ## What a directive refers to -/

theorem normalize_base (reference : String) (including : Path) :
    (library.base reference including).normalize = library.base reference including := by
  unfold Library.base
  split
  · exact Path.normalize_normalize _
  · exact Path.normalize_normalize _

theorem isAbsolute_base (hroot : library.root.isAbsolute) {reference : String} {including : Path}
    (h : including.isAbsolute) : (library.base reference including).isAbsolute := by
  unfold Library.base
  split
  · rw [Path.isAbsolute_normalize]
    exact Path.isAbsolute_join hroot _
  · rw [Path.isAbsolute_normalize]
    refine Path.isAbsolute_join ?_ _
    cases hparent : including.parent? with
    | none => exact hroot
    | some parent => exact Path.isAbsolute_parent? h hparent

theorem mem_candidates_iff {base candidate : Path} : candidate ∈ library.candidates base ↔
    (base.extension?.any library.extensions.contains = true ∧ candidate = base) ∨
      ∃ e ∈ library.extensions, candidate = base.appendExtension e := by
  unfold Library.candidates
  rw [List.mem_append, List.mem_map, List.mem_ite_nil_right, List.mem_singleton]
  simp only [eq_comm]

/-- A directive refers to its base, or to the base with one of the extensions. -/
theorem eq_base_of_resolve? {reference : String} {including target : Path}
    (h : library.resolve? tree reference including = some target) :
    target = library.base reference including ∨ ∃ e ∈ library.extensions,
      target = (library.base reference including).appendExtension e :=
  (mem_candidates_iff.mp (List.mem_of_find?_eq_some h)).imp_left And.right

/-- A directive refers to a path in normal form, and from an absolute path to an absolute one. -/
theorem normalize_of_resolve? (hext : ∀ e ∈ library.extensions, '/' ∉ e.toList)
    {reference : String} {including target : Path}
    (h : library.resolve? tree reference including = some target) :
    target.normalize = target ∧
      target.isAbsolute = (library.base reference including).isAbsolute := by
  have hfile := isFile_of_resolve? h
  rcases eq_base_of_resolve? h with rfl | ⟨e, he, rfl⟩
  · exact ⟨normalize_base _ _, rfl⟩
  · exact FileTree.normalize_appendExtension (normalize_base _ _) (hext e he) hfile

/-! ## Stacks -/

/-- All files on a stack but the root are regular files, and have paths in normal form. -/
theorem Reached.files (hext : ∀ e ∈ library.extensions, '/' ∉ e.toList) {stack : List Path}
    (h : Reached library tree root stack) :
    ∀ f ∈ stack.dropLast, tree.isFile f = true ∧ f.normalize = f := by
  induction h with
  | root => exact fun f hf => absurd hf List.not_mem_nil
  | inner outer refers fresh ih =>
      obtain ⟨_, _, _, _, _, hresolve⟩ := refers
      intro f hf
      rw [List.dropLast_cons_cons] at hf
      rcases List.mem_cons.mp hf with rfl | hf
      · exact ⟨isFile_of_resolve? hresolve, (normalize_of_resolve? hext hresolve).1⟩
      · exact ih f hf

theorem Reached.isAbsolute (hext : ∀ e ∈ library.extensions, '/' ∉ e.toList)
    (hlibrary : library.root.isAbsolute) (hroot : root.isAbsolute) {stack : List Path}
    (h : Reached library tree root stack) : ∀ f ∈ stack, f.isAbsolute = true := by
  induction h with
  | root =>
      intro f hf
      rw [List.mem_singleton.mp hf]
      exact hroot
  | inner outer refers fresh ih =>
      obtain ⟨_, _, _, _, _, hresolve⟩ := refers
      intro f hf
      rcases List.mem_cons.mp hf with rfl | hf
      · rw [(normalize_of_resolve? hext hresolve).2]
        exact isAbsolute_base hlibrary (ih _ List.mem_cons_self)
      · exact ih f hf

theorem Reached.nodup {stack : List Path} (h : Reached library tree root stack) :
    stack.dropLast.Nodup := by
  refine (h.invariant.distinct.imp ?_).sublist (List.dropLast_sublist stack)
  rintro g f hne rfl
  rw [Path.same, decide_eq_false_iff_not] at hne
  exact hne rfl

/-- A stack holds each regular file at most twice, and the root. -/
theorem Reached.length_le (hext : ∀ e ∈ library.extensions, '/' ∉ e.toList) {stack : List Path}
    (h : Reached library tree root stack) : stack.length ≤ 2 * tree.files.length + 1 := by
  have hlength := FileTree.length_le_two_mul_files h.nodup (fun f hf => (h.files hext f hf).2)
    fun f hf => (h.files hext f hf).1
  rw [List.length_dropLast] at hlength
  omega

/-- A stack of absolute paths holds each regular file at most once, and the root. -/
theorem Reached.length_le_of_isAbsolute (hext : ∀ e ∈ library.extensions, '/' ∉ e.toList)
    (hlibrary : library.root.isAbsolute) (hroot : root.isAbsolute) {stack : List Path}
    (h : Reached library tree root stack) : stack.length ≤ tree.files.length + 1 := by
  have hlength := FileTree.length_le_files h.nodup (fun f hf => (h.files hext f hf).2)
    (fun f hf => h.isAbsolute hext hlibrary hroot f ((List.dropLast_sublist stack).subset hf))
    fun f hf => (h.files hext f hf).1
  rw [List.length_dropLast] at hlength
  omega

/-! ## Expansion with a limited depth -/

/-- A call of an expansion: the file, and the files being expanded, innermost first. -/
structure Call where
  path : Path
  stack : List Path
  deriving DecidableEq, Repr

/-- What calls come to, unless there are too many inside each other, and all of them, outer ones
first. -/
abbrev Account := Option (Except Failure (List Char)) × List Call

variable (library tree) in
/-- What a directive comes to when `inner` expands the file that it refers to. -/
def inclusionWithin (inner : Path → List Path → Account) (path : Path) (stack : List Path)
    (i : Inclusion) : Account :=
  match library.resolve? tree i.1.reference path with
  | none => (some (.error ⟨.missing i.1.reference, path, stack.reverse⟩), [])
  | some target =>
    if stack.any target.same then (some (.error ⟨.circular, target, stack.reverse⟩), [])
    else
      let (result, calls) := inner target (target :: stack)
      (result.map (Except.map (fillIn i.2)), calls)

variable (library tree finish) in
/-- The expansion of a file as its calls make it, with at most `depth` of them inside each other. -/
def expandWithin : Nat → Path → List Path → Account
  | 0, path, stack => (none, [⟨path, stack⟩])
  | depth + 1, path, stack =>
    match tree.readText path with
    | .error fault => (some (.error ⟨.read fault, path, stack.reverse⟩), [⟨path, stack⟩])
    | .ok content =>
      let page := Page.ofText content.toList
      match inclusions path page.directives with
      | .error failure => (some (.error failure), [⟨path, stack⟩])
      | .ok includes =>
        let parts := includes.map (inclusionWithin library tree (expandWithin depth) path stack)
        ((parts.mapM Prod.fst).map fun expansions =>
            (Join.settle (finish stack) expansions).map page.splice,
          ⟨path, stack⟩ :: parts.flatMap Prod.snd)

/-- The calls below a directive are those of the file that it refers to. -/
theorem mem_inclusionWithin {inner : Path → List Path → Account} {path : Path}
    {stack : List Path} {i : Inclusion} {call : Call}
    (h : call ∈ (inclusionWithin library tree inner path stack i).2) :
    ∃ target, library.resolve? tree i.1.reference path = some target ∧
      stack.any target.same = false ∧ call ∈ (inner target (target :: stack)).2 := by
  unfold inclusionWithin at h
  cases hresolve : library.resolve? tree i.1.reference path with
  | none =>
      rw [hresolve] at h
      cases h
  | some target =>
      rw [hresolve] at h
      dsimp only at h
      cases hs : stack.any target.same with
      | true =>
          rw [hs, if_pos rfl] at h
          cases h
      | false =>
          rw [hs, if_neg Bool.false_ne_true] at h
          exact ⟨target, rfl, hs, h⟩

/-- Every call that an expansion makes has one of the stacks that are reached, with its file on top. -/
theorem reached_of_mem_expandWithin {depth : Nat} {path : Path} {stack : List Path} {call : Call}
    (hreached : Reached library tree root (path :: stack))
    (h : call ∈ (expandWithin library tree finish depth path (path :: stack)).2) :
    call.stack.head? = some call.path ∧ Reached library tree root call.stack := by
  induction depth generalizing path stack with
  | zero =>
      rw [List.mem_singleton.mp h]
      exact ⟨rfl, hreached⟩
  | succ depth ih =>
      have hself : call = ⟨path, path :: stack⟩ →
          call.stack.head? = some call.path ∧ Reached library tree root call.stack := by
        rintro rfl
        exact ⟨rfl, hreached⟩
      rw [expandWithin] at h
      cases hread : tree.readText path with
      | error fault =>
          rw [hread] at h
          exact hself (List.mem_singleton.mp h)
      | ok content =>
          rw [hread] at h
          dsimp only at h
          cases hincludes : inclusions path (Page.ofText content.toList).directives with
          | error failure =>
              rw [hincludes] at h
              exact hself (List.mem_singleton.mp h)
          | ok includes =>
              rw [hincludes] at h
              rcases List.mem_cons.mp h with h | h
              · exact hself h
              · rw [List.flatMap_map] at h
                obtain ⟨i, hi, hcall⟩ := List.mem_flatMap.mp h
                obtain ⟨target, hresolve, hfresh, hinner⟩ := mem_inclusionWithin hcall
                exact ih (.inner hreached ⟨content, includes, hread, hincludes, hi, hresolve⟩
                  hfresh) hinner

theorem mapM_fst_map {α β γ : Type} {parts : List α} {f : α → Option β × γ} {g : α → β}
    (h : ∀ a ∈ parts, (f a).1 = some (g a)) :
    (parts.map f).mapM Prod.fst = some (parts.map g) := by
  induction parts with
  | nil => rfl
  | cons a rest ih =>
      have ha := h a List.mem_cons_self
      have hrest := ih fun b hb => h b (List.mem_cons_of_mem a hb)
      rw [List.map_cons, List.map_cons, List.mapM_cons, ha, hrest]
      rfl

/-- Where no stack is longer than `bound`, a depth that leaves room up to it is enough. -/
theorem expandWithin_eq {bound depth : Nat} {path : Path} {stack : List Path}
    (hbound : ∀ files, Reached library tree root files → files.length ≤ bound)
    (hreached : Reached library tree root (path :: stack))
    (hdepth : bound < (path :: stack).length + depth) :
    (expandWithin library tree finish depth path (path :: stack)).1 =
      some (expand library tree finish path (path :: stack)) := by
  induction depth generalizing path stack with
  | zero =>
      have := hbound _ hreached
      omega
  | succ depth ih =>
      rw [expandWithin, expand_eq]
      cases hread : tree.readText path with
      | error fault => rfl
      | ok content =>
          dsimp only
          cases hincludes : inclusions path (Page.ofText content.toList).directives with
          | error failure => rfl
          | ok includes =>
              dsimp only
              rw [mapM_fst_map (g := expandInclusion library tree finish path (path :: stack))]
              · rfl
              · intro i hi
                unfold inclusionWithin expandInclusion
                cases hresolve : library.resolve? tree i.1.reference path with
                | none => rfl
                | some target =>
                    dsimp only
                    cases hfresh : (path :: stack).any target.same with
                    | true => rfl
                    | false =>
                        have hinner := ih (.inner hreached
                          ⟨content, includes, hread, hincludes, hi, hresolve⟩ hfresh) (by
                            rw [List.length_cons]
                            omega)
                        rw [if_neg Bool.false_ne_true, if_neg Bool.false_ne_true, hinner]
                        rfl

/-! ## The law of calls -/

/-- What holds of every call that the expansion of a root makes: the stack has the file of the call on
top and the root at the bottom, it has no file twice, and above the root there are regular files, by
their paths in normal form. -/
structure CallLaw (tree : FileTree) (root : Path) (call : Call) : Prop where
  top : call.stack.head? = some call.path
  bottom : call.stack.getLast? = some root
  distinct : call.stack.Pairwise fun g f => g.same f = false
  files : ∀ f ∈ call.stack.dropLast, tree.isFile f = true ∧ f.normalize = f

theorem isAbsolute_ofRoot {directory : Path} {extensions : List String}
    (h : directory.text ≠ "") : (Library.ofRoot directory extensions).root.isAbsolute := by
  unfold Library.ofRoot
  rw [Path.isAbsolute_normalize]
  cases habsolute : directory.absolute? with
  | none =>
      unfold Path.absolute? at habsolute
      rw [if_neg h] at habsolute
      cases habsolute
  | some absolute => exact Path.isAbsolute_absolute? habsolute

/-- For every file tree and every template directory, and whatever is in the files: an expansion obeys
the law of calls, at no call are there more files on the stack than the tree has, besides the root,
and it comes to its end when that many calls may be open. Only a template directory that is the empty
path, and so has no absolute form, lets a file stand on the stack by two paths. -/
theorem expansion_ends {extensions : List String} (hext : ∀ e ∈ extensions, '/' ∉ e.toList)
    {path absolute : Path} (hpath : path.absolute? = some absolute) (directory : Path)
    (tree : FileTree) (finish : Schedule) (depth : Nat) :
    (∀ call ∈ (expandWithin (.ofRoot directory extensions) tree finish depth absolute.normalize
          [absolute.normalize]).2,
        CallLaw tree absolute.normalize call ∧
          call.stack.length ≤ 2 * tree.files.length + 1 ∧
          (directory.text ≠ "" → call.stack.length ≤ tree.files.length + 1)) ∧
      (2 * tree.files.length + 1 ≤ depth ∨ directory.text ≠ "" ∧ tree.files.length + 1 ≤ depth →
        (expandWithin (.ofRoot directory extensions) tree finish depth absolute.normalize
            [absolute.normalize]).1 =
          some (expand (.ofRoot directory extensions) tree finish absolute.normalize
            [absolute.normalize])) := by
  have hroot : absolute.normalize.isAbsolute := by
    rw [Path.isAbsolute_normalize]
    exact Path.isAbsolute_absolute? hpath
  have hlength {stack : List Path}
      (h : Reached (.ofRoot directory extensions) tree absolute.normalize stack) :
      directory.text ≠ "" → stack.length ≤ tree.files.length + 1 :=
    fun hdirectory => h.length_le_of_isAbsolute hext (isAbsolute_ofRoot hdirectory) hroot
  refine ⟨?_, ?_⟩
  · intro call hcall
    obtain ⟨htop, hreached⟩ := reached_of_mem_expandWithin .root hcall
    obtain ⟨hbottom, _, hdistinct⟩ := hreached.invariant
    exact ⟨⟨htop, hbottom, hdistinct, hreached.files hext⟩, hreached.length_le hext,
      hlength hreached⟩
  · rintro (hdepth | ⟨hdirectory, hdepth⟩)
    · refine expandWithin_eq (fun files h => h.length_le hext) .root ?_
      rw [List.length_singleton]
      omega
    · refine expandWithin_eq (fun files h => hlength h hdirectory) .root ?_
      rw [List.length_singleton]
      omega

/-- Two files that include each other, in other words than their paths in normal form. -/
def spelledTree : FileTree :=
  ⟨[(["a.tmpl"], .file (bytesOf "<%- include('./x/../b') %>")),
    (["b.tmpl"], .file (bytesOf "<%- include('//a.tmpl') %>"))]⟩

theorem expansion_ends_spelledTree :
    (expandWithin (.ofRoot ⟨"."⟩ ["tmpl"]) spelledTree .inOrder 3 ⟨"/a.tmpl"⟩ [⟨"/a.tmpl"⟩]).1 =
      some (.error ⟨.circular, ⟨"/a.tmpl"⟩, [⟨"/a.tmpl"⟩, ⟨"/b.tmpl"⟩]⟩) := by
  have hpath : (Path.mk "./a.tmpl").absolute? = some ⟨"/a.tmpl"⟩ := by decide +kernel
  have hnormal : (Path.mk "/a.tmpl").normalize = ⟨"/a.tmpl"⟩ := by decide +kernel
  have hfiles : spelledTree.files.length = 2 := by decide +kernel
  have hends := (expansion_ends (show ∀ e ∈ ["tmpl"], '/' ∉ e.toList by decide) hpath ⟨"."⟩ spelledTree
    .inOrder 3).2 (Or.inr ⟨by decide, by rw [hfiles]⟩)
  rw [hnormal] at hends
  rw [hends]
  decide +kernel

/-- Two files that include each other, one of them from the template directory. -/
def crossedTree : FileTree :=
  ⟨[(["a.tmpl"], .file (bytesOf "<%- include('b') %>")), (["b.tmpl"], .file (bytesOf "<%- include('/a') %>"))]⟩

/-- In an empty template directory two files make four calls inside each other, each of them by two paths. And
the stacks of a relative root begin with the normal form of its absolute form, not with that of the root. -/
theorem expansion_deeper_than_files :
    (crossedTree.files.length = 2 ∧
      Call.mk ⟨"b.tmpl"⟩ [⟨"b.tmpl"⟩, ⟨"a.tmpl"⟩, ⟨"/b.tmpl"⟩, ⟨"/a.tmpl"⟩] ∈
        (expandWithin (.ofRoot ⟨""⟩ ["tmpl"]) crossedTree .inOrder 4 ⟨"/a.tmpl"⟩ [⟨"/a.tmpl"⟩]).2 ∧
      compile (.ofRoot ⟨""⟩ ["tmpl"]) crossedTree .inOrder .empty ⟨"/a.tmpl"⟩ =
        (.error ⟨.circular, ⟨"a.tmpl"⟩, [⟨"/a.tmpl"⟩, ⟨"/b.tmpl"⟩, ⟨"a.tmpl"⟩, ⟨"b.tmpl"⟩]⟩, .empty)) ∧
    ((Path.mk "../page.tmpl").normalize = ⟨"page.tmpl"⟩ ∧
      compile (.ofRoot ⟨"/"⟩ ["tmpl"]) ⟨[]⟩ .inOrder .empty ⟨"../page.tmpl"⟩ =
        (.error ⟨.read .notFound, ⟨"/page.tmpl"⟩, [⟨"/page.tmpl"⟩]⟩, .empty)) := by
  decide +kernel

end SiteServer.Template
