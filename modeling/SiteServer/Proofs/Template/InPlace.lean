import SiteServer.Proofs.Template.PageText

/-! # An include, or characters in its place.

A page includes a file without tags in one tree, and has characters in its place in another. All its other
includes come to the same: those that come back to the page by another path fail in both trees, and in the same
way, since the file without tags has no part in it. So the page fails in the same way in both trees, or what it
comes to differs in that place only. -/

namespace SiteServer.Template

variable {library : Library} {tree other : FileTree} {finish changed : Schedule} {path page target : Path}

/-! ## Orders without one of the includes -/

/-- The order in which includes finish when one of the page is left out. -/
def Schedule.without (page : Path) (place : Nat) (finish : Schedule) : Schedule := fun stack =>
  if stack.head?.map Path.names = some page.names then (finish stack).filterMap (Join.placeBut? place)
  else finish stack

theorem Schedule.without_page (place : Nat) (finish : Schedule) {stack : List Path}
    (h : path.names = page.names) : finish.without page place (path :: stack) =
      (finish (path :: stack)).filterMap (Join.placeBut? place) :=
  if_pos (congrArg some h)

theorem Schedule.without_of_ne (place : Nat) (finish : Schedule) {stack : List Path}
    (h : path.names ≠ page.names) : finish.without page place (path :: stack) = finish (path :: stack) :=
  if_neg fun heq => h (Option.some.inj heq)

/-- Whenever the one that is left out finishes, the others may finish in every order. -/
theorem Schedule.without_surjective (page : Path) (place : Nat) :
    Function.Surjective (Schedule.without page place) := by
  intro finish
  let later (task : Nat) : Nat := if task < place then task else task + 1
  have hlater : Join.placeBut? place ∘ later = some := by
    funext task
    by_cases h : task < place
    · simp [later, Join.placeBut?, h]
    · have hnot : ¬ task + 1 < place := by omega
      have hne : task + 1 ≠ place := by omega
      simp [later, Join.placeBut?, h, hnot, hne]
  refine ⟨fun stack => if stack.head?.map Path.names = some page.names then (finish stack).map later
    else finish stack, ?_⟩
  funext stack
  by_cases h : stack.head?.map Path.names = some page.names
  · rw [without, if_pos h, if_pos h, List.filterMap_map, hlater, List.filterMap_some]
  · rw [without, if_neg h, if_neg h]

/-! ## Texts that differ in one place -/

/-- Both fail in the same way, or they are texts that differ in one place. -/
def DifferIn (fragment between : List Char) (before behind : List Char → Prop)
    (included exchanged : Except Failure (List Char)) : Prop :=
  (∃ failure, included = .error failure ∧ exchanged = .error failure) ∨
    ∃ first last, before first ∧ behind last ∧ included = .ok (first ++ (fragment ++ last)) ∧
      exchanged = .ok (first ++ (between ++ last))

theorem inclusions_exchange (path : Path) (first second : List Directive) {d : Directive}
    (harguments : d.arguments = .ok none) :
    (∃ failure, inclusions path (first ++ d :: second) = .error failure ∧
      inclusions path (first ++ second) = .error failure) ∨
    ∃ includes others, inclusions path first = .ok includes ∧ inclusions path second = .ok others ∧
      inclusions path (first ++ d :: second) = .ok (includes ++ (d, none) :: others) ∧
      inclusions path (first ++ second) = .ok (includes ++ others) := by
  rw [inclusions_append, inclusions_append, inclusions, harguments]
  cases inclusions path first with
  | error failure => exact .inl ⟨failure, rfl, rfl⟩
  | ok includes =>
      cases inclusions path second with
      | error failure => exact .inl ⟨failure, rfl, rfl⟩
      | ok others => exact .inr ⟨includes, others, rfl, rfl, rfl, rfl⟩

/-- An include that stands for a text may be exchanged for characters if all other includes stand for the
same. -/
theorem expandPage_exchange {stack : List Path} {front back : Page} {d : Directive}
    {fragment : List Char} (between : List Char) (harguments : d.arguments = .ok none)
    (hincluded : expandInclusion library tree finish path stack (d, none) = .ok fragment)
    (hfinish : changed stack = (finish stack).filterMap (Join.placeBut? front.directives.length))
    (hsame : ∀ i : Inclusion, i.1 ∈ front.directives ++ back.directives →
      expandInclusion library other changed path stack i = expandInclusion library tree finish path stack i) :
    DifferIn fragment between (expandPage library tree finish path stack front = .ok ·)
      (expandPage library tree finish path stack back = .ok ·)
      (expandPage library tree finish path stack (front ++ .found d :: back))
      (expandPage library other changed path stack (front ++ (between.map .char ++ back))) := by
  have hwith : Page.directives (front ++ .found d :: back) = front.directives ++ d :: back.directives :=
    directives_append front (.found d :: back)
  have hwithout : Page.directives (front ++ (between.map .char ++ back)) =
      front.directives ++ back.directives := by
    rw [directives_append, directives_chars]
  rcases inclusions_exchange path front.directives back.directives harguments with
    ⟨failure, hincludes, hothers⟩ | ⟨includes, others, hfront, hback, hincludes, hothers⟩
  · refine .inl ⟨failure, ?_, ?_⟩
    · rw [expandPage, hwith, hincludes]
    · rw [expandPage, hwithout, hothers]
  · rw [← hwith] at hincludes
    rw [← hwithout] at hothers
    have hfirsts := (inclusions_eq_ok_iff.mp hfront).1
    have hlasts := (inclusions_eq_ok_iff.mp hback).1
    have hmap : (includes ++ others).map (expandInclusion library other changed path stack) =
        includes.map (expandInclusion library tree finish path stack) ++
          others.map (expandInclusion library tree finish path stack) := by
      rw [← List.map_append]
      refine List.map_congr_left fun i hi => hsame i ?_
      rw [← hfirsts, ← hlasts, ← List.map_append]
      exact List.mem_map_of_mem hi
    have hcount : (includes.map (expandInclusion library tree finish path stack)).length =
        front.directives.length := by
      rw [← hfirsts, List.length_map, List.length_map]
    rcases Join.settle_between (finish stack) (includes.map (expandInclusion library tree finish path stack))
      fragment (others.map (expandInclusion library tree finish path stack)) with
      ⟨failure, hsettle, hother⟩ | ⟨first, last, hfirst, hlast⟩
    · rw [hcount, ← hfinish, ← hmap] at hother
      refine .inl ⟨failure, ?_, ?_⟩
      · rw [expandPage_of_inclusions hincludes, List.map_append, List.map_cons, hincluded, hsettle]
        rfl
      · rw [expandPage_of_inclusions hothers, hother]
        rfl
    · have hlength : first.length = front.directives.length := by
        rw [← hcount, hfirst, List.length_map]
      refine .inr ⟨front.splice first, back.splice last, ?_, ?_, ?_, ?_⟩
      · exact expandPage_eq_ok_iff.mpr ⟨includes, first, hfront, hfirst, rfl⟩
      · exact expandPage_eq_ok_iff.mpr ⟨others, last, hback, hlast, rfl⟩
      · refine expandPage_eq_ok_iff.mpr ⟨_, first ++ fragment :: last, hincludes, ?_, ?_⟩
        · rw [List.map_append, List.map_cons, hincluded, hfirst, hlast, List.map_append, List.map_cons]
        · exact splice_append hlength (.found d :: back) (fragment :: last)
      · refine expandPage_eq_ok_iff.mpr ⟨_, first ++ last, hothers, ?_, ?_⟩
        · rw [hmap, hfirst, hlast, List.map_append]
        · rw [splice_append hlength, splice_chars]

/-! ## The two pages -/

/-- A page includes a file without tags in one tree, and has characters in its place in another. -/
structure Exchanged (library : Library) (tree other : FileTree) (page : Path) (front back : Page)
    (d : Directive) (target : Path) (fragment : String) (between : List Char) : Prop where
  isPage : IsPage library tree page
  alike : AlikeBut page tree other
  included : ReadsAs tree page (front ++ .found d :: back)
  exchanged : ReadsAs other page (front ++ (between.map .char ++ back))
  arguments : d.arguments = .ok none
  resolve : library.resolve? tree d.reference page = some target
  apart : target.names ≠ page.names
  read : tree.readText target = .ok fragment
  plain : '<' ∉ fragment.toList

namespace Exchanged

variable {front back : Page} {d : Directive} {fragment : String} {between : List Char}
  (h : Exchanged library tree other page front back d target fragment between)

include h

/-- A file with a directive is not the one that is included. -/
theorem names_ne {content : String} {i : Inclusion} (hfile : tree.isFile path = true)
    (hread : tree.readText path = .ok content) (hi : i.1 ∈ (Page.ofText content.toList).directives) :
    path.names ≠ target.names := by
  intro hnames
  rw [FileTree.readText_congr hfile (isFile_of_resolve? h.resolve) hnames, h.read] at hread
  cases hread
  rw [directives_plain h.plain] at hi
  cases hi

theorem exists_readText (hfile : tree.isFile path = true) (hpath : path.names = page.names) {e : Directive}
    (he : e ∈ front.directives ++ back.directives) :
    ∃ content, tree.readText path = .ok content ∧ e ∈ (Page.ofText content.toList).directives := by
  obtain ⟨content, hread, hcontent⟩ := h.included path hfile hpath
  refine ⟨content, hread, ?_⟩
  rw [hcontent, directives_append]
  exact ((List.sublist_cons_self d back.directives).append_left front.directives).subset he

/-- Wherever the page is read, the include stands for the text. -/
theorem expandInclusion_eq {stack : List Path} (habsolute : path.isAbsolute)
    (hfile : tree.isFile path = true) (hpath : path.names = page.names)
    (hstack : ∀ q ∈ stack, q.names ≠ target.names) :
    expandInclusion library tree finish path (path :: stack) (d, none) = .ok fragment.toList := by
  refine expandInclusion_eq_ok_iff.mpr ⟨target, fragment.toList, ?_, ?_, expand_plain h.read h.plain, rfl⟩
  · rw [← h.resolve, Library.resolve?, Library.resolve?,
      base_congr habsolute h.isPage.absolute hfile h.isPage.file hpath]
  · refine List.any_eq_false.mpr fun q hq hsame => ?_
    have hcomponents : target.components = q.components := of_decide_eq_true hsame
    have hnames : q.names = target.names := by rw [Path.names, Path.names, hcomponents]
    rcases List.mem_cons.mp hq with rfl | hq
    · exact h.apart (hnames.symm.trans hpath)
    · exact hstack q hq hnames

/-- The pages differ in that place only, if all other includes come to the same. -/
theorem expand_page {stack : List Path} (habsolute : path.isAbsolute) (hfile : tree.isFile path = true)
    (hpath : path.names = page.names) (hstack : ∀ q ∈ stack, q.names ≠ target.names)
    (hsame : ∀ i : Inclusion, i.1 ∈ front.directives ++ back.directives →
      expandInclusion library other (finish.without page front.directives.length) path (path :: stack) i =
        expandInclusion library tree finish path (path :: stack) i) :
    DifferIn fragment.toList between (expandPage library tree finish path (path :: stack) front = .ok ·)
      (expandPage library tree finish path (path :: stack) back = .ok ·)
      (expand library tree finish path (path :: stack))
      (expand library other (finish.without page front.directives.length) path (path :: stack)) := by
  rw [h.included.expand_eq hfile hpath, h.exchanged.expand_eq ((h.alike.isFile path).trans hfile) hpath]
  exact expandPage_exchange between h.arguments (h.expandInclusion_eq habsolute hfile hpath hstack)
    (Schedule.without_page _ _ hpath) hsame

/-- A file that is reached from the page comes to the same in both trees if its includes do; if it is the page
once more, it fails. -/
theorem expand_congr {stack : List Path} (habsolute : path.isAbsolute) (hfile : tree.isFile path = true)
    (hreach : Relation.TransGen (Includes library tree) page path)
    (hstack : ∀ q ∈ stack, q.names ≠ target.names)
    (hsame : ∀ {content : String} {i : Inclusion}, tree.readText path = .ok content →
      i.1 ∈ (Page.ofText content.toList).directives →
        expandInclusion library other (finish.without page front.directives.length) path (path :: stack) i =
          expandInclusion library tree finish path (path :: stack) i) :
    expand library other (finish.without page front.directives.length) path (path :: stack) =
      expand library tree finish path (path :: stack) := by
  by_cases hplace : path.names = page.names
  · obtain ⟨first, hfirst, hrest⟩ := Relation.TransGen.head'_iff.mp hreach
    have hothers (i : Inclusion) (hi : i.1 ∈ front.directives ++ back.directives) :
        expandInclusion library other (finish.without page front.directives.length) path (path :: stack) i =
          expandInclusion library tree finish path (path :: stack) i := by
      obtain ⟨content, hread, hmem⟩ := h.exists_readText hfile hplace hi
      exact hsame hread hmem
    rcases h.expand_page habsolute hfile hplace hstack hothers with
      ⟨failure, htree, hother⟩ | ⟨_, _, _, _, hok, _⟩
    · rw [htree, hother]
    · have hback : ComesBack library tree page path := ⟨path, .refl, hplace⟩
      exact absurd hok (h.isPage.expand_ne_ok hfirst ⟨path, hrest, hplace⟩ habsolute hfile hback _ _)
  · rw [expand_eq, expand_eq, h.alike.readText path hplace, Schedule.without_of_ne _ _ hplace]
    cases hread : tree.readText path with
    | error fault => rfl
    | ok content =>
        dsimp only
        cases hincludes : inclusions path (Page.ofText content.toList).directives with
        | error failure => rfl
        | ok includes =>
            refine congrArg (Except.map _) (congrArg (Join.settle _) ?_)
            exact List.map_congr_left fun i hi => hsame hread ((mem_directives_iff hincludes).mpr ⟨i.2, hi⟩)

/-- All other includes come to the same in both trees, on whatever way from the page. -/
theorem expandInclusion_congr {stack : List Path} (habsolute : path.isAbsolute)
    (hfile : tree.isFile path = true) (hreach : Reaches library tree page path)
    (hstack : ∀ q ∈ stack, q.names ≠ target.names) {content : String} {i : Inclusion}
    (hread : tree.readText path = .ok content) (hi : i.1 ∈ (Page.ofText content.toList).directives) :
    expandInclusion library other (finish.without page front.directives.length) path (path :: stack) i =
      expandInclusion library tree finish path (path :: stack) i := by
  induction path, stack using expand_induction tree generalizing content i with
  | call path stack ih =>
      unfold expandInclusion
      rw [h.alike.resolve?_eq]
      cases hresolve : library.resolve? tree i.1.reference path with
      | none => rfl
      | some next =>
          dsimp only
          cases hs : (path :: stack).any next.same with
          | true => rfl
          | false =>
              have hincludes : Includes library tree path next := ⟨content, hread, i.1, hi, hresolve⟩
              have hnext := hincludes.isAbsolute h.isPage.root habsolute
              have hstack' : ∀ q ∈ path :: stack, q.names ≠ target.names :=
                List.forall_mem_cons.mpr ⟨h.names_ne hfile hread hi, hstack⟩
              have hexpand := h.expand_congr hnext hincludes.isFile (.tail' hreach hincludes) hstack'
                (ih next hincludes.isFile hs hnext hincludes.isFile (hreach.tail hincludes) hstack')
              rw [hexpand]

/-- What the page comes to differs in that place only, and what is before and behind it comes to the same
whatever the page is. -/
theorem expand_root :
    DifferIn fragment.toList between
      (fun first => ∀ third, AlikeBut page tree third → ∀ order,
        expandPage library third order page [page] front = .ok first)
      (fun last => ∀ third, AlikeBut page tree third → ∀ order,
        expandPage library third order page [page] back = .ok last)
      (expand library tree finish page [page])
      (expand library other (finish.without page front.directives.length) page [page]) := by
  have hothers (i : Inclusion) (hi : i.1 ∈ front.directives ++ back.directives) :
      expandInclusion library other (finish.without page front.directives.length) page [page] i =
        expandInclusion library tree finish page [page] i := by
    obtain ⟨content, hread, hmem⟩ := h.exists_readText h.isPage.file rfl hi
    exact h.expandInclusion_congr h.isPage.absolute h.isPage.file .refl (List.forall_mem_nil _) hread hmem
  rcases h.expand_page h.isPage.absolute h.isPage.file rfl (List.forall_mem_nil _) hothers with
    hfails | ⟨first, last, hfront, hback, hincluded, hexchanged⟩
  · exact .inl hfails
  · have hpart {part : Page} (hdirectives : part.directives ⊆ front.directives ++ d :: back.directives)
        {text : List Char} (hexpand : expandPage library tree finish page [page] part = .ok text)
        (third : FileTree) (halike : AlikeBut page tree third) (order : Schedule) :
        expandPage library third order page [page] part = .ok text := by
      refine h.isPage.expandPage_eq_ok halike hincluded h.included ?_ hexpand
      rwa [directives_append]
    refine .inr ⟨first, last, hpart (List.subset_append_left _ _) hfront, ?_, hincluded, hexchanged⟩
    exact hpart (List.subset_append_of_subset_right _ (List.subset_cons_self d _)) hback

end Exchanged

end SiteServer.Template
