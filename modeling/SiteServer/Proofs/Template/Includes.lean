import Mathlib.Data.List.Chain
import Mathlib.Logic.Relation
import SiteServer.Proofs.Join
import SiteServer.Template.Expansion

/-! # The include graph, and the calls that an expansion makes along it.

A file is joined to the files that its directives refer to. An expansion walks along these edges with
the files on its way as a stack. What every stack of a call satisfies, which call a failure comes from,
and what success says about all calls is proved here once. -/

namespace SiteServer.Template

variable {library : Library} {tree : FileTree} {finish : Schedule} {root : Path}

/-! ## The include graph -/

/-- A directive of the file `f` refers to the file `g`. -/
def Includes (library : Library) (tree : FileTree) (f g : Path) : Prop :=
  ∃ content, tree.readText f = .ok content ∧
    ∃ d ∈ (Page.ofText content.toList).directives, library.resolve? tree d.reference f = some g

/-- The file `f` is the root, or some file on the way from the root includes it. -/
def Reaches (library : Library) (tree : FileTree) (root f : Path) : Prop :=
  Relation.ReflTransGen (Includes library tree) root f

/-- From the root a file can be reached that includes itself, directly or through others. Paths that
are written differently may be the same. -/
def CycleFrom (library : Library) (tree : FileTree) (root : Path) : Prop :=
  ∃ f g, Reaches library tree root f ∧ Relation.TransGen (Includes library tree) f g ∧
    f.same g = true

/-! ## Directives with their arguments -/

/-- The directives of a page are taken with their arguments, in order, if no literal is refused. -/
theorem inclusions_eq_ok_iff {path : Path} {directives : List Directive}
    {includes : List Inclusion} :
    inclusions path directives = .ok includes ↔
      includes.map Prod.fst = directives ∧ ∀ i ∈ includes, i.1.arguments = .ok i.2 := by
  induction directives generalizing includes with
  | nil =>
      cases includes with
      | nil => simp [inclusions]
      | cons i rest => simp [inclusions]
  | cons d directives ih =>
      rw [inclusions]
      cases hd : d.arguments with
      | error fault =>
          cases includes with
          | nil => simp
          | cons i rest =>
              simp only [reduceCtorEq, List.map_cons, List.cons.injEq, List.mem_cons,
                forall_eq_or_imp, false_iff]
              rintro ⟨⟨rfl, _⟩, hi, _⟩
              rw [hd] at hi
              cases hi
      | ok arguments =>
          dsimp only
          cases hrest : inclusions path directives with
          | error failure =>
              cases includes with
              | nil => simp [Except.map]
              | cons i rest =>
                  simp only [Except.map, reduceCtorEq, List.map_cons, List.cons.injEq,
                    List.mem_cons, forall_eq_or_imp, false_iff]
                  rintro ⟨⟨_, hmap⟩, _, hall⟩
                  rw [ih.mpr ⟨hmap, hall⟩] at hrest
                  cases hrest
          | ok others =>
              have hothers := ih.mp hrest
              simp only [Except.map, Except.ok.injEq]
              constructor
              · rintro rfl
                refine ⟨congrArg (d :: ·) hothers.1, ?_⟩
                intro i hi
                rcases List.mem_cons.mp hi with rfl | hi
                · exact hd
                · exact hothers.2 i hi
              · rintro ⟨hmap, hall⟩
                cases includes with
                | nil => cases hmap
                | cons i rest =>
                    obtain ⟨hi, htail⟩ := List.cons.inj hmap
                    have hrest' := ih.mpr
                      ⟨htail, fun j hj => hall j (List.mem_cons_of_mem _ hj)⟩
                    rw [hrest] at hrest'
                    have hargs := hall i List.mem_cons_self
                    rw [hi, hd] at hargs
                    rw [Except.ok.inj hrest', ← hi, Except.ok.inj hargs]

theorem mem_directives_iff {path : Path} {directives : List Directive} {includes : List Inclusion}
    (h : inclusions path directives = .ok includes) {d : Directive} :
    d ∈ directives ↔ ∃ arguments, (d, arguments) ∈ includes := by
  rw [← (inclusions_eq_ok_iff.mp h).1, List.mem_map]
  constructor
  · rintro ⟨⟨d, arguments⟩, hmem, rfl⟩
    exact ⟨arguments, hmem⟩
  · rintro ⟨arguments, hmem⟩
    exact ⟨(d, arguments), hmem, rfl⟩

/-- A refused literal is that of one of the directives. -/
theorem inclusions_eq_error {path : Path} {directives : List Directive} {failure : Failure}
    (h : inclusions path directives = .error failure) :
    ∃ d ∈ directives, ∃ fault, d.arguments = .error fault ∧
      failure = ⟨.arguments (String.ofList (d.literal.getD [])) fault, path, []⟩ := by
  induction directives with
  | nil => cases h
  | cons d directives ih =>
      rw [inclusions] at h
      cases hd : d.arguments with
      | error fault =>
          rw [hd] at h
          cases h
          exact ⟨d, List.mem_cons_self, fault, hd, rfl⟩
      | ok arguments =>
          rw [hd] at h
          dsimp only at h
          cases hrest : inclusions path directives with
          | error other =>
              rw [hrest] at h
              cases h
              obtain ⟨e, he, hfault⟩ := ih hrest
              exact ⟨e, List.mem_cons_of_mem _ he, hfault⟩
          | ok others =>
              rw [hrest] at h
              cases h

/-! ## Calls -/

/-- The file at the top of a stack is read, and one of its directives, with the arguments, refers to
the file `target`. -/
def Refers (library : Library) (tree : FileTree) (path : Path) (directive : Directive)
    (arguments : Option JsonFields) (target : Path) : Prop :=
  ∃ content includes, tree.readText path = .ok content ∧
    inclusions path (Page.ofText content.toList).directives = .ok includes ∧
    (directive, arguments) ∈ includes ∧ library.resolve? tree directive.reference path = some target

/-- The stacks of the calls that the expansion of a root makes, the file of the call first: the root
alone, and for every file that is referred to and not being expanded, the stack with this file on top. -/
inductive Reached (library : Library) (tree : FileTree) (root : Path) : List Path → Prop where
  | root : Reached library tree root [root]
  | inner {path target : Path} {stack : List Path} {directive : Directive}
      {arguments : Option JsonFields} (outer : Reached library tree root (path :: stack))
      (refers : Refers library tree path directive arguments target)
      (fresh : (path :: stack).any target.same = false) :
      Reached library tree root (target :: path :: stack)

theorem Refers.includes {path target : Path} {directive : Directive}
    {arguments : Option JsonFields}
    (h : Refers library tree path directive arguments target) :
    Includes library tree path target := by
  obtain ⟨content, includes, hread, hincludes, hmem, hresolve⟩ := h
  exact ⟨content, hread, directive, (mem_directives_iff hincludes).mpr ⟨arguments, hmem⟩, hresolve⟩

/-- What every stack of a call satisfies: the root is at the bottom, every file is included by the one
below it, and no file stands in it twice. -/
structure StackInvariant (library : Library) (tree : FileTree) (root : Path) (stack : List Path) :
    Prop where
  bottom : stack.getLast? = some root
  linked : stack.IsChain fun g f => Includes library tree f g
  distinct : stack.Pairwise fun g f => g.same f = false

theorem Reached.invariant {stack : List Path} (h : Reached library tree root stack) :
    StackInvariant library tree root stack := by
  induction h with
  | root => exact ⟨rfl, .singleton _, List.pairwise_singleton _ _⟩
  | @inner path target stack directive arguments outer refers fresh ih =>
      refine ⟨?_, ?_, ?_⟩
      · rw [List.getLast?_cons_cons]
        exact ih.bottom
      · exact .cons_cons refers.includes ih.linked
      · refine List.pairwise_cons.mpr ⟨?_, ih.distinct⟩
        intro f hf
        simpa using List.any_eq_false.mp fresh f hf

/-- Every file of a stack is reached from the root, and the top is reached from it. -/
theorem Reached.reaches {path f : Path} {stack : List Path}
    (h : Reached library tree root (path :: stack)) (hf : f ∈ path :: stack) :
    Reaches library tree root f ∧ Reaches library tree f path := by
  generalize hs : path :: stack = files at h hf
  induction h generalizing path stack f with
  | root =>
      cases hs
      rw [List.mem_singleton.mp hf]
      exact ⟨.refl, .refl⟩
  | @inner outer target below directive arguments houter refers fresh ih =>
      cases hs
      rcases List.mem_cons.mp hf with rfl | hf
      · exact ⟨(ih rfl List.mem_cons_self).1.tail refers.includes, .refl⟩
      · obtain ⟨hroot, htop⟩ := ih rfl hf
        exact ⟨hroot, htop.tail refers.includes⟩

/-! ## What one call does -/

variable (library tree finish) in
/-- What a directive of a file, with its arguments, stands for. -/
def expandInclusion (path : Path) (stack : List Path) (inclusion : Inclusion) :
    Except Failure (List Char) :=
  match library.resolve? tree inclusion.1.reference path with
  | none => .error ⟨.missing inclusion.1.reference, path, stack.reverse⟩
  | some target =>
    if stack.any target.same then .error ⟨.circular, target, stack.reverse⟩
    else (expand library tree finish target (target :: stack)).map (fillIn inclusion.2)

/-- The expansion of a file without the bookkeeping that shows that it ends. -/
theorem expand_eq (path : Path) (stack : List Path) :
    expand library tree finish path stack =
      match tree.readText path with
      | .error fault => .error ⟨.read fault, path, stack.reverse⟩
      | .ok content =>
        match inclusions path (Page.ofText content.toList).directives with
        | .error failure => .error failure
        | .ok includes =>
          (Join.settle (finish stack)
            (includes.map (expandInclusion library tree finish path stack))).map
              (Page.ofText content.toList).splice := by
  rw [expand]
  cases tree.readText path with
  | error fault => rfl
  | ok content =>
      dsimp only
      cases inclusions path (Page.ofText content.toList).directives with
      | error failure => dsimp only
      | ok includes =>
          dsimp only
          refine congrArg (Except.map _) (congrArg (Join.settle _) (List.map_congr_left ?_))
          rintro ⟨directive, arguments⟩ _
          unfold expandInclusion
          generalize library.resolve? tree directive.reference path = resolved
          cases resolved with
          | none => dsimp only
          | some target =>
              dsimp only
              by_cases hs : stack.any target.same = true
              · rw [dif_pos hs, if_pos hs]
              · rw [dif_neg hs, if_neg hs]

/-- What a directive stands for is known when the file is found, is not being expanded already, and
its own expansion is known. -/
theorem expandInclusion_eq_ok_iff {path : Path} {stack : List Path} {i : Inclusion}
    {text : List Char} :
    expandInclusion library tree finish path stack i = .ok text ↔
      ∃ target inner, library.resolve? tree i.1.reference path = some target ∧
        stack.any target.same = false ∧
        expand library tree finish target (target :: stack) = .ok inner ∧
        fillIn i.2 inner = text := by
  unfold expandInclusion
  constructor
  · intro h
    cases hresolve : library.resolve? tree i.1.reference path with
    | none =>
        rw [hresolve] at h
        cases h
    | some target =>
        rw [hresolve] at h
        dsimp only at h
        cases hs : stack.any target.same with
        | true =>
            rw [hs, if_pos rfl] at h
            cases h
        | false =>
            rw [hs, if_neg Bool.false_ne_true] at h
            cases hexpand : expand library tree finish target (target :: stack) with
            | error failure =>
                rw [hexpand] at h
                cases h
            | ok inner =>
                rw [hexpand] at h
                exact ⟨target, inner, rfl, hs, hexpand, Except.ok.inj h⟩
  · rintro ⟨target, inner, hresolve, hs, hexpand, rfl⟩
    rw [hresolve]
    dsimp only
    rw [hs, if_neg Bool.false_ne_true, hexpand]
    rfl

/-- A directive fails because its file is missing, because the file is being expanded already, or
because the expansion of the file fails. -/
theorem expandInclusion_eq_error {path : Path} {stack : List Path} {i : Inclusion}
    {failure : Failure}
    (h : expandInclusion library tree finish path stack i = .error failure) :
    (library.resolve? tree i.1.reference path = none ∧
        failure = ⟨.missing i.1.reference, path, stack.reverse⟩) ∨
      ∃ target, library.resolve? tree i.1.reference path = some target ∧
        (stack.any target.same = true ∧ failure = ⟨.circular, target, stack.reverse⟩ ∨
          stack.any target.same = false ∧
            expand library tree finish target (target :: stack) = .error failure) := by
  unfold expandInclusion at h
  cases hresolve : library.resolve? tree i.1.reference path with
  | none =>
      rw [hresolve] at h
      exact Or.inl ⟨rfl, (Except.error.inj h).symm⟩
  | some target =>
      rw [hresolve] at h
      dsimp only at h
      refine Or.inr ⟨target, rfl, ?_⟩
      cases hs : stack.any target.same with
      | true =>
          rw [hs, if_pos rfl] at h
          exact Or.inl ⟨rfl, (Except.error.inj h).symm⟩
      | false =>
          rw [hs, if_neg Bool.false_ne_true] at h
          cases hexpand : expand library tree finish target (target :: stack) with
          | ok inner =>
              rw [hexpand] at h
              cases h
          | error fault =>
              rw [hexpand] at h
              exact Or.inr ⟨rfl, h⟩

variable (library tree finish) in
/-- What a page stands for in a call for a file, of which it need not be the text. -/
def expandPage (path : Path) (stack : List Path) (page : Page) : Except Failure (List Char) :=
  match inclusions path page.directives with
  | .error failure => .error failure
  | .ok includes =>
    (Join.settle (finish stack) (includes.map (expandInclusion library tree finish path stack))).map page.splice

theorem expandPage_of_inclusions {path : Path} {stack : List Path} {page : Page} {includes : List Inclusion}
    (h : inclusions path page.directives = .ok includes) :
    expandPage library tree finish path stack page = (Join.settle (finish stack)
      (includes.map (expandInclusion library tree finish path stack))).map page.splice := by
  rw [expandPage, h]

theorem expandPage_eq_ok_iff {path : Path} {stack : List Path} {page : Page} {text : List Char} :
    expandPage library tree finish path stack page = .ok text ↔
      ∃ includes expansions, inclusions path page.directives = .ok includes ∧
        includes.map (expandInclusion library tree finish path stack) = expansions.map .ok ∧
        page.splice expansions = text := by
  unfold expandPage
  cases hincludes : inclusions path page.directives with
  | error failure => simp
  | ok includes =>
      dsimp only
      constructor
      · intro h
        cases hsettle : Join.settle (finish stack)
            (includes.map (expandInclusion library tree finish path stack)) with
        | error failure =>
            rw [hsettle] at h
            cases h
        | ok expansions =>
            rw [hsettle] at h
            exact ⟨includes, expansions, rfl, Join.settle_eq_ok_iff.mp hsettle, Except.ok.inj h⟩
      · rintro ⟨includes', expansions, hother, hmap, htext⟩
        cases hother
        rw [Join.settle_eq_ok_iff.mpr hmap]
        exact congrArg Except.ok htext

/-- A file stands for what the page of its text stands for. -/
theorem expand_of_readText {path : Path} {content : String} (h : tree.readText path = .ok content)
    (stack : List Path) : expand library tree finish path stack =
      expandPage library tree finish path stack (Page.ofText content.toList) := by
  rw [expand_eq, h, expandPage]

theorem expand_eq_ok_iff {path : Path} {stack : List Path} {text : List Char} :
    expand library tree finish path stack = .ok text ↔
      ∃ content includes expansions, tree.readText path = .ok content ∧
        inclusions path (Page.ofText content.toList).directives = .ok includes ∧
        includes.map (expandInclusion library tree finish path stack) =
          expansions.map .ok ∧
        (Page.ofText content.toList).splice expansions = text := by
  constructor
  · intro h
    cases hread : tree.readText path with
    | error fault =>
        rw [expand_eq, hread] at h
        cases h
    | ok content =>
        rw [expand_of_readText hread, expandPage_eq_ok_iff] at h
        obtain ⟨includes, expansions, hpage⟩ := h
        exact ⟨content, includes, expansions, rfl, hpage⟩
  · rintro ⟨content, includes, expansions, hread, hpage⟩
    rw [expand_of_readText hread, expandPage_eq_ok_iff]
    exact ⟨includes, expansions, hpage⟩

/-! ## Induction over calls -/

/-- What holds of a call if it holds of the calls that it may make holds of every call: each of them is for a
file that is not on the stack, and there are only so many. -/
@[elab_as_elim]
theorem expand_induction (tree : FileTree) {motive : Path → List Path → Prop}
    (call : ∀ path stack, (∀ target, tree.isFile target = true →
      (path :: stack).any target.same = false → motive target (path :: stack)) → motive path stack)
    (path : Path) (stack : List Path) : motive path stack := by
  induction hn : unvisited (path :: stack) using Nat.strongRecOn generalizing path stack with
  | ind n ih =>
      refine call path stack fun target hfile hfresh => ih _ ?_ target (path :: stack) rfl
      rw [← hn]
      exact unvisited_cons_lt hfile hfresh

theorem isFile_of_resolve? {reference : String} {including target : Path}
    (h : library.resolve? tree reference including = some target) : tree.isFile target = true := by
  unfold Library.resolve? at h
  exact List.find?_some h

/-! ## Where a failure comes from -/

/-- The call with a stack fails by itself: the file cannot be read, one of its argument literals is
refused, a directive refers to no file, or to one that is being expanded. -/
inductive FailsAt (library : Library) (tree : FileTree) : List Path → Failure → Prop where
  | read {path : Path} {stack : List Path} {fault : IoFault}
      (read : tree.readText path = .error fault) :
      FailsAt library tree (path :: stack) ⟨.read fault, path, (path :: stack).reverse⟩
  | arguments {path : Path} {stack : List Path} {content : String} {d : Directive}
      {fault : ArgumentsFault} (read : tree.readText path = .ok content)
      (mem : d ∈ (Page.ofText content.toList).directives) (refused : d.arguments = .error fault) :
      FailsAt library tree (path :: stack)
        ⟨.arguments (String.ofList (d.literal.getD [])) fault, path, []⟩
  | missing {path : Path} {stack : List Path} {content : String} {d : Directive}
      (read : tree.readText path = .ok content)
      (mem : d ∈ (Page.ofText content.toList).directives)
      (resolve : library.resolve? tree d.reference path = none) :
      FailsAt library tree (path :: stack)
        ⟨.missing d.reference, path, (path :: stack).reverse⟩
  | circular {path target : Path} {stack : List Path}
      (includes : Includes library tree path target)
      (again : (path :: stack).any target.same = true) :
      FailsAt library tree (path :: stack) ⟨.circular, target, (path :: stack).reverse⟩

theorem error_of_map_settle_eq_error {ε α β γ : Type} {order : List Nat} {f : α → Except ε β}
    {g : List β → γ} {items : List α} {e : ε}
    (h : (Join.settle order (items.map f)).map g = .error e) : ∃ item ∈ items, f item = .error e := by
  cases hsettle : Join.settle order (items.map f) with
  | ok values =>
      rw [hsettle] at h
      cases h
  | error fault =>
      rw [hsettle] at h
      cases h
      exact List.mem_map.mp (Join.error_mem_of_settle_eq_error hsettle)

/-- The failure of a call is that of some call that fails by itself. -/
theorem failsAt_of_expand_eq_error {path : Path} {stack : List Path} {failure : Failure}
    (h : Reached library tree root (path :: stack))
    (hfailure : expand library tree finish path (path :: stack) = .error failure) :
    ∃ files, Reached library tree root files ∧ FailsAt library tree files failure := by
  induction path, stack using expand_induction tree with
  | call path stack ih =>
      rw [expand_eq] at hfailure
      cases hread : tree.readText path with
      | error fault =>
          rw [hread] at hfailure
          cases hfailure
          exact ⟨_, h, .read hread⟩
      | ok content =>
          rw [hread] at hfailure
          dsimp only at hfailure
          cases hincludes : inclusions path (Page.ofText content.toList).directives with
          | error other =>
              rw [hincludes] at hfailure
              cases hfailure
              obtain ⟨d, hd, fault, hfault, rfl⟩ := inclusions_eq_error hincludes
              exact ⟨_, h, .arguments hread hd hfault⟩
          | ok includes =>
              rw [hincludes] at hfailure
              dsimp only at hfailure
              obtain ⟨i, hi, herror⟩ := error_of_map_settle_eq_error hfailure
              have hmem : i.1 ∈ (Page.ofText content.toList).directives :=
                (mem_directives_iff hincludes).mpr ⟨i.2, hi⟩
              rcases expandInclusion_eq_error herror with
                ⟨hresolve, rfl⟩ | ⟨target, hresolve, ⟨hs, rfl⟩ | ⟨hs, hexpand⟩⟩
              · exact ⟨_, h, .missing hread hmem hresolve⟩
              · exact ⟨_, h, .circular ⟨content, hread, i.1, hmem, hresolve⟩ hs⟩
              · have hrefers : Refers library tree path i.1 i.2 target :=
                  ⟨content, includes, hread, hincludes, hi, hresolve⟩
                exact ih target (isFile_of_resolve? hresolve) hs (.inner h hrefers hs) hexpand

/-! ## What success says about every call -/

/-- When a call succeeds, so do the calls that it makes, and none of its files is being expanded. -/
theorem expand_inner_eq_ok {path target : Path} {stack : List Path} {text : List Char}
    {directive : Directive} {arguments : Option JsonFields}
    (h : expand library tree finish path stack = .ok text)
    (hrefers : Refers library tree path directive arguments target) :
    stack.any target.same = false ∧
      ∃ inner, expand library tree finish target (target :: stack) = .ok inner := by
  obtain ⟨content, includes, hread, hincludes, hmem, hresolve⟩ := hrefers
  obtain ⟨content', includes', expansions, hread', hincludes', hmap, _⟩ :=
    expand_eq_ok_iff.mp h
  rw [hread] at hread'
  cases hread'
  rw [hincludes] at hincludes'
  cases hincludes'
  have hin : expandInclusion library tree finish path stack (directive, arguments) ∈
      expansions.map .ok := by
    rw [← hmap]
    exact List.mem_map_of_mem hmem
  obtain ⟨expansion, _, hexpansion⟩ := List.mem_map.mp hin
  obtain ⟨found, inner, hfound, hs, hinner, _⟩ := expandInclusion_eq_ok_iff.mp hexpansion.symm
  rw [hresolve] at hfound
  cases hfound
  exact ⟨hs, inner, hinner⟩

/-- When a file is expanded, so is every file that it includes. -/
theorem expand_included_eq_ok {path target : Path} {stack : List Path} {text : List Char}
    (h : expand library tree finish path stack = .ok text)
    (hincluded : Includes library tree path target) :
    stack.any target.same = false ∧
      ∃ inner, expand library tree finish target (target :: stack) = .ok inner := by
  obtain ⟨content, hread, d, hd, hresolve⟩ := hincluded
  obtain ⟨content', includes, _, hread', hincludes, _⟩ := expand_eq_ok_iff.mp h
  rw [hread] at hread'
  cases hread'
  obtain ⟨arguments, hi⟩ := (mem_directives_iff hincludes).mp hd
  exact expand_inner_eq_ok h ⟨content, includes, hread, hincludes, hi, hresolve⟩

/-- Files of which each includes another one are never expanded. -/
theorem expand_ne_ok_of_endless {files : Set Path}
    (hendless : ∀ f ∈ files, ∃ g ∈ files, Includes library tree f g) {path : Path}
    (hpath : path ∈ files) (stack : List Path) (text : List Char) :
    expand library tree finish path (path :: stack) ≠ .ok text := by
  induction path, stack using expand_induction tree generalizing text with
  | call path stack ih =>
      intro h
      obtain ⟨target, htarget, hincludes⟩ := hendless path hpath
      obtain ⟨hfresh, inner, hinner⟩ := expand_included_eq_ok h hincludes
      obtain ⟨_, _, _, _, hresolve⟩ := hincludes
      exact ih target (isFile_of_resolve? hresolve) hfresh htarget inner hinner

/-- When the expansion of the root succeeds, so does every call it makes. -/
theorem expand_eq_ok_of_reached {path : Path} {stack : List Path} {text : List Char}
    (hroot : expand library tree finish root [root] = .ok text)
    (h : Reached library tree root (path :: stack)) :
    ∃ inner, expand library tree finish path (path :: stack) = .ok inner := by
  generalize hs : path :: stack = files at h
  induction h generalizing path stack with
  | root =>
      cases hs
      exact ⟨text, hroot⟩
  | @inner outer target below directive arguments houter refers fresh ih =>
      cases hs
      obtain ⟨found, hfound⟩ := ih rfl
      exact (expand_inner_eq_ok hfound refers).2

end SiteServer.Template
