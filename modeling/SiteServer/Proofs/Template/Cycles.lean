import SiteServer.Proofs.Template.Includes
import SiteServer.Template.Compiler

/-! # Circular includes: they are reported if and only if there is a cycle.

A cycle is one of the include graph, so that a file which several branches include is none. What is
reported about a cycle is a way into it, whichever of several failing branches is the first. -/

namespace SiteServer

theorem Path.same_comm (p q : Path) : p.same q = q.same p := by
  rw [Path.same, Path.same, decide_eq_decide]
  exact eq_comm

namespace Template

variable {library : Library} {tree : FileTree} {finish : Schedule} {root : Path}

/-! ## Reported chains -/

/-- What a failure says about a circular include: a way from the root along includes, without a file
twice, that comes to a file already on it. -/
structure CircularChain (library : Library) (tree : FileTree) (root : Path) (failure : Failure) :
    Prop where
  starts : failure.chain.head? = some root
  distinct : failure.chain.Pairwise fun f g => f.same g = false
  linked : failure.chain.IsChain (Includes library tree)
  contains : ∃ f ∈ failure.chain, f.same failure.path = true
  closes : ∃ f, failure.chain.getLast? = some f ∧ Includes library tree f failure.path

/-- Where a call fails with a circular include, it fails because of what stands on its stack. -/
theorem FailsAt.circularChain {files : List Path} {failure : Failure}
    (h : FailsAt library tree files failure) (hkind : failure.kind = .circularInclude)
    (hreached : Reached library tree root files) : CircularChain library tree root failure := by
  cases h with
  | read read => cases hkind
  | arguments read mem refused => cases hkind
  | missing read mem resolve => cases hkind
  | @circular path target stack includes again =>
      obtain ⟨hbottom, hlinked, hdistinct⟩ := hreached.invariant
      refine ⟨?_, ?_, ?_, ?_, path, ?_, includes⟩
      · rw [List.head?_reverse]
        exact hbottom
      · rw [List.pairwise_reverse]
        refine hdistinct.imp ?_
        intro g f hne
        rw [Path.same_comm]
        exact hne
      · rw [List.isChain_reverse]
        exact hlinked
      · obtain ⟨f, hf, hsame⟩ := List.any_eq_true.mp again
        refine ⟨f, List.mem_reverse.mpr hf, ?_⟩
        rw [Path.same_comm]
        exact hsame
      · simp

/-- Where a call fails with a circular include, there is a cycle. -/
theorem FailsAt.cycleFrom {files : List Path} {failure : Failure}
    (h : FailsAt library tree files failure) (hkind : failure.kind = .circularInclude)
    (hreached : Reached library tree root files) : CycleFrom library tree root := by
  cases h with
  | read read => cases hkind
  | arguments read mem refused => cases hkind
  | missing read mem resolve => cases hkind
  | @circular path target stack includes again =>
      obtain ⟨f, hf, hsame⟩ := List.any_eq_true.mp again
      obtain ⟨hroot, htop⟩ := hreached.reaches hf
      rw [Path.same_comm] at hsame
      exact ⟨f, target, hroot, Relation.TransGen.tail' htop includes, hsame⟩

/-! ## Success and cycles -/

/-- When an expansion succeeds, each of its calls makes one for every file that its file includes. -/
theorem reached_of_includes {text : List Char} {f g : Path} {stack : List Path}
    (h : expand library tree finish root [root] = .ok text)
    (hf : Reached library tree root (f :: stack)) (hedge : Includes library tree f g) :
    Reached library tree root (g :: f :: stack) := by
  obtain ⟨inner, hinner⟩ := expand_eq_ok_of_reached h hf
  obtain ⟨content, includes, _, hread, hincludes, _, _⟩ := expand_eq_ok_iff.mp hinner
  obtain ⟨content', hread', d, hd, hresolve⟩ := hedge
  rw [hread] at hread'
  cases hread'
  obtain ⟨arguments, hmem⟩ := (mem_directives_iff hincludes).mp hd
  have hrefers : Refers library tree f _ arguments g :=
    ⟨content, includes, hread, hincludes, hmem, hresolve⟩
  exact .inner hf hrefers (expand_inner_eq_ok hinner hrefers).1

/-- When an expansion succeeds, it calls itself for every file that is reached from the root. -/
theorem reached_of_reaches {text : List Char}
    (h : expand library tree finish root [root] = .ok text)
    {f : Path} (hf : Reaches library tree root f) :
    ∃ stack, Reached library tree root (f :: stack) := by
  induction hf with
  | refl => exact ⟨[], .root⟩
  | @tail f g _ hedge ih =>
      obtain ⟨stack, hstack⟩ := ih
      exact ⟨f :: stack, reached_of_includes h hstack hedge⟩

/-- A way along includes from a file of a successful call stays above that file on the stack. -/
theorem reached_of_transGen {text : List Char} {f g : Path} {stack : List Path}
    (h : expand library tree finish root [root] = .ok text)
    (hf : Reached library tree root (f :: stack))
    (hway : Relation.TransGen (Includes library tree) f g) :
    ∃ files, Reached library tree root (g :: files) ∧ f ∈ files := by
  induction hway with
  | single hedge => exact ⟨f :: stack, reached_of_includes h hf hedge, List.mem_cons_self⟩
  | @tail g next _ hedge ih =>
      obtain ⟨files, hfiles, hmem⟩ := ih
      exact ⟨g :: files, reached_of_includes h hfiles hedge, List.mem_cons_of_mem _ hmem⟩

/-- Where there is a cycle, an expansion does not succeed. -/
theorem not_cycleFrom_of_expand_eq_ok {text : List Char}
    (h : expand library tree finish root [root] = .ok text) : ¬ CycleFrom library tree root := by
  rintro ⟨f, g, hf, hway, hsame⟩
  obtain ⟨stack, hstack⟩ := reached_of_reaches h hf
  obtain ⟨files, hfiles, hmem⟩ := reached_of_transGen h hstack hway
  have hdistinct := List.rel_of_pairwise_cons hfiles.invariant.distinct hmem
  rw [Path.same_comm, hsame] at hdistinct
  cases hdistinct

/-! ## Files that can all be expanded -/

/-- Every file that is reached from the root can be read, all argument literals in it are accepted, and
each of its directives refers to a file. -/
structure WellLinked (library : Library) (tree : FileTree) (root : Path) : Prop where
  readable : ∀ f, Reaches library tree root f → ∃ content, tree.readText f = .ok content
  scanned : ∀ f content, Reaches library tree root f → tree.readText f = .ok content →
    ∃ includes, inclusions f (Page.ofText content.toList).directives = .ok includes
  resolved : ∀ f content, Reaches library tree root f → tree.readText f = .ok content →
    ∀ d ∈ (Page.ofText content.toList).directives,
      ∃ g, library.resolve? tree d.reference f = some g

/-- Every file of a list can be read and scanned, and its directives refer to files of the list. -/
def closedUnder (library : Library) (tree : FileTree) (files : List Path) : Bool :=
  files.all fun f =>
    match tree.readText f with
    | .error _ => false
    | .ok content =>
      match inclusions f (Page.ofText content.toList).directives with
      | .error _ => false
      | .ok includes => includes.all fun i =>
        match library.resolve? tree i.1.reference f with
        | none => false
        | some g => files.contains g

theorem closedUnder_iff {files : List Path} :
    closedUnder library tree files = true ↔
      ∀ f ∈ files, ∃ content includes, tree.readText f = .ok content ∧
        inclusions f (Page.ofText content.toList).directives = .ok includes ∧
        ∀ i ∈ includes, ∃ g ∈ files, library.resolve? tree i.1.reference f = some g := by
  rw [closedUnder, List.all_eq_true]
  refine forall₂_congr fun f _ => ?_
  cases tree.readText f with
  | error fault => simp
  | ok content =>
      dsimp only
      cases hincludes : inclusions f (Page.ofText content.toList).directives with
      | error failure => simp [hincludes]
      | ok includes =>
          dsimp only
          rw [List.all_eq_true]
          constructor
          · intro hall
            refine ⟨content, includes, rfl, hincludes, ?_⟩
            intro i hi
            have hi' := hall i hi
            cases hresolve : library.resolve? tree i.1.reference f with
            | none =>
                rw [hresolve] at hi'
                cases hi'
            | some g =>
                rw [hresolve] at hi'
                exact ⟨g, List.contains_iff_mem.mp hi', rfl⟩
          · rintro ⟨content', includes', hcontent, hincludes', hall⟩ i hi
            cases hcontent
            rw [hincludes] at hincludes'
            cases hincludes'
            obtain ⟨g, hg, hresolve⟩ := hall i hi
            rw [hresolve]
            exact List.contains_iff_mem.mpr hg

/-- From a file of a closed list only files of the list are reached. -/
theorem mem_of_reaches {files : List Path} {f : Path}
    (hclosed : closedUnder library tree files = true) (hroot : root ∈ files)
    (h : Reaches library tree root f) : f ∈ files := by
  induction h with
  | refl => exact hroot
  | @tail f g _ hedge ih =>
      obtain ⟨content, includes, hread, hincludes, hall⟩ := closedUnder_iff.mp hclosed f ih
      obtain ⟨content', hread', d, hd, hresolve⟩ := hedge
      rw [hread] at hread'
      cases hread'
      obtain ⟨arguments, hi⟩ := (mem_directives_iff hincludes).mp hd
      obtain ⟨g', hg', hresolve'⟩ := hall (d, arguments) hi
      rw [hresolve] at hresolve'
      cases hresolve'
      exact hg'

/-- The files of a closed list can all be expanded. -/
theorem wellLinked_of_closedUnder {files : List Path}
    (hclosed : closedUnder library tree files = true) (hroot : root ∈ files) :
    WellLinked library tree root := by
  have hall : ∀ f, Reaches library tree root f → _ :=
    fun f hf => closedUnder_iff.mp hclosed f (mem_of_reaches hclosed hroot hf)
  refine ⟨?_, ?_, ?_⟩
  · intro f hf
    obtain ⟨content, _, hread, _⟩ := hall f hf
    exact ⟨content, hread⟩
  · intro f content hf hread
    obtain ⟨content', includes, hread', hincludes, _⟩ := hall f hf
    rw [hread] at hread'
    cases hread'
    exact ⟨includes, hincludes⟩
  · intro f content hf hread d hd
    obtain ⟨content', includes, hread', hincludes, hresolved⟩ := hall f hf
    rw [hread] at hread'
    cases hread'
    obtain ⟨arguments, hi⟩ := (mem_directives_iff hincludes).mp hd
    obtain ⟨g, _, hresolve⟩ := hresolved (d, arguments) hi
    exact ⟨g, hresolve⟩

/-- Where all files can be expanded, a call fails by itself only with a circular include. -/
theorem WellLinked.kind_of_failsAt (h : WellLinked library tree root) {files : List Path}
    {failure : Failure} (hfails : FailsAt library tree files failure)
    (hreached : Reached library tree root files) : failure.kind = .circularInclude := by
  cases hfails with
  | @read path stack fault read =>
      obtain ⟨content, hread⟩ := h.readable path (hreached.reaches List.mem_cons_self).1
      rw [read] at hread
      cases hread
  | @arguments path stack content d fault read mem refused =>
      obtain ⟨includes, hincludes⟩ :=
        h.scanned path content (hreached.reaches List.mem_cons_self).1 read
      obtain ⟨hmap, hall⟩ := inclusions_eq_ok_iff.mp hincludes
      rw [← hmap] at mem
      obtain ⟨i, hi, rfl⟩ := List.mem_map.mp mem
      rw [hall i hi] at refused
      cases refused
  | @missing path stack content d read mem resolve =>
      obtain ⟨g, hg⟩ :=
        h.resolved path content (hreached.reaches List.mem_cons_self).1 read d mem
      rw [resolve] at hg
      cases hg
  | circular includes again => rfl

/-- Where all files can be expanded and there is no cycle, the expansion succeeds. -/
theorem WellLinked.expand_eq_ok (h : WellLinked library tree root)
    (hcycle : ¬ CycleFrom library tree root) :
    ∃ text, expand library tree finish root [root] = .ok text := by
  cases hexpand : expand library tree finish root [root] with
  | ok text => exact ⟨text, rfl⟩
  | error failure =>
      obtain ⟨files, hreached, hfails⟩ := failsAt_of_expand_eq_error .root hexpand
      have hkind := h.kind_of_failsAt hfails hreached
      exact absurd (hfails.cycleFrom hkind hreached) hcycle

/-- Nothing is kept of a file whose expansion fails. -/
theorem compile_of_expand_eq_error {cache : Cache} {path : Path} {failure : Failure}
    (hkey : key path = .ok root) (hcold : cache.find? root = none)
    (h : expand library tree finish root [root] = .error failure) :
    compile library tree finish cache path = (.error failure, cache) := by
  have hbuild : build library tree finish root = .error failure := by
    unfold build
    rw [h]
  unfold compile
  rw [hkey]
  dsimp only
  rw [hcold]
  dsimp only
  rw [hbuild]

/-! ## Soundness and completeness -/

/-- For files that can all be expanded, in whatever order includes finish: the expansion fails with a
circular include if and only if there is a cycle, and otherwise it succeeds. Whatever the files are, a circular
include that is reported carries a way into a cycle, and a failure leaves the cache as it was. -/
theorem expand_circular_iff_cycle (finish : Schedule) :
    (WellLinked library tree root →
      ((∃ failure, expand library tree finish root [root] = .error failure ∧
          failure.kind = .circularInclude) ↔ CycleFrom library tree root) ∧
        (¬ CycleFrom library tree root →
          ∃ text, expand library tree finish root [root] = .ok text) ∧
        ∀ failure, expand library tree finish root [root] = .error failure →
          failure.kind = .circularInclude) ∧
      ∀ failure, expand library tree finish root [root] = .error failure →
        (failure.kind = .circularInclude →
          CircularChain library tree root failure ∧ CycleFrom library tree root) ∧
          ∀ cache path, key path = .ok root → cache.find? root = none →
            compile library tree finish cache path = (.error failure, cache) := by
  refine ⟨fun h => ⟨⟨?_, ?_⟩, h.expand_eq_ok, ?_⟩, ?_⟩
  · rintro ⟨failure, hexpand, hkind⟩
    obtain ⟨files, hreached, hfails⟩ := failsAt_of_expand_eq_error .root hexpand
    exact hfails.cycleFrom hkind hreached
  · intro hcycle
    cases hexpand : expand library tree finish root [root] with
    | ok text => exact absurd hcycle (not_cycleFrom_of_expand_eq_ok hexpand)
    | error failure =>
        obtain ⟨files, hreached, hfails⟩ := failsAt_of_expand_eq_error .root hexpand
        exact ⟨failure, rfl, h.kind_of_failsAt hfails hreached⟩
  · intro failure hexpand
    obtain ⟨files, hreached, hfails⟩ := failsAt_of_expand_eq_error .root hexpand
    exact h.kind_of_failsAt hfails hreached
  · intro failure hexpand
    obtain ⟨files, hreached, hfails⟩ := failsAt_of_expand_eq_error .root hexpand
    exact ⟨fun hkind => ⟨hfails.circularChain hkind hreached, hfails.cycleFrom hkind hreached⟩,
      fun cache path hkey hcold => compile_of_expand_eq_error hkey hcold hexpand⟩

/-- A page that includes one part twice, and another that leads into a loop of two files. -/
def loopTree : FileTree :=
  ⟨[(["page.tmpl"], .file (bytesOf "<%- include('item') %><%- include('item') %><%- include('b') %>")),
    (["item.tmpl"], .file (bytesOf "item")),
    (["b.tmpl"], .file (bytesOf "b<%- include('./sub/../c') %>")),
    (["c.tmpl"], .file (bytesOf "c<%- include('/b.tmpl') %>"))]⟩

/-- The part that is included twice is no cycle, the loop is one. -/
theorem expand_loopTree :
    WellLinked ⟨⟨"/"⟩, ["tmpl"]⟩ loopTree ⟨"/page.tmpl"⟩ ∧
      CycleFrom ⟨⟨"/"⟩, ["tmpl"]⟩ loopTree ⟨"/page.tmpl"⟩ ∧
      expand ⟨⟨"/"⟩, ["tmpl"]⟩ loopTree .inOrder ⟨"/page.tmpl"⟩ [⟨"/page.tmpl"⟩] =
        .error ⟨.circular, ⟨"/b.tmpl"⟩, [⟨"/page.tmpl"⟩, ⟨"/b.tmpl"⟩, ⟨"/c.tmpl"⟩]⟩ := by
  have hlinked : WellLinked ⟨⟨"/"⟩, ["tmpl"]⟩ loopTree ⟨"/page.tmpl"⟩ :=
    wellLinked_of_closedUnder
      (show closedUnder _ _ [⟨"/page.tmpl"⟩, ⟨"/item.tmpl"⟩, ⟨"/b.tmpl"⟩, ⟨"/c.tmpl"⟩] = true by
        decide +kernel) (by decide)
  have hexpand : expand ⟨⟨"/"⟩, ["tmpl"]⟩ loopTree .inOrder ⟨"/page.tmpl"⟩ [⟨"/page.tmpl"⟩] =
      .error ⟨.circular, ⟨"/b.tmpl"⟩, [⟨"/page.tmpl"⟩, ⟨"/b.tmpl"⟩, ⟨"/c.tmpl"⟩]⟩ := by
    decide +kernel
  exact ⟨hlinked, ((expand_circular_iff_cycle .inOrder).1 hlinked).1.mp ⟨_, hexpand, rfl⟩, hexpand⟩

end Template

end SiteServer
