import SiteServer.Proofs.Template.Segments

/-! # Compiling a plain template and rendering it prints what its tree prints.

Expansion is followed along the tree of includes: each file comes out as the sources of its leaves, with
the arguments filled in that were given on the way. What stays is that no leaf is lost or made where
texts are put together, and that the tags of the whole are those of the leaves. -/

namespace SiteServer.Template

variable {library : Library} {tree : FileTree} {finish : Schedule} {root : Path} {data : Json}

/-! ## The leaves of a tree -/

/-- The leaves of tokens of a file, with the includes replaced by the leaves of their files, into which
the arguments of the directive are filled. -/
inductive Flattens (library : Library) (tree : FileTree) : Path → List Token → List Leaf → Prop where
  | done {path : Path} : Flattens library tree path [] []
  | leaf {path : Path} {tokens : List Token} {leaves : List Leaf} (l : Leaf)
      (behind : Flattens library tree path tokens leaves) :
      Flattens library tree path (.leaf l :: tokens) (l :: leaves)
  | part {path target : Path} {directive : Directive} {arguments : Option JsonFields}
      {inner tokens : List Token} {first rest : List Leaf}
      (resolved : library.resolve? tree directive.reference path = some target)
      (parsed : directive.arguments = .ok arguments) (file : PlainFile tree target inner)
      (inside : Flattens library tree target inner first)
      (behind : Flattens library tree path tokens rest) :
      Flattens library tree path (.part directive :: tokens)
        (first.map (Leaf.fillIn arguments) ++ rest)

/-- A tree prints what its leaves print. -/
theorem Flattens.renders {path : Path} {tokens : List Token} {leaves : List Leaf}
    (h : Flattens library tree path tokens leaves) (data : Json) (scope : Scope) :
    Renders library tree data path scope tokens (renderLeaves data scope leaves) := by
  induction h generalizing scope with
  | done => exact .done
  | leaf l behind ih => exact .leaf l (ih scope)
  | part resolved parsed file inside behind ihInside ihBehind =>
      rw [renderLeaves_append, renderLeaves_fillIn]
      exact .part resolved parsed file (ihInside _) (ihBehind scope)

theorem Renders.exists_flattens {path : Path} {scope : Scope} {tokens : List Token}
    {result : Except LookupFault (List Char)}
    (h : Renders library tree data path scope tokens result) :
    ∃ leaves, Flattens library tree path tokens leaves ∧
      result = renderLeaves data scope leaves := by
  induction h with
  | done => exact ⟨[], .done, rfl⟩
  | leaf l behind ih =>
      obtain ⟨leaves, hleaves, rfl⟩ := ih
      exact ⟨l :: leaves, .leaf l hleaves, rfl⟩
  | part resolved parsed file inside behind ihInside ihBehind =>
      obtain ⟨first, hfirst, rfl⟩ := ihInside
      obtain ⟨rest, hrest, rfl⟩ := ihBehind
      refine ⟨_, .part resolved parsed file hfirst hrest, ?_⟩
      rw [renderLeaves_append, renderLeaves_fillIn]

/-! ## Plain sites -/

/-- The files that the expansion of a root comes to, each with the arguments in force there. -/
inductive Visits (library : Library) (tree : FileTree) (root : Path) : Path → Scope → Prop where
  | root : Visits library tree root root []
  | inner {path target : Path} {scope : Scope} {directive : Directive}
      {arguments : Option JsonFields} (outer : Visits library tree root path scope)
      (refers : Refers library tree path directive arguments target) :
      Visits library tree root target (arguments.toList ++ scope)

/-- All files that are reached from the root are plain, each of their directives refers to a file, there
is no cycle, and no argument that is put in the place of a tag has a `<` in it. -/
structure PlainSite (library : Library) (tree : FileTree) (root : Path) : Prop where
  plain : ∀ f, Reaches library tree root f → ∃ tokens, PlainFile tree f tokens
  resolved : ∀ f content, Reaches library tree root f → tree.readText f = .ok content →
    ∀ d ∈ (Page.ofText content.toList).directives,
      ∃ g, library.resolve? tree d.reference f = some g
  acyclic : ¬ CycleFrom library tree root
  inserted : ∀ f scope tokens l, Visits library tree root f scope → PlainFile tree f tokens →
    .leaf l ∈ tokens → ∀ value, l.binding scope = some value → '<' ∉ Placeholder.inserted value

/-! ## Pages of tokens -/

def directivesOf : List Token → List Directive
  | [] => []
  | .leaf _ :: tokens => directivesOf tokens
  | .part directive :: tokens => directive :: directivesOf tokens

theorem mem_directivesOf {tokens : List Token} {d : Directive} :
    d ∈ directivesOf tokens ↔ .part d ∈ tokens := by
  induction tokens with
  | nil => simp [directivesOf]
  | cons t tokens ih => cases t <;> simp [directivesOf, ih]

theorem directives_pieces (tokens : List Token) :
    Page.directives (tokens.flatMap Token.pieces) = directivesOf tokens := by
  induction tokens with
  | nil => rfl
  | cons t tokens ih =>
      rw [List.flatMap_cons]
      cases t with
      | leaf l => exact (directives_chars l.source _).trans ih
      | part directive => exact congrArg (directive :: ·) ih

theorem PlainFile.directives {path : Path} {tokens : List Token} {content : String}
    (h : PlainFile tree path tokens) (hread : tree.readText path = .ok content) :
    Page.ofText content.toList = tokens.flatMap Token.pieces ∧
      (Page.ofText content.toList).directives = directivesOf tokens := by
  obtain ⟨content', hread', htext, hplain⟩ := h
  rw [hread] at hread'
  cases hread'
  rw [htext, ofText_source hplain]
  exact ⟨rfl, directives_pieces tokens⟩

/-- The files of a plain site can all be expanded. -/
theorem PlainSite.wellLinked (h : PlainSite library tree root) : WellLinked library tree root := by
  refine ⟨?_, ?_, h.resolved⟩
  · intro f hf
    obtain ⟨tokens, content, hread, _⟩ := h.plain f hf
    exact ⟨content, hread⟩
  · intro f content hf hread
    obtain ⟨tokens, hfile⟩ := h.plain f hf
    have hdirectives := (hfile.directives hread).2
    cases hincludes : inclusions f (Page.ofText content.toList).directives with
    | ok includes => exact ⟨includes, rfl⟩
    | error failure =>
        obtain ⟨d, hd, fault, hfault, _⟩ := inclusions_eq_error hincludes
        rw [hdirectives] at hd
        obtain ⟨_, _, _, hplain⟩ := hfile
        obtain ⟨_, arguments, hparsed⟩ := hplain _ (mem_directivesOf.mp hd)
        rw [hfault] at hparsed
        cases hparsed

theorem PlainSite.fits (h : PlainSite library tree root) {f : Path} {scope : Scope}
    {tokens : List Token} (hvisits : Visits library tree root f scope)
    (hfile : PlainFile tree f tokens) : ∀ l, .leaf l ∈ tokens → l.Fits scope := by
  intro l hl
  obtain ⟨_, _, _, hplain⟩ := id hfile
  exact ⟨(hplain _ hl).safe, h.inserted f scope tokens l hvisits hfile hl⟩

/-! ## Expansion along the tree -/

/-- What a successful call knows of the includes of its file and of their expansions. -/
structure CallData (library : Library) (tree : FileTree) (finish : Schedule) (path : Path)
    (stack : List Path) (includes : List Inclusion) (expansions : List (List Char)) : Prop where
  parsed : ∀ i ∈ includes, i.1.arguments = .ok i.2
  refers : ∀ i ∈ includes, ∀ target, library.resolve? tree i.1.reference path = some target →
    Refers library tree path i.1 i.2 target
  expanded : includes.map (expandInclusion library tree finish path stack) = expansions.map .ok

theorem CallData.tail {path : Path} {stack : List Path} {i : Inclusion} {includes : List Inclusion}
    {expansion : List Char} {expansions : List (List Char)}
    (h : CallData library tree finish path stack (i :: includes) (expansion :: expansions)) :
    CallData library tree finish path stack includes expansions :=
  ⟨fun j hj => h.parsed j (List.mem_cons_of_mem i hj),
    fun j hj => h.refers j (List.mem_cons_of_mem i hj), (List.cons.inj h.expanded).2⟩

theorem PlainFile.callData {path : Path} {stack : List Path} {tokens : List Token}
    {text : List Char} (hfile : PlainFile tree path tokens)
    (h : expand library tree finish path stack = .ok text) :
    ∃ includes expansions, includes.map Prod.fst = directivesOf tokens ∧
      CallData library tree finish path stack includes expansions ∧
      Page.splice (tokens.flatMap Token.pieces) expansions = text := by
  obtain ⟨content, includes, expansions, hread, hincludes, hexpanded, htext⟩ :=
    expand_eq_ok_iff.mp h
  obtain ⟨hpage, hdirectives⟩ := hfile.directives hread
  obtain ⟨hmap, hparsed⟩ := inclusions_eq_ok_iff.mp hincludes
  refine ⟨includes, expansions, hmap.trans hdirectives, ⟨hparsed, ?_, hexpanded⟩, ?_⟩
  · intro i hi target hresolve
    exact ⟨content, includes, hread, hincludes, hi, hresolve⟩
  · rw [← hpage]
    exact htext

/-- The expansion of a file of a plain site is the text of its leaves. -/
theorem Flattens.splice (hsite : PlainSite library tree root) {path : Path} {tokens : List Token}
    {leaves : List Leaf} (h : Flattens library tree path tokens leaves) {stack : List Path}
    {scope : Scope} {includes : List Inclusion} {expansions : List (List Char)}
    (hvisits : Visits library tree root path scope)
    (hmap : includes.map Prod.fst = directivesOf tokens)
    (hcall : CallData library tree finish path stack includes expansions)
    (hfits : ∀ l, .leaf l ∈ tokens → l.Fits scope) :
    Page.splice (tokens.flatMap Token.pieces) expansions = leaves.flatMap Leaf.source ∧
      ∀ l ∈ leaves, l.Fits scope := by
  induction h generalizing stack scope includes expansions with
  | done => exact ⟨rfl, fun l hl => absurd hl List.not_mem_nil⟩
  | @leaf path tokens leaves l behind ih =>
      obtain ⟨hsplice, hleaves⟩ := ih hvisits hmap hcall
        fun l' hl' => hfits l' (List.mem_cons_of_mem _ hl')
      refine ⟨?_, ?_⟩
      · rw [List.flatMap_cons, List.flatMap_cons, ← hsplice]
        exact splice_chars l.source _ expansions
      · intro l' hl'
        rcases List.mem_cons.mp hl' with rfl | hl'
        · exact hfits l' List.mem_cons_self
        · exact hleaves l' hl'
  | @part path target directive arguments inner tokens first rest resolved parsed file inside
      behind ihInside ihBehind =>
      cases includes with
      | nil => cases hmap
      | cons i includes =>
          cases expansions with
          | nil => cases hcall.expanded
          | cons expansion expansions =>
              obtain ⟨rfl, htail⟩ := List.cons.inj hmap
              have hparsed := hcall.parsed i List.mem_cons_self
              rw [parsed] at hparsed
              cases hparsed
              have hrefers := hcall.refers i List.mem_cons_self target resolved
              obtain ⟨found, text, hfound, _, htext, rfl⟩ :=
                expandInclusion_eq_ok_iff.mp (List.cons.inj hcall.expanded).1
              rw [resolved] at hfound
              cases hfound
              have hvisited : Visits library tree root target (i.2.toList ++ scope) :=
                .inner hvisits hrefers
              obtain ⟨includes', expansions', hmap', hcall', rfl⟩ := file.callData htext
              obtain ⟨hfirst, hfirstFits⟩ :=
                ihInside hvisited hmap' hcall' (hsite.fits hvisited file)
              obtain ⟨hrest, hrestFits⟩ := ihBehind hvisits htail hcall.tail
                fun l hl => hfits l (List.mem_cons_of_mem _ hl)
              refine ⟨?_, ?_⟩
              · rw [List.flatMap_append, ← hrest,
                  ← fillIn_source fun l hl => (hfirstFits l hl).safe, ← hfirst]
                rfl
              · intro l hl
                rcases List.mem_append.mp hl with hl | hl
                · obtain ⟨l', hl', rfl⟩ := List.mem_map.mp hl
                  exact (hfirstFits l' hl').fillIn
                · exact hrestFits l hl

/-- Tokens have leaves when the files of their includes have. -/
theorem exists_flattens_of_parts {path : Path} {tokens : List Token}
    (h : ∀ d, .part d ∈ tokens → ∃ target arguments inner first,
      library.resolve? tree d.reference path = some target ∧ d.arguments = .ok arguments ∧
        PlainFile tree target inner ∧ Flattens library tree target inner first) :
    ∃ leaves, Flattens library tree path tokens leaves := by
  induction tokens with
  | nil => exact ⟨[], .done⟩
  | cons t tokens ih =>
      obtain ⟨rest, hrest⟩ := ih fun d hd => h d (List.mem_cons_of_mem t hd)
      cases t with
      | leaf l => exact ⟨l :: rest, .leaf l hrest⟩
      | part d =>
          obtain ⟨target, arguments, inner, first, hresolve, hparsed, hinner, hfirst⟩ :=
            h d List.mem_cons_self
          exact ⟨_, .part hresolve hparsed hinner hfirst hrest⟩

/-- When the expansion of the root of a plain site succeeds, each file that it comes to has leaves. -/
theorem exists_flattens (hsite : PlainSite library tree root) {text : List Char}
    (hroot : expand library tree finish root [root] = .ok text) {path : Path} {stack : List Path}
    (hreached : Reached library tree root (path :: stack)) {tokens : List Token}
    (hfile : PlainFile tree path tokens) :
    ∃ leaves, Flattens library tree path tokens leaves := by
  induction path, stack using expand_induction tree generalizing tokens with
  | call path stack ih =>
      obtain ⟨expansion, hexpand⟩ := expand_eq_ok_of_reached hroot hreached
      obtain ⟨includes, _, hmap, hcall, _⟩ := hfile.callData hexpand
      apply exists_flattens_of_parts
      intro d hd
      have hmem := mem_directivesOf.mpr hd
      rw [← hmap] at hmem
      obtain ⟨i, hi, rfl⟩ := List.mem_map.mp hmem
      have hreaches := (hreached.reaches List.mem_cons_self).1
      obtain ⟨content, hread, _⟩ := id hfile
      have hdirective : i.1 ∈ (Page.ofText content.toList).directives := by
        rw [(hfile.directives hread).2]
        exact mem_directivesOf.mpr hd
      obtain ⟨target, hresolve⟩ := hsite.resolved path content hreaches hread i.1 hdirective
      have hrefers := hcall.refers i hi target hresolve
      obtain ⟨hfresh, _⟩ := expand_inner_eq_ok hexpand hrefers
      obtain ⟨inner, hinner⟩ := hsite.plain target (hreaches.tail hrefers.includes)
      obtain ⟨first, hfirst⟩ := ih target (isFile_of_resolve? hresolve) hfresh
        (.inner hreached hrefers hfresh) hinner
      exact ⟨target, i.2, inner, first, hresolve, hcall.parsed i hi, hinner, hfirst⟩

/-! ## Segments of leaves -/

theorem Leaf.render_nil (leaf : Leaf) : leaf.render data [] = leaf.evaluate data := by
  have hbinding : leaf.binding [] = none := by
    unfold Leaf.binding
    cases leaf.name? <;> rfl
  unfold Leaf.render
  rw [hbinding]

/-- A leaf makes segments that print what it does. -/
theorem Leaf.Safe.exists_segments {leaf : Leaf} (h : leaf.Safe) :
    ∃ part, Segment.ofPieces [] leaf.pieces = .ok part ∧
      ∀ data, renderSegments data part = leaf.render data [] := by
  cases leaf with
  | text content =>
      refine ⟨Segment.ofText content, ofPieces_chars content, fun data => ?_⟩
      rw [renderSegments_ofText, Leaf.render_nil]
      rfl
  | mark =>
      refine ⟨Segment.ofText ['<', '%'], rfl, fun data => ?_⟩
      rw [renderSegments_ofText, Leaf.render_nil]
      rfl
  | tag escaped inner lookup =>
      have hparse := h.parse
      cases escaped with
      | true =>
          refine ⟨[.escaped lookup], ?_, fun data => ?_⟩
          · simp [Leaf.pieces, Segment.ofPieces, Segment.ofBody?, hparse, Except.map]
          · rw [Leaf.render_nil, renderSegments_singleton]
            rfl
      | false =>
          refine ⟨[.raw lookup], ?_, fun data => ?_⟩
          · simp [Leaf.pieces, Segment.ofPieces, Segment.ofBody?, hparse, Except.map]
          · rw [Leaf.render_nil, renderSegments_singleton]
            rfl

/-- The text of leaves is a template, and prints what the leaves do. -/
theorem exists_segmentsOf_leaves {leaves : List Leaf} (h : ∀ l ∈ leaves, l.Safe) :
    ∃ segments, segmentsOf (leaves.flatMap Leaf.source) = .ok segments ∧
      ∀ data, renderSegments data segments = renderLeaves data [] leaves := by
  induction leaves with
  | nil => exact ⟨[], segmentsOf_nil, fun data => rfl⟩
  | cons l leaves ih =>
      have hl := h l List.mem_cons_self
      obtain ⟨part, hpart, hprint⟩ := hl.exists_segments
      obtain ⟨rest, hrest, hbehind⟩ := ih fun l' hl' => h l' (List.mem_cons_of_mem l hl')
      refine ⟨joinSegments part rest, ?_, fun data => ?_⟩
      · unfold segmentsOf at *
        rw [List.flatMap_cons, hl.split_tag, ofPieces_append, hpart, hrest]
        rfl
      · rw [renderSegments_join, hprint, hbehind]
        rfl

/-! ## Refinement -/

/-- The text that the root of a plain site expands to is that of its leaves, however it is cut into
tokens, and its segments print what the leaves do. -/
theorem Flattens.segments (h : PlainSite library tree root) {text : List Char}
    (hexpand : expand library tree finish root [root] = .ok text) {tokens : List Token}
    (hfile : PlainFile tree root tokens) {leaves : List Leaf}
    (hleaves : Flattens library tree root tokens leaves) :
    ∃ segments, segmentsOf text = .ok segments ∧
      ∀ data, renderSegments data segments = renderLeaves data [] leaves := by
  obtain ⟨includes, expansions, hmap, hcall, hsplice⟩ := hfile.callData hexpand
  obtain ⟨htext, hfits⟩ := hleaves.splice h .root hmap hcall (h.fits .root hfile)
  rw [← hsplice, htext]
  exact exists_segmentsOf_leaves fun l hl => (hfits l hl).safe

theorem PlainSite.expand_eq_ok (h : PlainSite library tree root) (finish : Schedule) :
    ∃ text, expand library tree finish root [root] = .ok text :=
  h.wellLinked.expand_eq_ok h.acyclic

theorem PlainSite.exists_flattens (h : PlainSite library tree root) :
    ∃ tokens leaves, PlainFile tree root tokens ∧ Flattens library tree root tokens leaves := by
  obtain ⟨text, hexpand⟩ := h.expand_eq_ok .inOrder
  obtain ⟨tokens, hfile⟩ := h.plain root .refl
  obtain ⟨leaves, hleaves⟩ := Template.exists_flattens h hexpand .root hfile
  exact ⟨tokens, leaves, hfile, hleaves⟩

/-- The tree of a plain site prints something on every data, a text or a fault. -/
theorem PlainSite.exists_rendersFile (h : PlainSite library tree root) (data : Json) :
    ∃ result, RendersFile library tree data root [] result := by
  obtain ⟨tokens, leaves, hfile, hleaves⟩ := h.exists_flattens
  exact ⟨_, tokens, hfile, hleaves.renders data []⟩

theorem PlainSite.exists_build (h : PlainSite library tree root) (finish : Schedule) :
    ∃ template, build library tree finish root = .ok template := by
  obtain ⟨text, hexpand⟩ := h.expand_eq_ok finish
  obtain ⟨tokens, leaves, hfile, hleaves⟩ := h.exists_flattens
  obtain ⟨segments, hsegments, _⟩ := hleaves.segments h hexpand hfile
  refine ⟨⟨root, segments⟩, ?_⟩
  unfold build
  rw [hexpand]
  dsimp only
  rw [hsegments]

/-- A template made of a plain site prints what the tree of files prints. -/
theorem PlainSite.render_of_build (h : PlainSite library tree root) {template : Template}
    (hbuild : build library tree finish root = .ok template)
    {result : Except LookupFault (List Char)}
    (hresult : RendersFile library tree data root [] result) :
    template.render data = outcome root result := by
  obtain ⟨tokens, hfile, hrenders⟩ := hresult
  obtain ⟨leaves, hleaves, rfl⟩ := hrenders.exists_flattens
  obtain ⟨text, hexpand⟩ := h.expand_eq_ok finish
  obtain ⟨segments, hsegments, hrender⟩ := hleaves.segments h hexpand hfile
  unfold build at hbuild
  rw [hexpand] at hbuild
  dsimp only at hbuild
  rw [hsegments] at hbuild
  cases hbuild
  unfold Template.render
  dsimp only
  rw [hrender data]
  cases renderLeaves data [] leaves <;> rfl

/-- What the cache has for a path, if anything, was made from the files as they are. -/
def Cache.Current (library : Library) (tree : FileTree) (cache : Cache) (path : Path) : Prop :=
  ∀ template, cache.find? path = some template →
    ∃ finish, build library tree finish path = .ok template

theorem Cache.current_empty (path : Path) : Cache.empty.Current library tree path := by
  intro template hfind
  cases hfind

/-- What a compilation gives was made from the files, now or when it was put into the cache. -/
theorem compile_eq_ok_of_current {cache : Cache} {path place : Path} {template : Template}
    (hkey : key path = .ok place) (hcache : cache.Current library tree place)
    (hbuild : build library tree finish place = .ok template) :
    ∃ finish' template', (compile library tree finish cache path).1 = .ok template' ∧
      build library tree finish' place = .ok template' := by
  unfold compile
  rw [hkey]
  dsimp only
  cases hfind : cache.find? place with
  | some kept =>
      obtain ⟨finish', hkept⟩ := hcache kept hfind
      exact ⟨finish', kept, rfl, hkept⟩
  | none =>
      dsimp only
      rw [hbuild]
      exact ⟨finish, template, rfl, hbuild⟩

/-- A plain site is compiled, whatever order includes finish in, and rendering the template prints what
the tree of files prints, or fails with the first of its faults. -/
theorem compile_refines_tree (h : PlainSite library tree root) (finish : Schedule) {cache : Cache}
    {path : Path} (hkey : key path = .ok root) (hcache : cache.Current library tree root) :
    ∃ template, (compile library tree finish cache path).1 = .ok template ∧ ∀ data,
      (∃ result, RendersFile library tree data root [] result) ∧
        ∀ result, RendersFile library tree data root [] result →
          template.render data = outcome root result := by
  obtain ⟨fresh, hfresh⟩ := h.exists_build finish
  obtain ⟨finish', template, hcompile, hbuild⟩ := compile_eq_ok_of_current hkey hcache hfresh
  refine ⟨template, hcompile, fun data => ⟨h.exists_rendersFile data, ?_⟩⟩
  intro result hresult
  exact h.render_of_build hbuild hresult

/-! ## Checking a site -/

/-- None of the arguments in the files of a list has a `<` in what it inserts. -/
def harmlessIn (tree : FileTree) (files : List Path) : Bool :=
  files.all fun f =>
    match tree.readText f with
    | .error _ => false
    | .ok content =>
      match inclusions f (Page.ofText content.toList).directives with
      | .error _ => false
      | .ok includes => includes.all fun i =>
        (i.2.getD []).all fun field => !(Placeholder.inserted field.2).contains '<'

theorem Visits.reaches {f : Path} {scope : Scope} (h : Visits library tree root f scope) :
    Reaches library tree root f := by
  induction h with
  | root => exact .refl
  | inner outer refers ih => exact ih.tail refers.includes

theorem not_mem_inserted_of_harmlessIn {files : List Path} {f : Path} {scope : Scope}
    (hharmless : harmlessIn tree files = true)
    (hfiles : ∀ g, Reaches library tree root g → g ∈ files)
    (h : Visits library tree root f scope) :
    ∀ fields ∈ scope, ∀ field ∈ fields, '<' ∉ Placeholder.inserted field.2 := by
  induction h with
  | root => exact fun fields hfields => absurd hfields List.not_mem_nil
  | @inner path target scope directive arguments outer refers ih =>
      obtain ⟨content, includes, hread, hincludes, hmem, _⟩ := refers
      intro fields hfields field hfield
      rcases List.mem_append.mp hfields with hfields | hfields
      · have hpath := List.all_eq_true.mp hharmless path (hfiles path outer.reaches)
        rw [hread] at hpath
        dsimp only at hpath
        rw [hincludes] at hpath
        have harguments := List.all_eq_true.mp hpath _ hmem
        rw [Option.mem_toList.mp hfields] at harguments
        simpa using List.all_eq_true.mp harguments field hfield
      · exact ih fields hfields field hfield

/-- A site is plain when the files of a list are, all includes stay among them, the expansion of the
root is known, and no argument has a `<`. -/
theorem plainSite_of_files {files : List Path} {text : List Char} (hroot : root ∈ files)
    (hclosed : closedUnder library tree files = true)
    (hplain : ∀ f ∈ files, ∃ tokens, PlainFile tree f tokens)
    (hexpand : expand library tree finish root [root] = .ok text)
    (hharmless : harmlessIn tree files = true) : PlainSite library tree root := by
  have hfiles (g : Path) (hg : Reaches library tree root g) : g ∈ files :=
    mem_of_reaches hclosed hroot hg
  refine ⟨fun f hf => hplain f (hfiles f hf), (wellLinked_of_closedUnder hclosed hroot).resolved,
    not_cycleFrom_of_expand_eq_ok hexpand, ?_⟩
  intro f scope tokens l hvisits _ _ value hvalue
  unfold Leaf.binding at hvalue
  obtain ⟨name, _, hbound⟩ := Option.bind_eq_some_iff.mp hvalue
  obtain ⟨fields, hfields, hlookup⟩ := List.exists_of_findSome?_eq_some hbound
  obtain ⟨before, behind, heq, _⟩ := List.lookup_eq_some_iff.mp hlookup
  refine not_mem_inserted_of_harmlessIn hharmless hfiles hvisits fields hfields (name, value) ?_
  rw [heq]
  exact List.mem_append_right before List.mem_cons_self

/-- A page and two parts inside each other, each with a name of its own. -/
def namesTree : FileTree :=
  ⟨[(["page.tmpl"], .file (bytesOf "<%= name %>, <%- include('you', \x7bname: 'you'\x7d) %>")),
    (["you.tmpl"], .file (bytesOf "<%- include('me', \x7bname: 'me'\x7d) %> & <%= name %>")),
    (["me.tmpl"], .file (bytesOf "<%= name %> <%%"))]⟩

def nameTag : Token :=
  .leaf (.tag true " name ".toList ⟨"name", "name", []⟩)

def pageTokens : List Token :=
  [nameTag, .leaf (.text ", ".toList),
    .part ⟨"<%- include('you', \x7bname: 'you'\x7d) %>".toList, "you", some "\x7bname: 'you'\x7d".toList⟩]

def youTokens : List Token :=
  [.part ⟨"<%- include('me', \x7bname: 'me'\x7d) %>".toList, "me", some "\x7bname: 'me'\x7d".toList⟩,
    .leaf (.text " & ".toList), nameTag]

def meTokens : List Token :=
  [nameTag, .leaf (.text " ".toList), .leaf .mark]

/-- A bare name stands for the data, or for the innermost arguments that have it. -/
theorem compile_refines_namesTree :
    ∃ template result,
      (compile ⟨⟨"/"⟩, ["tmpl"]⟩ namesTree .inOrder .empty ⟨"/page.tmpl"⟩).1 = .ok template ∧
        RendersFile ⟨⟨"/"⟩, ["tmpl"]⟩ namesTree (.object [("name", .string "A<")]) ⟨"/page.tmpl"⟩ []
          result ∧
        template.render (.object [("name", .string "A<")]) = outcome ⟨"/page.tmpl"⟩ result ∧
        template.render (.object [("name", .string "A<")]) = .ok "A&lt;, me <% & you" := by
  have hplain : ∀ f ∈ [⟨"/page.tmpl"⟩, ⟨"/you.tmpl"⟩, ⟨"/me.tmpl"⟩],
      ∃ tokens, PlainFile namesTree f tokens := by
    intro f hf
    simp only [List.mem_cons, List.not_mem_nil, or_false] at hf
    rcases hf with rfl | rfl | rfl
    · exact ⟨pageTokens, "<%= name %>, <%- include('you', \x7bname: 'you'\x7d) %>", by decide +kernel,
        by decide +kernel, by decide +kernel⟩
    · exact ⟨youTokens, "<%- include('me', \x7bname: 'me'\x7d) %> & <%= name %>", by decide +kernel,
        by decide +kernel, by decide +kernel⟩
    · exact ⟨meTokens, "<%= name %> <%%", by decide +kernel, by decide +kernel,
        by decide +kernel⟩
  have hexpand : expand ⟨⟨"/"⟩, ["tmpl"]⟩ namesTree .inOrder ⟨"/page.tmpl"⟩ [⟨"/page.tmpl"⟩] =
      .ok "<%= name %>, me <%% & you".toList := by
    decide +kernel
  have hsite := plainSite_of_files (by decide) (by decide +kernel) hplain hexpand (by decide +kernel)
  obtain ⟨template, hcompile, hrender⟩ := compile_refines_tree hsite .inOrder
    (show key ⟨"/page.tmpl"⟩ = .ok ⟨"/page.tmpl"⟩ by decide +kernel)
    (Cache.current_empty _)
  obtain ⟨⟨result, hresult⟩, hall⟩ := hrender (.object [("name", .string "A<")])
  refine ⟨template, result, hcompile, hresult, hall result hresult, ?_⟩
  have hprint : ((compile ⟨⟨"/"⟩, ["tmpl"]⟩ namesTree .inOrder .empty ⟨"/page.tmpl"⟩).1.bind
      fun t => t.render (.object [("name", .string "A<")])) = .ok "A&lt;, me <% & you" := by
    decide +kernel
  rw [hcompile] at hprint
  exact hprint

end SiteServer.Template
