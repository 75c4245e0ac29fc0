import SiteServer.Proofs.Template.Bindings
import SiteServer.Proofs.Template.Comments
import SiteServer.Proofs.Template.InPlace
import SiteServer.Proofs.Template.Printing

/-! # Included texts and printed ones.

The text of a file can be put into a page in two ways: the page includes the file, or it prints a field of the
data that holds the text. An included text becomes part of the template before any tag is read, and a printed
one does not. As long as nothing is read across the ends of the text, and the text has no tags, there is no
difference, and the close of the directive takes the same line end along as that of the tag. -/

namespace SiteServer.Template

variable {library : Library} {tree : FileTree} {page path target : Path} {name fragment : String}
  {trims : Bool} {pre post written front rest behind more : List Char} {first : List Segment}

/-! ## A tag that prints a field -/

/-- The tag that prints a field of the data as it is. -/
def valueTag (name : String) (trims : Bool) : List Char :=
  '<' :: '%' :: '-' :: ' ' :: (name.toList ++ ' ' :: if trims then ['-', '%', '>'] else ['%', '>'])

def fieldLookup (name : String) : Lookup :=
  ⟨name, name, []⟩

theorem fieldLookup_printable (hname : Lookup.IsIdent name.toList) : (fieldLookup name).Printable where
  spelled := by
    refine ⟨name.toList, ?_, name.toList, [], ?_, hname, ?_, .nil⟩
    · rw [hname.trim_eq, String.ofList_toList]
      rfl
    · rw [hname.trim_eq, List.append_nil]
    · rw [String.ofList_toList]
      rfl
  noClose hinside := by
    have hpercent : '%' ∉ name.toList := hname.not_mem (by decide)
    exact hpercent (hinside.subset List.mem_cons_self)

/-- The close of the tag takes along what the close of a directive would. -/
theorem read?_valueTag (hname : Lookup.IsIdent name.toList) (trims : Bool) (behind : List Char) :
    Tag.read? (valueTag name trims ++ behind) =
      some (.body ('-' :: ' ' :: (name.toList ++ [' '])), Directive.remaining trims behind) := by
  have hprintable := fieldLookup_printable hname
  cases trims with
  | false =>
      have hread := @read?_writtenTag '-' (by decide) _ hprintable.noClose behind
      simpa [valueTag, writtenTag, fieldLookup, Directive.remaining] using hread
  | true =>
      have hbody : ¬ ['%', '>'] <:+: '-' :: ' ' :: (name.toList ++ [' ']) := by
        intro hinside
        have hmem := hinside.subset List.mem_cons_self
        have hpercent : '%' ∉ name.toList := hname.not_mem (by decide)
        simp [hpercent] at hmem
      have henclosed : Enclosed ('-' :: ' ' :: (name.toList ++ [' ']) ++ ['-']) :=
        ⟨List.cons_ne_nil _ _, by simp, Text.not_infix_append hbody (by decide) (by decide)⟩
      have hcloses : Closes ('-' :: ' ' :: (name.toList ++ [' ']) ++ ['-']) behind
          ('-' :: ' ' :: (name.toList ++ [' '])) (Text.dropLineEnd behind) :=
        .dash (List.cons_ne_nil _ _) (Text.cutsLineEnd_iff.mpr rfl)
      have hread := henclosed.read? behind
      rw [hcloses.closed_eq] at hread
      simpa [valueTag, Directive.remaining] using hread

theorem segmentsOf_valueTag (hname : Lookup.IsIdent name.toList) (trims : Bool) (behind : List Char) :
    segmentsOf (valueTag name trims ++ behind) =
      (segmentsOf (Directive.remaining trims behind)).map (joinSegments [.raw (fieldLookup name)]) := by
  have hpart : Segment.ofPiece? (.found (.body ('-' :: ' ' :: (name.toList ++ [' '])))) =
      .ok [.raw (fieldLookup name)] := (Makes.raw (fieldLookup_printable hname).spells).ofPiece?
  have hread : Tag.pattern.read? (valueTag name trims ++ behind) = _ := read?_valueTag hname trims behind
  unfold segmentsOf
  rw [Text.Pattern.split_found hread, ofPieces_cons, hpart]
  cases Segment.ofPieces [] (Tag.pattern.split (Directive.remaining trims behind)) <;> rfl

/-- A name with no bracket behind it is not the opening of a directive, even if it is `include`. -/
theorem opening?_of_isIdent {text : List Char} (h : Lookup.IsIdent text) {c : Char}
    (hblank : Text.isBlank c = false) (hbracket : c ≠ '(') (rest : List Char) :
    Directive.opening? ('<' :: '%' :: '-' :: ' ' :: (text ++ ' ' :: c :: rest)) = none := by
  by_contra hsome
  obtain ⟨after, hopening⟩ := Option.ne_none_iff_exists'.mp hsome
  obtain ⟨r₁, r₂, hinclude, htail⟩ := ident?_of_opening? hopening
  have hstart : Text.trimLeft (' ' :: (text ++ ' ' :: c :: rest)) = text ++ ' ' :: c :: rest :=
    h.trimLeft_append _
  have hident : Lookup.ident? (text ++ ' ' :: c :: rest) = some (String.ofList text, ' ' :: c :: rest) := by
    refine h.ident? fun d hd => ?_
    cases hd
    decide
  rw [hstart, hident] at hinclude
  obtain ⟨_, rfl⟩ := Prod.mk.inj (Option.some.inj hinclude)
  have hnext : Text.trimLeft (' ' :: c :: rest) = c :: rest := Text.trimLeft_cons_of_not_blank hblank rest
  rw [hnext] at htail
  exact hbracket (List.cons.inj htail).1

theorem ofText_valueTag (hname : Lookup.IsIdent name.toList) (trims : Bool) (behind : List Char) :
    Page.ofText (valueTag name trims ++ behind) = (valueTag name trims).map .char ++ Page.ofText behind := by
  have hless : '<' ∉ name.toList := hname.not_mem (by decide)
  refine marked_directive.split_mark (by cases trims <;> simp [hless]) ?_
  have hopening : Directive.opening? (valueTag name trims ++ behind) = none := by
    cases trims with
    | false => simpa [valueTag] using opening?_of_isIdent hname (by decide) (by decide) ('>' :: behind)
    | true => simpa [valueTag] using opening?_of_isIdent hname (by decide) (by decide) ('%' :: '>' :: behind)
  change Directive.read? (valueTag name trims ++ behind) = none
  unfold Directive.read?
  rw [hopening]
  rfl

theorem segmentsOf_plain_append {text : List Char} (h : '<' ∉ text) (rest : List Char) :
    segmentsOf (text ++ rest) = (segmentsOf rest).map (joinSegments (Segment.ofText text)) := by
  unfold segmentsOf
  rw [marked_tag.split_quiet (quiet_of_not_mem h), ofPieces_append, ofPieces_chars]
  cases Segment.ofPieces [] (Tag.pattern.split rest) <;> rfl

/-! ## A text in a template, or in the data -/

theorem render_fieldLookup (hwhole : name ≠ Lookup.wholeData) (fields : JsonFields) (fragment : String) :
    (Segment.raw (fieldLookup name)).render (.object (fields.insert name (.string fragment))) =
      .ok fragment.toList := by
  have hget : (Json.object (fields.insert name (.string fragment))).get? name = some (.string fragment) :=
    (JsonFields.get?_insert fields name _ name).trans (if_pos rfl)
  rw [Segment.render, Lookup.value, Lookup.start?, fieldLookup, if_neg hwhole, hget]
  rfl

/-- A text without tags prints the same in a template as in a field of the data, when nothing before it is
read on into it, and the field is mentioned nowhere else. -/
theorem evaluate_interchanged (hname : Lookup.IsIdent name.toList) (hwhole : name ≠ Lookup.wholeData)
    (hplain : '<' ∉ fragment.toList) (hfirst : segmentsOf front = .ok first)
    (hapart : Tag.pattern.Apart front (fragment.toList ++ Directive.remaining trims behind))
    (hfront : ¬ name.toList <:+: front) (hbehind : ¬ name.toList <:+: behind) (fields : JsonFields) :
    (evaluate page (front ++ (fragment.toList ++ Directive.remaining trims behind))).bind
        (·.render (.object fields)) =
      (evaluate page (front ++ (valueTag name trims ++ behind))).bind
        (·.render (.object (fields.insert name (.string fragment)))) := by
  have htext : segmentsOf (front ++ (fragment.toList ++ Directive.remaining trims behind)) =
      (segmentsOf (Directive.remaining trims behind)).map
        fun second => joinSegments first (joinSegments (Segment.ofText fragment.toList) second) := by
    rw [segmentsOf_of_apart hapart hfirst, segmentsOf_plain_append hplain]
    cases segmentsOf (Directive.remaining trims behind) <;> rfl
  have htag : segmentsOf (front ++ (valueTag name trims ++ behind)) =
      (segmentsOf (Directive.remaining trims behind)).map
        fun second => joinSegments first (joinSegments [.raw (fieldLookup name)] second) := by
    have hseam : CleanSeam front (valueTag name trims ++ behind) := cleanSeam_mark front _
    rw [segmentsOf_append hfirst hseam, segmentsOf_valueTag hname]
    cases segmentsOf (Directive.remaining trims behind) <;> rfl
  unfold evaluate
  rw [htext, htag]
  cases hsecond : segmentsOf (Directive.remaining trims behind) with
  | error fault => rfl
  | ok second =>
      have hremaining : ¬ name.toList <:+: Directive.remaining trims behind := by
        intro hinside
        refine hbehind (hinside.trans ?_)
        conv_rhs => rw [← Directive.taken_append_remaining trims behind]
        exact (List.suffix_append _ _).isInfix
      dsimp only [Except.map, Except.bind, render]
      rw [renderSegments_join, renderSegments_join, renderSegments_join, renderSegments_join,
        renderSegments_ofText, renderSegments_singleton, render_fieldLookup hwhole,
        render_insert hfirst hfront, render_insert hsecond hremaining]

/-! ## Pages around a text -/

/-- What a page can come to on some data: its output or its failure, in whatever order includes finish. -/
def outcomes (library : Library) (tree : FileTree) (cache : Cache) (path : Path) (data : Json) :
    Set (Except Failure String) :=
  Set.range fun finish : Schedule => (compile library tree finish cache path).1.bind (·.render data)

/-- The expansion of a text as the text of a page. -/
def expansionOf (library : Library) (tree : FileTree) (page : Path) (text : List Char) :
    Except Failure (List Char) :=
  expand library (tree.withText page text) .inOrder page [page]

/-- Nothing is read across the ends of a text that a page includes, or prints with a tag. -/
structure Separate (library : Library) (tree : FileTree) (page : Path) (pre written post : List Char)
    (trims : Bool) (name fragment : String) : Prop where
  /-- What is before makes a template by itself. -/
  compiles : ∃ front first, expansionOf library tree page pre = .ok front ∧ segmentsOf front = .ok first
  /-- No directive begins before and ends behind. -/
  scanned : ∀ middle ∈ [written, valueTag name trims], Directive.pattern.Apart pre (middle ++ post)
  /-- No mark that is before goes on in the text, and no close takes a line end of it along. -/
  tagged : ∀ front behind, expansionOf library tree page pre = .ok front →
    expansionOf library tree page post = .ok behind →
      Tag.pattern.Apart front (fragment.toList ++ Directive.remaining trims behind)
  /-- A line end that is taken along does not come from an include. -/
  taken : ∀ behind, expansionOf library tree page post = .ok behind →
    Directive.taken trims behind = Directive.taken trims post
  /-- The name is not mentioned. -/
  unmentioned : ∀ text ∈ [pre, post], ∀ expanded, expansionOf library tree page text = .ok expanded →
    ¬ name.toList <:+: expanded

/-- It is enough that the text stands at a clean seam, as it does behind an expansion that ends safely. -/
theorem Separate.of_cleanSeam (hpre : expansionOf library tree page pre = .ok front)
    (hfirst : segmentsOf front = .ok first)
    (hscanned : ∀ middle ∈ [written, valueTag name trims], Directive.pattern.Apart pre (middle ++ post))
    (hseam : ∀ behind, expansionOf library tree page post = .ok behind →
      CleanSeam front (fragment.toList ++ Directive.remaining trims behind))
    (htaken : ∀ behind, expansionOf library tree page post = .ok behind →
      Directive.taken trims behind = Directive.taken trims post)
    (hunmentioned : ∀ text ∈ [pre, post], ∀ expanded, expansionOf library tree page text = .ok expanded →
      ¬ name.toList <:+: expanded) :
    Separate library tree page pre written post trims name fragment where
  compiles := ⟨front, first, hpre, hfirst⟩
  scanned := hscanned
  tagged other behind hother hbehind := by
    rw [hpre] at hother
    cases hother
    obtain ⟨pieces, hpieces⟩ := exists_reads front
    exact hpieces.apart (unclosed_not_mem hpieces hfirst) (hseam behind hbehind)
  taken := htaken
  unmentioned := hunmentioned

theorem outcomes_eq {cache : Cache} (hkey : key path = .ok page) (hcold : cache.find? page = none)
    (data : Json) : outcomes library tree cache path data = Set.range fun finish : Schedule =>
      ((expand library tree finish page [page]).bind (evaluate page)).bind (·.render data) := by
  unfold outcomes
  refine congrArg Set.range (funext fun finish => ?_)
  rw [compile_of_find?_eq_none hkey hcold, build_eq_bind]

theorem IsPage.expansionOf_eq (h : IsPage library tree page) (text : List Char) :
    expansionOf library tree page text =
      expandPage library (tree.withText page text) .inOrder page [page] (Page.ofText text) :=
  (h.readsAs_withText text).expand_eq (h.of_alikeBut (h.alikeBut_withText text)).file rfl [page]

/-- A line end that is taken along is read as it is. -/
theorem ofText_taken (trims : Bool) (text : List Char) :
    Page.ofText text =
      (Directive.taken trims text).map .char ++ Page.ofText (Directive.remaining trims text) := by
  have htaken : '<' ∉ Directive.taken trims text := by
    unfold Directive.taken Text.lineEnd
    split
    · split <;> decide
    · decide
  have hsplit : Directive.pattern.split (Directive.taken trims text ++ Directive.remaining trims text) = _ :=
    marked_directive.split_quiet (quiet_of_not_mem htaken)
  rwa [Directive.taken_append_remaining] at hsplit

/-! ## Including and printing -/

theorem IsPage.exchanged (h : IsPage library tree page) {reference : String}
    (hwritten : Directive.Written written reference none trims)
    (hfile : library.resolve? tree reference page = some target) (hother : target.names ≠ page.names)
    (hread : tree.readText target = .ok fragment) (hplain : '<' ∉ fragment.toList)
    (hname : Lookup.IsIdent name.toList)
    (hscanned : ∀ middle ∈ [written, valueTag name trims], Directive.pattern.Apart pre (middle ++ post)) :
    Exchanged library (tree.withText page (pre ++ (written ++ post)))
      (tree.withText page (pre ++ (valueTag name trims ++ post))) page (Page.ofText pre)
      (Page.ofText (Directive.remaining trims post))
      ⟨written ++ Directive.taken trims post, reference, none⟩ target fragment
      (valueTag name trims ++ Directive.taken trims post) := by
  have halike := h.alikeBut_withText (pre ++ (written ++ post))
  have hincluded : Page.ofText (pre ++ (written ++ post)) = Page.ofText pre ++
      .found ⟨written ++ Directive.taken trims post, reference, none⟩ ::
        Page.ofText (Directive.remaining trims post) := by
    have hdirective : Directive.pattern.read? (written ++ post) =
        some (⟨written ++ Directive.taken trims post, reference, none⟩, Directive.remaining trims post) :=
      hwritten.read? post
    unfold Page.ofText
    rw [(hscanned written (by simp)).split_append, Text.Pattern.split_found hdirective]
  have hprinted : Page.ofText (pre ++ (valueTag name trims ++ post)) = Page.ofText pre ++
      ((valueTag name trims ++ Directive.taken trims post).map .char ++
        Page.ofText (Directive.remaining trims post)) := by
    rw [List.map_append, List.append_assoc, ← ofText_taken, ← ofText_valueTag hname]
    exact (hscanned (valueTag name trims) (by simp)).split_append
  refine ⟨h.of_alikeBut halike, halike.symm.trans (h.alikeBut_withText _), ?_, ?_, ?_, ?_, hother, ?_, hplain⟩
  · rw [← hincluded]
    exact h.readsAs_withText _
  · rw [← hprinted]
    exact h.readsAs_withText _
  · unfold Directive.arguments
    rfl
  · rw [halike.resolve?_eq]
    exact hfile
  · rw [halike.readText target hother]
    exact hread

/-- What is before the text and what is behind it come to the same with the text and with the tag. -/
theorem Separate.evaluate_eq (hseparate : Separate library tree page pre written post trims name fragment)
    (hplain : '<' ∉ fragment.toList) (hname : Lookup.IsIdent name.toList) (hwhole : name ≠ Lookup.wholeData)
    (hpre : expansionOf library tree page pre = .ok front)
    (hpost : expansionOf library tree page post = .ok (Directive.taken trims post ++ rest))
    (fields : JsonFields) :
    (evaluate page (front ++ (fragment.toList ++ rest))).bind (·.render (.object fields)) =
      (evaluate page (front ++ (valueTag name trims ++ Directive.taken trims post ++ rest))).bind
        (·.render (.object (fields.insert name (.string fragment)))) := by
  have hremaining : Directive.remaining trims (Directive.taken trims post ++ rest) = rest := by
    have hsplit := Directive.taken_append_remaining trims (Directive.taken trims post ++ rest)
    rw [hseparate.taken _ hpost] at hsplit
    exact List.append_cancel_left hsplit
  obtain ⟨front', first, hfront, hfirst⟩ := hseparate.compiles
  rw [hpre] at hfront
  cases hfront
  have hinterchanged := @evaluate_interchanged page _ _ _ _ _ _ hname hwhole hplain hfirst
    (hseparate.tagged _ _ hpre hpost) (hseparate.unmentioned pre (by simp) _ hpre)
    (hseparate.unmentioned post (by simp) _ hpost) fields
  rwa [hremaining, ← List.append_assoc (valueTag name trims)] at hinterchanged

/-- A page that includes another file without tags comes to the same as the page that prints a field of the
data with the text of the file, in its place and with the same close, as long as nothing is read across the
ends of the text and the field is mentioned nowhere else. Line ends, failures and all outputs are the same. -/
theorem included_text_printed (hpage : IsPage library tree page) {cache : Cache} (hkey : key path = .ok page)
    (hcold : cache.find? page = none) {reference : String}
    (hwritten : Directive.Written written reference none trims)
    (hfile : library.resolve? tree reference page = some target) (hother : target.names ≠ page.names)
    (hread : tree.readText target = .ok fragment) (hplain : '<' ∉ fragment.toList)
    (hname : Lookup.IsIdent name.toList) (hwhole : name ≠ Lookup.wholeData)
    (hseparate : Separate library tree page pre written post trims name fragment) (fields : JsonFields) :
    outcomes library (tree.withText page (pre ++ (written ++ post))) cache path (.object fields) =
      outcomes library (tree.withText page (pre ++ (valueTag name trims ++ post))) cache path
        (.object (fields.insert name (.string fragment))) := by
  have hexchanged :=
    hpage.exchanged hwritten hfile hother hread hplain hname hseparate.scanned
  let count := (Page.ofText pre).directives.length
  let printed (finish : Schedule) : Except Failure String :=
    ((expand library (tree.withText page (pre ++ (valueTag name trims ++ post))) finish page
      [page]).bind (evaluate page)).bind (·.render (.object (fields.insert name (.string fragment))))
  have hsame (finish : Schedule) :
      ((expand library (tree.withText page (pre ++ (written ++ post))) finish page [page]).bind
        (evaluate page)).bind (·.render (.object fields)) = printed (finish.without page count) := by
    dsimp only [printed]
    rcases hexchanged.expand_root with
      ⟨failure, hincluded, hprinted⟩ | ⟨front, rest, hfront, hrest, hincluded, hprinted⟩
    · rw [hincluded, hprinted]
      rfl
    · have halike (text : List Char) :=
        (hpage.alikeBut_withText (pre ++ (written ++ post))).symm.trans (hpage.alikeBut_withText text)
      have hpre : expansionOf library tree page pre = .ok front := by
        rw [hpage.expansionOf_eq]
        exact hfront _ (halike pre) .inOrder
      have hpost : expansionOf library tree page post = .ok (Directive.taken trims post ++ rest) := by
        rw [hpage.expansionOf_eq, ofText_taken trims post, expandPage_chars,
          hrest _ (halike post) .inOrder]
        rfl
      rw [hincluded, hprinted]
      exact hseparate.evaluate_eq hplain hname hwhole hpre hpost fields
  rw [outcomes_eq hkey hcold, outcomes_eq hkey hcold, funext hsame]
  exact (Schedule.without_surjective page count).range_comp printed

/-- A page with an include before the text and one behind it. -/
def seamTree : FileTree :=
  ⟨[(["page.tmpl"], .file []), (["f.tmpl"], .file (bytesOf "\nB")),
    (["g.tmpl"], .file (bytesOf "<%# note -%>\n<%= x %>"))]⟩

def seamPre : List Char :=
  "A<%- include('g') %>, ".toList

def seamPost : List Char :=
  "\n<%- include('g') -%>\n!".toList

theorem seamTree_isPage : IsPage ⟨⟨"/"⟩, ["tmpl"]⟩ seamTree ⟨"/page.tmpl"⟩ where
  root := by decide
  absolute := by decide
  file := by decide +kernel

theorem seamTree_separate : Separate ⟨⟨"/"⟩, ["tmpl"]⟩ seamTree ⟨"/page.tmpl"⟩ seamPre
    "<%- include('f') -%>".toList seamPost true "v" "\nB" := by
  have hpre : expansionOf ⟨⟨"/"⟩, ["tmpl"]⟩ seamTree ⟨"/page.tmpl"⟩ seamPre =
      .ok "A<%# note -%>\n<%= x %>, ".toList := by decide +kernel
  have hpost : expansionOf ⟨⟨"/"⟩, ["tmpl"]⟩ seamTree ⟨"/page.tmpl"⟩ seamPost =
      .ok "\n<%# note -%>\n<%= x %>!".toList := by decide +kernel
  have hfirst : segmentsOf "A<%# note -%>\n<%= x %>, ".toList =
      .ok [.text "A", .escaped ⟨"x", "x", []⟩, .text ", "] := by decide +kernel
  have hsafe : SafeEnd "A<%# note -%>\n<%= x %>, ".toList := by decide +kernel
  refine .of_cleanSeam hpre hfirst (by decide +kernel) (fun _ _ => hsafe.seam _) ?_ ?_
  · intro behind hbehind
    rw [hpost] at hbehind
    cases hbehind
    decide
  · intro text htext expanded hexpanded
    rcases List.mem_cons.mp htext with rfl | htext
    · rw [hpre] at hexpanded
      cases hexpanded
      decide
    · rw [List.mem_singleton.mp htext, hpost] at hexpanded
      cases hexpanded
      decide

theorem included_text_printed_between :
    outcomes ⟨⟨"/"⟩, ["tmpl"]⟩
        (seamTree.withText ⟨"/page.tmpl"⟩ (seamPre ++ ("<%- include('f') -%>".toList ++ seamPost))) .empty
          ⟨"/page.tmpl"⟩ (.object [("x", .string "&")]) =
      outcomes ⟨⟨"/"⟩, ["tmpl"]⟩
        (seamTree.withText ⟨"/page.tmpl"⟩ (seamPre ++ (valueTag "v" true ++ seamPost))) .empty
          ⟨"/page.tmpl"⟩ (.object (JsonFields.insert "v" (.string "\nB") [("x", .string "&")])) ∧
      .ok "A&amp;, \nB&amp;!" ∈ outcomes ⟨⟨"/"⟩, ["tmpl"]⟩
        (seamTree.withText ⟨"/page.tmpl"⟩ (seamPre ++ ("<%- include('f') -%>".toList ++ seamPost))) .empty
          ⟨"/page.tmpl"⟩ (.object [("x", .string "&")]) := by
  have hopening := @Directive.OpeningText.intro [' '] [] [] (by decide) (by decide) (by decide)
  have hquoted := @Directive.QuotedText.intro '\'' ['f'] (.inl rfl) (by decide)
  have hclose := @Directive.CloseText.dash [' '] (by decide)
  have hwritten : Directive.Written "<%- include('f') -%>".toList "f" none true :=
    @Directive.Written.intro _ _ _ _ [] _ _ _ hopening hquoted .none (by decide) hclose
  have hname : Lookup.IsIdent "v".toList := ⟨'v', [], rfl, by decide, by simp⟩
  have hfile : Library.resolve? ⟨⟨"/"⟩, ["tmpl"]⟩ seamTree "f" ⟨"/page.tmpl"⟩ = some ⟨"/f.tmpl"⟩ := by
    decide +kernel
  have hread : seamTree.readText ⟨"/f.tmpl"⟩ = .ok "\nB" := by decide +kernel
  refine ⟨?_, .inOrder, by decide +kernel⟩
  exact included_text_printed seamTree_isPage (by decide +kernel) rfl hwritten hfile (by decide) hread
    (by decide) hname (by decide) seamTree_separate _

def seamResult (files : List (String × String)) (text : String) (fields : JsonFields) :
    Except Failure String :=
  (compile ⟨⟨"/"⟩, ["tmpl"]⟩
    (FileTree.withText ⟨files.map fun file => ([file.1], .file (bytesOf file.2))⟩ ⟨"/page.tmpl"⟩ text.toList)
      .inOrder .empty ⟨"/page.tmpl"⟩).1.bind (·.render (.object fields))

/-- An included text is not always printed as a field with the text is: a close before it takes its line end
along; its own close takes no line end from an include; a directive may begin before it and end behind it; the
data as a whole has a name of its own; an include may mention the field; and a mark may begin with the end of
an include. -/
theorem included_text_not_printed :
    (seamResult [("f.tmpl", "\nB")] "<%- x -%>" [("x", .string "X")] = .ok "X" ∧
      seamResult [("f.tmpl", "\nB")] "<%- x -%><%- include('f') %>C" [("x", .string "X")] = .ok "XBC" ∧
      seamResult [("f.tmpl", "\nB")] "<%- x -%><%- v %>C" [("v", .string "\nB"), ("x", .string "X")] =
        .ok "X\nBC") ∧
    (seamResult [("f.tmpl", "B"), ("n.tmpl", "\nC")] "<%- include('f') -%><%- include('n') %>" [] =
        .ok "B\nC" ∧
      seamResult [("f.tmpl", "B"), ("n.tmpl", "\nC")] "<%- v -%><%- include('n') %>" [("v", .string "B")] =
        .ok "BC") ∧
    (seamResult [("f.tmpl", "B"), ("h.tmpl", "%>")] "<%# <%- include('h', \x7ba: '%>" [] = .ok "" ∧
      seamResult [("f.tmpl", "B"), ("h.tmpl", "%>")]
        "<%# <%- include('h', \x7ba: '%><%- include('f') %>'\x7d) %>" [] ≠ .ok "" ∧
      seamResult [("f.tmpl", "B"), ("h.tmpl", "%>")]
        "<%# <%- include('h', \x7ba: '%><%- v %>'\x7d) %>" [("v", .string "B")] = .ok "") ∧
    (seamResult [("f.tmpl", "B")] "<%- include('f') %>" [] = .ok "B" ∧
      seamResult [("f.tmpl", "B")] "<%- locals %>" [("locals", .string "B")] = .ok "[object Object]") ∧
    (seamResult [("f.tmpl", "B"), ("g.tmpl", "<%- v %>")] "<%- include('f') %><%- include('g') %>"
        [("v", .string "W")] = .ok "BW" ∧
      seamResult [("f.tmpl", "B"), ("g.tmpl", "<%- v %>")] "<%- v %><%- include('g') %>"
        [("v", .string "B")] = .ok "BB") ∧
    seamResult [("f.tmpl", "%= x %>"), ("l.tmpl", "<")] "<%- include('l') %>" [] = .ok "<" ∧
      seamResult [("f.tmpl", "%= x %>"), ("l.tmpl", "<")] "<%- include('l') %><%- include('f') %>"
        [("x", .string "X")] = .ok "X" ∧
      seamResult [("f.tmpl", "%= x %>"), ("l.tmpl", "<")] "<%- include('l') %><%- v %>"
        [("v", .string "%= x %>"), ("x", .string "X")] = .ok "<%= x %>" := by
  decide +kernel

end SiteServer.Template
