import SiteServer.Proofs.Template.Grammar

/-! # Writing segments as a template text.

Text is written with `<%%` for `<%`, and a lookup between the marks of its tag. Merged segments are what their
written form is read as, so that nothing is lost or doubled between the tags, whatever text they hold: any
text at all is the output of some template. -/

namespace SiteServer.Template

/-! ## Written segments -/

def writtenText : List Char → List Char
  | '<' :: '%' :: rest => '<' :: '%' :: '%' :: writtenText rest
  | c :: rest => c :: writtenText rest
  | [] => []

def writtenTag (mark : Char) (lookup : Lookup) : List Char :=
  '<' :: '%' :: mark :: ' ' :: (lookup.source.toList ++ [' ', '%', '>'])

def Segment.written : Segment → List Char
  | .text s => writtenText s.toList
  | .escaped lookup => writtenTag '=' lookup
  | .raw lookup => writtenTag '-' lookup

def written (segments : List Segment) : List Char :=
  segments.flatMap Segment.written

/-- A lookup as some text spells it, in which no tag ends. -/
structure Lookup.Printable (lookup : Lookup) : Prop where
  spelled : ∃ text, lookup.Spells text
  noClose : ¬ ['%', '>'] <:+: lookup.source.toList

/-! ## Reading written text -/

theorem head?_writtenText_cons (c : Char) (text rest : List Char) :
    (writtenText (c :: text) ++ rest).head? = some c := by
  unfold writtenText
  split
  · rename_i heq
    rw [(List.cons.inj heq).1]
    rfl
  · rename_i heq
    rw [(List.cons.inj heq).1]
    rfl
  · contradiction

theorem segmentsOf_writtenText (text : List Char) {rest : List Char} (h : rest.head? ≠ some '%') :
    segmentsOf (writtenText text ++ rest) =
      (segmentsOf rest).map (joinSegments (Segment.ofText text)) := by
  fun_induction writtenText text with
  | case1 text ih =>
      rw [List.cons_append, List.cons_append, List.cons_append, segmentsOf_literal, ih]
      cases segmentsOf rest with
      | error fault => rfl
      | ok segments =>
          exact congrArg Except.ok (joinSegments_ofText_append ['<', '%'] text segments).symm
  | case2 c text hno ih =>
      have hread : Tag.read? (c :: (writtenText text ++ rest)) = none := by
        apply read?_eq_none
        rintro ⟨more, hmore⟩
        obtain ⟨hc, htail⟩ := List.cons.inj hmore
        subst hc
        have hhead := congrArg List.head? htail
        cases text with
        | nil => exact h hhead.symm
        | cons d text =>
            rw [head?_writtenText_cons] at hhead
            cases hhead
            exact hno text rfl rfl
      rw [List.cons_append, segmentsOf_char hread, ih]
      cases segmentsOf rest with
      | error fault => rfl
      | ok segments =>
          exact congrArg Except.ok (joinSegments_ofText_append [c] text segments).symm
  | case3 =>
      rw [List.nil_append]
      cases segmentsOf rest <;> rfl

theorem read?_writtenTag {mark : Char} (hmark : mark ≠ '%') {lookup : Lookup}
    (h : ¬ ['%', '>'] <:+: lookup.source.toList) (rest : List Char) :
    Tag.read? (writtenTag mark lookup ++ rest) =
      some (.body (mark :: ' ' :: (lookup.source.toList ++ [' '])), rest) := by
  have hclose : ¬ ['%', '>'] <:+: mark :: ' ' :: (lookup.source.toList ++ [' ']) := by
    rw [List.infix_cons_iff, List.infix_cons_iff]
    rintro (⟨more, hmore⟩ | ⟨more, hmore⟩ | hinfix)
    · exact hmark (List.cons.inj hmore).1.symm
    · cases (List.cons.inj hmore).1
    · exact Text.not_infix_append h (by decide) (by decide) hinfix
  have henclosed : Enclosed (mark :: ' ' :: (lookup.source.toList ++ [' '])) :=
    ⟨List.cons_ne_nil _ _, fun heq => hmark (Option.some.inj heq), hclose⟩
  have hcloses : Closes (mark :: ' ' :: (lookup.source.toList ++ [' '])) rest
      (mark :: ' ' :: (lookup.source.toList ++ [' '])) rest := by
    refine .plain (.inl ?_)
    rw [← List.cons_append, ← List.cons_append, List.getLast?_concat]
    decide
  have hread := henclosed.read? rest
  rw [hcloses.closed_eq] at hread
  simpa [writtenTag] using hread

theorem Lookup.Printable.spells {lookup : Lookup} (h : lookup.Printable) :
    lookup.Spells (' ' :: (lookup.source.toList ++ [' '])) := by
  obtain ⟨text, htext⟩ := h.spelled
  have hblank : ∀ c ∈ [' '], Text.isBlank c = true := by
    intro c hc
    rw [List.mem_singleton.mp hc]
    rfl
  exact (spells_congr (Text.trim_blanks hblank hblank _)).mpr htext.source_spells

/-! ## Reading written segments -/

/-- What follows a text does not start with the `%` that would make a mark of its end. -/
theorem head?_written {s : String} {segments : List Segment} (h : Merged (.text s :: segments)) :
    (written segments).head? ≠ some '%' := by
  cases segments with
  | nil => simp [written]
  | cons segment segments =>
      have hsegment := (List.isChain_cons_cons.mp h.apart).1
      cases segment with
      | text t => exact absurd ⟨rfl, rfl⟩ hsegment
      | escaped lookup => simp [written, Segment.written, writtenTag]
      | raw lookup => simp [written, Segment.written, writtenTag]

theorem segmentsOf_written {segments : List Segment} (h : Merged segments)
    (hprintable : ∀ lookup, .escaped lookup ∈ segments ∨ .raw lookup ∈ segments →
      lookup.Printable) : segmentsOf (written segments) = .ok segments := by
  induction segments with
  | nil => exact segmentsOf_nil
  | cons segment segments ih =>
      have hrest : segmentsOf (written segments) = .ok segments := by
        refine ih h.tail fun lookup hlookup => hprintable lookup ?_
        exact hlookup.imp (List.mem_cons_of_mem segment) (List.mem_cons_of_mem segment)
      cases segment with
      | text s =>
          have hs : s.toList ≠ [] := by
            intro hnil
            apply h.filled
            rw [String.toList_eq_nil_iff.mp hnil]
            exact List.mem_cons_self
          have htext : Segment.ofText s.toList = [.text s] := by
            rw [Segment.ofText, if_neg hs, String.ofList_toList]
          show segmentsOf (writtenText s.toList ++ written segments) = _
          rw [segmentsOf_writtenText s.toList (head?_written h), hrest, htext]
          exact congrArg Except.ok (h.join_text)
      | escaped lookup =>
          have hlookup := hprintable lookup (.inl List.mem_cons_self)
          exact segmentsOf_found (read?_writtenTag (by decide) hlookup.noClose _)
            (Makes.escaped hlookup.spells).ofPiece? hrest
      | raw lookup =>
          have hlookup := hprintable lookup (.inr List.mem_cons_self)
          exact segmentsOf_found (read?_writtenTag (by decide) hlookup.noClose _)
            (Makes.raw hlookup.spells).ofPiece? hrest

/-- Any text is the output of a template, on any data. -/
theorem exists_template_of_output (text : String) :
    ∃ source segments, segmentsOf source = .ok segments ∧
      ∀ path data, (⟨path, segments⟩ : Template).render data = .ok text := by
  refine ⟨writtenText text.toList, Segment.ofText text.toList, ?_, ?_⟩
  · have hwritten := @segmentsOf_writtenText text.toList [] (by simp)
    rw [List.append_nil, segmentsOf_nil] at hwritten
    rw [hwritten]
    exact congrArg Except.ok (joinSegments_nil _)
  · intro path data
    rw [Template.render, renderSegments_ofText]
    exact congrArg Except.ok String.ofList_toList

/-! ## The grammar, both ways -/

/-- Each text has one reading, and it is no template exactly when the reading has a malformed piece.
Otherwise its segments are merged and are what the pieces make. The other way, merged segments whose lookups
can be printed are what their written form is read as, and any text is the output of a template. -/
theorem tag_grammar_exact :
    (∀ text, ∃ pieces, Reads text pieces ∧ (∀ other, Reads text other → other = pieces) ∧
      ((∃ fault, segmentsOf text = .error fault) ↔ ∃ p ∈ pieces, Malformed p) ∧
      ∀ segments, segmentsOf text = .ok segments → Merged segments ∧
        ∃ parts, List.Forall₂ Makes pieces parts ∧ segments = parts.foldr joinSegments []) ∧
    (∀ segments, Merged segments →
      (∀ lookup, .escaped lookup ∈ segments ∨ .raw lookup ∈ segments → lookup.Printable) →
      segmentsOf (written segments) = .ok segments) ∧
    ∀ text, ∃ source segments, segmentsOf source = .ok segments ∧
      ∀ path data, (⟨path, segments⟩ : Template).render data = .ok text := by
  refine ⟨fun text => ?_, fun segments => segmentsOf_written, exists_template_of_output⟩
  obtain ⟨pieces, hpieces⟩ := exists_reads text
  refine ⟨pieces, hpieces, ?_, exists_segmentsOf_eq_error_iff hpieces, ?_⟩
  · intro other hother
    rw [← hother.split_eq, hpieces.split_eq]
  · intro segments hsegments
    exact ⟨merged_segmentsOf hsegments, (segmentsOf_eq_ok_iff hpieces).mp hsegments⟩

/-- Segments with marks in their texts and in a key, and a text that starts with what ends a tag. -/
def markedSegments : List Segment :=
  [.text "<%", .escaped ⟨"user['<%']", "user", [.key "<%"]⟩, .text "%>\n",
    .raw ⟨"items[+01]", "items", [.index 1]⟩, .text "<"]

/-- The written form of the segments, after a comment that takes a line end along. -/
def markedText : List Char :=
  "<%# note -%>\r\n<%%<%= user['<%'] %>%>\n<%- items[+01] %><".toList

theorem tag_grammar_exact_marked :
    Merged markedSegments ∧ segmentsOf (written markedSegments) = .ok markedSegments ∧
      segmentsOf markedText = .ok markedSegments ∧
      ∃ pieces parts, Reads markedText pieces ∧ List.Forall₂ Makes pieces parts ∧
        markedSegments = parts.foldr joinSegments [] := by
  have hmerged : Merged markedSegments := by decide
  have hprintable : ∀ lookup, .escaped lookup ∈ markedSegments ∨ .raw lookup ∈ markedSegments →
      lookup.Printable := by
    intro lookup hlookup
    simp only [markedSegments, List.mem_cons, List.not_mem_nil, reduceCtorEq, Segment.escaped.injEq,
      Segment.raw.injEq, or_false, false_or] at hlookup
    rcases hlookup with rfl | rfl
    · exact ⟨⟨_, Lookup.parse?_eq_some_iff.mp (by decide +kernel : Lookup.parse?
        "user['<%']".toList = some _)⟩, by decide +kernel⟩
    · exact ⟨⟨_, Lookup.parse?_eq_some_iff.mp (by decide +kernel : Lookup.parse?
        "items[+01]".toList = some _)⟩, by decide +kernel⟩
  have hread : segmentsOf markedText = .ok markedSegments := by decide +kernel
  obtain ⟨pieces, hpieces, _, _, hok⟩ := tag_grammar_exact.1 markedText
  obtain ⟨_, parts, hparts, hjoined⟩ := hok markedSegments hread
  exact ⟨hmerged, tag_grammar_exact.2.1 markedSegments hmerged hprintable, hread, pieces, parts,
    hpieces, hparts, hjoined⟩

end SiteServer.Template
