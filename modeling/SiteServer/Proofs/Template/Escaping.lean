import SiteServer.Proofs.Template.Grammar
import SiteServer.Proofs.Text.Markup
import SiteServer.Template.Compiler

/-! # What data can do to the markup of an output.

A value is escaped before it is printed, so none of its characters can open or close a tag or a quoted
attribute. Of a template without raw tags the output has then exactly the markup characters of the text
between its tags, on whatever data it is rendered. -/

namespace SiteServer.Template

/-- A character that opens or closes tags or attribute values. -/
def isMarkup (c : Char) : Bool :=
  c = '<' || c = '>' || c = '"' || c = '\''

/-- What a piece of a text leaves as it is: characters outside tags, and the mark that is written out. -/
def outsideTags : Text.Piece Tag → List Char
  | .char c => [c]
  | .found .literal => ['<', '%']
  | .found (.body _) => []
  | .found .unclosed => []

/-- The text of a template outside its tags. -/
def literalText (text : List Char) : List Char :=
  (Tag.pattern.split text).flatMap outsideTags

/-! ## Literal text of segments -/

/-- What a segment prints on all data alike. -/
def Segment.literal : Segment → List Char
  | .text content => content.toList
  | .escaped _ => []
  | .raw _ => []

theorem flatMap_literal_join (first second : List Segment) :
    (joinSegments first second).flatMap Segment.literal =
      first.flatMap Segment.literal ++ second.flatMap Segment.literal :=
  flatMap_join (by simp [Segment.literal]) first second

theorem Makes.flatMap_literal {p : Text.Piece Tag} {part : List Segment} (h : Makes p part) :
    part.flatMap Segment.literal = outsideTags p := by
  cases h with
  | char c => simp [Segment.literal, outsideTags]
  | literal => rfl
  | comment note => rfl
  | escaped spells => rfl
  | raw spells => rfl

/-- The literal text of the segments is the text outside the tags: nothing is lost or doubled. -/
theorem flatMap_literal_segmentsOf {text : List Char} {segments : List Segment}
    (h : segmentsOf text = .ok segments) :
    segments.flatMap Segment.literal = literalText text := by
  obtain ⟨pieces, hpieces⟩ := exists_reads text
  obtain ⟨parts, hparts, rfl⟩ := (segmentsOf_eq_ok_iff hpieces).mp h
  rw [literalText, hpieces.split_eq]
  clear h hpieces
  induction hparts with
  | nil => rfl
  | cons hpart _ ih => rw [List.foldr_cons, flatMap_literal_join, hpart.flatMap_literal, ih,
      List.flatMap_cons]

/-! ## Markup of an output -/

/-- An escaped text has no markup. -/
theorem filter_escape (text : List Char) : (Text.Markup.escape text).filter isMarkup = [] := by
  rw [List.filter_eq_nil_iff]
  intro c hc
  have hmarkup := Text.Markup.ne_markup_of_mem_escape hc
  simp [isMarkup, hmarkup]

theorem Segment.filter_render {segment : Segment} (hraw : ∀ lookup, segment ≠ .raw lookup)
    {data : Json} {printed : List Char} (h : segment.render data = .ok printed) :
    printed.filter isMarkup = segment.literal.filter isMarkup := by
  cases segment with
  | text content =>
      cases h
      rfl
  | escaped lookup =>
      rw [Segment.render] at h
      cases hvalue : lookup.value data with
      | error fault =>
          rw [hvalue] at h
          cases h
      | ok value =>
          rw [hvalue] at h
          cases h
          exact filter_escape _
  | raw lookup => exact absurd rfl (hraw lookup)

/-- The markup of an output is that of the literal text of the segments. -/
theorem filter_renderSegments {segments : List Segment} (hraw : ∀ lookup, .raw lookup ∉ segments)
    {data : Json} {printed : List Char} (h : renderSegments data segments = .ok printed) :
    printed.filter isMarkup = (segments.flatMap Segment.literal).filter isMarkup := by
  induction segments generalizing printed with
  | nil =>
      cases h
      rfl
  | cons segment rest ih =>
      have hsegment : ∀ lookup, segment ≠ .raw lookup := by
        rintro lookup rfl
        exact hraw lookup List.mem_cons_self
      have hrest : ∀ lookup, .raw lookup ∉ rest := by
        intro lookup hmem
        exact hraw lookup (List.mem_cons_of_mem segment hmem)
      rw [renderSegments_cons] at h
      obtain ⟨first, others, hfirst, hothers, rfl⟩ := exists_of_andThen_eq_ok h
      rw [List.filter_append, Segment.filter_render hsegment hfirst, ih hrest hothers,
        List.flatMap_cons, List.filter_append]

theorem filter_render {path : Path} {segments : List Segment} (hraw : ∀ lookup, .raw lookup ∉ segments)
    {data : Json} {output : String} (h : (⟨path, segments⟩ : Template).render data = .ok output) :
    output.toList.filter isMarkup = (segments.flatMap Segment.literal).filter isMarkup := by
  unfold render at h
  dsimp only at h
  cases hprinted : renderSegments data segments with
  | error fault =>
      rw [hprinted] at h
      cases h
  | ok printed =>
      rw [hprinted] at h
      cases h
      rw [String.toList_ofList]
      exact filter_renderSegments hraw hprinted

/-- Data cannot change the markup of what a template without raw tags prints: on any two values that it is
rendered on, the markup is the same, namely that of the text outside its tags. -/
theorem escaped_output_keeps_markup {text : List Char} {segments : List Segment}
    (h : segmentsOf text = .ok segments) (hraw : ∀ lookup, .raw lookup ∉ segments) (path : Path)
    {data other : Json} {output changed : String}
    (hdata : (⟨path, segments⟩ : Template).render data = .ok output)
    (hother : (⟨path, segments⟩ : Template).render other = .ok changed) :
    output.toList.filter isMarkup = changed.toList.filter isMarkup ∧
      output.toList.filter isMarkup = (literalText text).filter isMarkup := by
  have houtput := filter_render hraw hdata
  have hchanged := filter_render hraw hother
  rw [flatMap_literal_segmentsOf h] at houtput hchanged
  exact ⟨houtput.trans hchanged.symm, houtput⟩

/-- A template with a quoted attribute around a lookup, a written mark, and a comment that is no text. -/
def quotingText : List Char :=
  "<p title=\"<%= user.name %>\"><%# '<b>' -%>\n<%%= <%= list %>'</p>".toList

/-- Data that would close the attribute and open tags. -/
def hostileData : Json :=
  .object [("list", .array [.string "</p>", .array [.null, .string "'"], .object [("<", .null)]]),
    ("user", .object [("name", .string "\"><script>")])]

def namelessData : Json :=
  .object [("list", .bool true), ("user", .object [])]

def quotingSegments : List Segment :=
  [.text "<p title=\"", .escaped ⟨"user.name", "user", [.key "name"]⟩, .text "\"><%= ",
    .escaped ⟨"list", "list", []⟩, .text "'</p>"]

theorem escaped_output_keeps_markup_quoting :
    segmentsOf quotingText = .ok quotingSegments ∧
      ∃ output changed, (⟨⟨"page"⟩, quotingSegments⟩ : Template).render hostileData = .ok output ∧
        (⟨⟨"page"⟩, quotingSegments⟩ : Template).render namelessData = .ok changed ∧
        output ≠ changed ∧ output.toList.filter isMarkup = changed.toList.filter isMarkup ∧
        output.toList.filter isMarkup = (literalText quotingText).filter isMarkup := by
  have hsegments : segmentsOf quotingText = .ok quotingSegments := by decide +kernel
  have hraw : ∀ lookup, .raw lookup ∉ quotingSegments := by simp [quotingSegments]
  have hhostile : (⟨⟨"page"⟩, quotingSegments⟩ : Template).render hostileData = .ok
      "<p title=\"&#34;&gt;&lt;script&gt;\"><%= &lt;/p&gt;,,&#39;,[object Object]'</p>" := by
    decide +kernel
  have hnameless : (⟨⟨"page"⟩, quotingSegments⟩ : Template).render namelessData = .ok
      "<p title=\"\"><%= true'</p>" := by
    decide +kernel
  exact ⟨hsegments, _, _, hhostile, hnameless, by decide,
    escaped_output_keeps_markup hsegments hraw ⟨"page"⟩ hhostile hnameless⟩

end SiteServer.Template
