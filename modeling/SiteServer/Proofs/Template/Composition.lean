import SiteServer.Proofs.Template.Grammar
import SiteServer.Proofs.Text.Places
import SiteServer.Template.Compiler

/-! # Texts of templates, one after the other.

Where a template is cut, the two parts can be read apart unless the cut goes through a mark or through what
a tag takes along: a `<` that a `%` may follow, and a `-%>` with a line end still open. At every other cut
the reading of the whole is that of the first part with that of the second behind it, so the segments and
the output are put together in the same way. -/

namespace SiteServer.Template

/-- Nothing at the end of a text joins with what comes behind it. -/
structure SafeEnd (text : List Char) : Prop where
  noMark : ¬ ['<'] <:+ text
  noTrim : ¬ ['-', '%', '>'] <:+ text
  noReturn : ¬ ['-', '%', '>', '\r'] <:+ text

instance (text : List Char) : Decidable (SafeEnd text) :=
  decidable_of_iff (¬ ['<'] <:+ text ∧ ¬ ['-', '%', '>'] <:+ text ∧ ¬ ['-', '%', '>', '\r'] <:+ text)
    ⟨fun h => ⟨h.1, h.2.1, h.2.2⟩, fun h => ⟨h.noMark, h.noTrim, h.noReturn⟩⟩

/-- No mark lies across the seam of two texts, and no line end that a close takes along. -/
structure CleanSeam (text more : List Char) : Prop where
  noMark : ['<'] <:+ text → more.head? ≠ some '%'
  noTrim : ['-', '%', '>'] <:+ text → Text.CutsLineEnd more more
  noReturn : ['-', '%', '>', '\r'] <:+ text → more.head? ≠ some '\n'

variable {text rest more : List Char}

theorem SafeEnd.seam (h : SafeEnd text) (more : List Char) : CleanSeam text more where
  noMark hsuffix := absurd hsuffix h.noMark
  noTrim hsuffix := absurd hsuffix h.noTrim
  noReturn hsuffix := absurd hsuffix h.noReturn

/-- Before a mark every seam is clean. -/
theorem cleanSeam_mark (text more : List Char) : CleanSeam text ('<' :: more) where
  noMark _ := by simp
  noTrim _ := .none (by simp) (by simp)
  noReturn _ := by simp

/-! ## Readings at a cut -/

theorem CleanSeam.of_suffix (h : CleanSeam text more) (hrest : rest <:+ text) : CleanSeam rest more where
  noMark hsuffix := h.noMark (hsuffix.trans hrest)
  noTrim hsuffix := h.noTrim (hsuffix.trans hrest)
  noReturn hsuffix := h.noReturn (hsuffix.trans hrest)

theorem Closes.suffix {content rest body after : List Char} (h : Closes content rest body after) :
    after <:+ rest := by
  cases h with
  | plain => exact List.suffix_refl rest
  | dash ne_nil cut => exact cut.suffix

/-- A tag closes in the same way with more text behind it. -/
theorem Closes.append {content rest body after : List Char} (h : Closes content rest body after)
    (seam : CleanSeam (content ++ '%' :: '>' :: rest) more) :
    Closes content (rest ++ more) body (after ++ more) := by
  cases h with
  | plain noDash => exact .plain noDash
  | dash ne_nil cut =>
      refine .dash ne_nil (cut.append ?_ ?_)
      · rintro rfl
        exact seam.noTrim (by simp)
      · rintro rfl
        exact seam.noReturn (by simp)

/-- At a clean seam a text is read apart from what follows it. -/
theorem Reads.apart {pieces : List (Text.Piece Tag)} (h : Reads text pieces)
    (hclosed : .found .unclosed ∉ pieces) (seam : CleanSeam text more) : Tag.pattern.Apart text more := by
  -- the end of the text is also the end of what is left to read, so the seam stays clean
  induction h with
  | done => exact Text.Pattern.apart_nil more
  | @char c rest pieces noOpen behind ih =>
      have hrest := ih (fun hmem => hclosed (List.mem_cons_of_mem _ hmem))
        (seam.of_suffix (List.suffix_cons c rest))
      have hopen : ¬ ['<', '%'] <+: c :: rest ++ more := by
        rintro ⟨tail, htail⟩
        cases rest with
        | nil =>
            obtain ⟨rfl, hmore⟩ := List.cons.inj htail
            exact seam.noMark (List.suffix_refl _) (congrArg List.head? hmore.symm)
        | cons d rest =>
            obtain ⟨rfl, hmore⟩ := List.cons.inj htail
            obtain ⟨rfl, _⟩ := List.cons.inj hmore
            exact noOpen (List.prefix_append ['<', '%'] rest)
      have hread : Tag.pattern.read? (c :: rest) = none := read?_eq_none noOpen
      exact hrest.of_next (.char hread) (by rw [hread]; exact read?_eq_none hopen)
  | @literal rest pieces behind ih =>
      have hrest := ih (fun hmem => hclosed (List.mem_cons_of_mem _ hmem))
        (seam.of_suffix (List.suffix_append ['<', '%', '%'] rest))
      have hread : Tag.pattern.read? ('<' :: '%' :: '%' :: rest) = some (.literal, rest) := rfl
      exact hrest.of_next (.found hread) rfl
  | @tag content rest body after pieces enclosed closes behind ih =>
      have hinner : content ++ '%' :: '>' :: rest <:+ '<' :: '%' :: (content ++ '%' :: '>' :: rest) :=
        List.suffix_append ['<', '%'] _
      have hbehind : rest <:+ content ++ '%' :: '>' :: rest := by
        simpa using List.suffix_append (content ++ ['%', '>']) rest
      have hseam := seam.of_suffix hinner
      have hrest := ih (fun hmem => hclosed (List.mem_cons_of_mem _ hmem))
        (hseam.of_suffix (closes.suffix.trans hbehind))
      have hread := enclosed.read? rest
      have hmore := enclosed.read? (rest ++ more)
      rw [closes.closed_eq] at hread
      rw [(closes.append hseam).closed_eq] at hmore
      refine hrest.of_next (.found (p := Tag.pattern) hread) ?_
      have hwhole : Tag.read? ('<' :: '%' :: (content ++ '%' :: '>' :: rest) ++ more) =
          (Tag.read? ('<' :: '%' :: (content ++ '%' :: '>' :: rest))).map
            fun found => (found.1, found.2 ++ more) := by
        rw [hread]
        simpa using hmore
      exact hwhole
  | unclosed => exact absurd List.mem_cons_self hclosed

/-! ## Segments and output at a cut -/

theorem unclosed_not_mem {text : List Char} {pieces : List (Text.Piece Tag)} {segments : List Segment}
    (h : Reads text pieces) (hsegments : segmentsOf text = .ok segments) :
    .found .unclosed ∉ pieces := by
  intro hmem
  obtain ⟨fault, hfault⟩ := (exists_segmentsOf_eq_error_iff h).mpr ⟨_, hmem, .unclosed⟩
  rw [hsegments] at hfault
  cases hfault

/-- A template goes on behind a text that it is read apart from. -/
theorem segmentsOf_of_apart {first : List Segment} (h : Tag.pattern.Apart text more)
    (hfirst : segmentsOf text = .ok first) :
    segmentsOf (text ++ more) = (segmentsOf more).map (joinSegments first) := by
  unfold segmentsOf at *
  rw [h.split_append, ofPieces_append, hfirst]
  cases Segment.ofPieces [] (Tag.pattern.split more) <;> rfl

/-- What is behind a clean cut is compiled by itself. -/
theorem segmentsOf_append {first : List Segment} (h : segmentsOf text = .ok first)
    (seam : CleanSeam text more) :
    segmentsOf (text ++ more) = (segmentsOf more).map (joinSegments first) := by
  obtain ⟨pieces, hpieces⟩ := exists_reads text
  exact segmentsOf_of_apart (hpieces.apart (unclosed_not_mem hpieces h) seam) h

theorem render_join (path : Path) (first second : List Segment) (data : Json) :
    (⟨path, joinSegments first second⟩ : Template).render data = do
      let printed ← (⟨path, first⟩ : Template).render data
      let others ← (⟨path, second⟩ : Template).render data
      return printed ++ others := by
  unfold render
  dsimp only
  rw [renderSegments_join]
  cases renderSegments data first with
  | error fault => rfl
  | ok printed =>
      cases renderSegments data second with
      | error fault => rfl
      | ok others => exact congrArg Except.ok String.ofList_append

/-- Behind a template that ends safely, any text makes a template exactly when it makes one by itself. The
segments are then those of both, put together at the seam, and what is printed is what both print, one
after the other, or the failure of the first that fails. -/
theorem composed_at_safe_end {text : List Char} {first : List Segment}
    (h : segmentsOf text = .ok first) (safe : SafeEnd text) (more : List Char) :
    ((∃ segments, segmentsOf (text ++ more) = .ok segments) ↔
      ∃ second, segmentsOf more = .ok second) ∧
    ∀ second, segmentsOf more = .ok second →
      segmentsOf (text ++ more) = .ok (joinSegments first second) ∧
      ∀ (path : Path) (data : Json),
        (⟨path, joinSegments first second⟩ : Template).render data = do
          let printed ← (⟨path, first⟩ : Template).render data
          let others ← (⟨path, second⟩ : Template).render data
          return printed ++ others := by
  have happend := segmentsOf_append h (safe.seam more)
  refine ⟨?_, ?_⟩
  · rw [happend]
    cases segmentsOf more with
    | error fault => simp [Except.map]
    | ok second => simp [Except.map]
  · intro second hsecond
    refine ⟨?_, fun path data => render_join path first second data⟩
    rw [happend, hsecond]
    rfl

/-- A text that ends in the middle of what looks like a close. -/
def openSeam : List Char := "<%%<%# note -%>\n<%= x %>, then %".toList

def closedSeam : List Char := "> <%- y['%'] %>\n".toList

theorem composed_at_safe_end_seam :
    SafeEnd openSeam ∧
      segmentsOf openSeam = .ok [.text "<%", .escaped ⟨"x", "x", []⟩, .text ", then %"] ∧
      segmentsOf (openSeam ++ closedSeam) = .ok [.text "<%", .escaped ⟨"x", "x", []⟩,
        .text ", then %> ", .raw ⟨"y['%']", "y", [.key "%"]⟩, .text "\n"] := by
  have hsafe : SafeEnd openSeam := by decide +kernel
  have hfirst : segmentsOf openSeam =
      .ok [.text "<%", .escaped ⟨"x", "x", []⟩, .text ", then %"] := by decide +kernel
  have hsecond : segmentsOf closedSeam =
      .ok [.text "> ", .raw ⟨"y['%']", "y", [.key "%"]⟩, .text "\n"] := by decide +kernel
  exact ⟨hsafe, hfirst, ((composed_at_safe_end hfirst hsafe closedSeam).2 _ hsecond).1⟩

end SiteServer.Template
