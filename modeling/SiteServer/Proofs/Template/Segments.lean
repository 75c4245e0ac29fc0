import SiteServer.Proofs.Template.TreeSemantics

/-! # Segments of templates, put together.

The segments of a text are those of its pieces, one after the other, where two texts that meet become one.
So no text among them is empty and no two stand side by side, and what they print is what the parts print,
one after the other. -/

namespace SiteServer.Template

/-! ## Putting segments together -/

def Segment.isText : Segment → Bool
  | .text _ => true
  | .escaped _ => false
  | .raw _ => false

/-- Segments and others behind them; the texts at the seam, if there are two, become one. -/
def joinSegments : List Segment → List Segment → List Segment
  | [], second => second
  | [.text s], .text t :: second => .text (s ++ t) :: second
  | segment :: first, second => segment :: joinSegments first second

/-- A text as a segment; an empty one needs none. -/
def Segment.ofText (text : List Char) : List Segment :=
  if text = [] then [] else [.text (String.ofList text)]

/-- No text is empty, and no two texts stand side by side. -/
structure Merged (segments : List Segment) : Prop where
  filled : .text "" ∉ segments
  apart : segments.IsChain fun a b => ¬ (a.isText ∧ b.isText)

instance (segments : List Segment) : Decidable (Merged segments) :=
  decidable_of_iff (.text "" ∉ segments ∧ segments.IsChain fun a b => ¬ (a.isText ∧ b.isText))
    ⟨fun h => ⟨h.1, h.2⟩, fun h => ⟨h.filled, h.apart⟩⟩

section Join

variable {first second : List Segment} {segment : Segment}

theorem joinSegments_cons_cons (a b : Segment) (first second : List Segment) :
    joinSegments (a :: b :: first) second = a :: joinSegments (b :: first) second := by
  cases a <;> rfl

/-- No seam is at a segment that is no text. -/
theorem joinSegments_cons (h : segment.isText = false) (first second : List Segment) :
    joinSegments (segment :: first) second = segment :: joinSegments first second := by
  cases first with
  | nil =>
      cases segment with
      | text s => cases h
      | escaped lookup => rfl
      | raw lookup => rfl
  | cons b first => exact joinSegments_cons_cons segment b first second

theorem joinSegments_of_not_text (h : segment.isText = false) (first second : List Segment) :
    joinSegments first (segment :: second) = first ++ segment :: second := by
  induction first with
  | nil => rfl
  | cons a first ih =>
      cases first with
      | nil =>
          cases segment with
          | text t => cases h
          | escaped lookup => cases a <;> rfl
          | raw lookup => cases a <;> rfl
      | cons b first =>
          rw [joinSegments_cons_cons, ih]
          rfl

@[simp] theorem joinSegments_nil (first : List Segment) : joinSegments first [] = first := by
  induction first with
  | nil => rfl
  | cons a first ih =>
      cases first with
      | nil => cases a <;> rfl
      | cons b first => rw [joinSegments_cons_cons, ih]

/-- Text in front of a text that is in front of segments. -/
theorem joinSegments_text_text (s t : String) (second third : List Segment) :
    joinSegments [.text s] (joinSegments (.text t :: second) third) =
      joinSegments (.text (s ++ t) :: second) third := by
  cases second with
  | nil =>
      cases third with
      | nil => rfl
      | cons c third =>
          cases c with
          | text u => simp only [joinSegments, String.append_assoc]
          | escaped lookup => rfl
          | raw lookup => rfl
  | cons b second =>
      rw [joinSegments_cons_cons, joinSegments_cons_cons]
      rfl

theorem joinSegments_assoc_singleton (segment : Segment) (second third : List Segment) :
    joinSegments (joinSegments [segment] second) third =
      joinSegments [segment] (joinSegments second third) := by
  by_cases hsegment : segment.isText = true
  · cases segment with
    | text s =>
        cases second with
        | nil => rfl
        | cons b second =>
            cases b with
            | text t => exact (joinSegments_text_text s t second third).symm
            | escaped lookup => cases second <;> rfl
            | raw lookup => cases second <;> rfl
    | escaped lookup => cases hsegment
    | raw lookup => cases hsegment
  · rw [Bool.not_eq_true] at hsegment
    have hcons := joinSegments_cons hsegment
    rw [hcons, hcons, hcons]
    rfl

theorem exists_joinSegments_eq_cons (segment : Segment) (first second : List Segment) :
    ∃ a rest, joinSegments (segment :: first) second = a :: rest := by
  unfold joinSegments
  split
  · contradiction
  · exact ⟨_, _, rfl⟩
  · exact ⟨_, _, rfl⟩

theorem joinSegments_assoc (first second third : List Segment) :
    joinSegments (joinSegments first second) third =
      joinSegments first (joinSegments second third) := by
  induction first with
  | nil => rfl
  | cons a first ih =>
      cases first with
      | nil => exact joinSegments_assoc_singleton a second third
      | cons b first =>
          obtain ⟨c, rest, hrest⟩ := exists_joinSegments_eq_cons b first second
          rw [joinSegments_cons_cons, joinSegments_cons_cons, ← ih, hrest, joinSegments_cons_cons]

theorem joinSegments_ofText_append (front text : List Char) (second : List Segment) :
    joinSegments (Segment.ofText (front ++ text)) second =
      joinSegments (Segment.ofText front) (joinSegments (Segment.ofText text) second) := by
  by_cases hfront : front = []
  · subst hfront
    rfl
  · by_cases htext : text = []
    · subst htext
      rw [List.append_nil]
      rfl
    · have happend : Segment.ofText (front ++ text) =
          [.text (String.ofList front ++ String.ofList text)] := by
        rw [Segment.ofText, if_neg (by simp [hfront]), String.ofList_append]
      rw [happend, Segment.ofText, Segment.ofText, if_neg hfront, if_neg htext,
        joinSegments_text_text]

/-- What segments are made of stays when they are put together, if it stays when two texts become one. -/
theorem flatMap_join {α : Type} {f : Segment → List α}
    (h : ∀ s t, f (.text (s ++ t)) = f (.text s) ++ f (.text t)) (first second : List Segment) :
    (joinSegments first second).flatMap f = first.flatMap f ++ second.flatMap f := by
  fun_induction joinSegments first second with
  | case1 second => rfl
  | case2 s t second => simp [h]
  | case3 segment first second _ ih => simp [ih]

/-! ## Merged segments -/

theorem merged_nil : Merged [] :=
  ⟨List.not_mem_nil, List.isChain_nil⟩

theorem merged_text {text : List Char} (h : text ≠ []) : Merged [.text (String.ofList text)] := by
  refine ⟨?_, List.isChain_singleton _⟩
  intro hmem
  have htext := congrArg String.toList (Segment.text.inj (List.mem_singleton.mp hmem))
  exact h (by simpa using htext)

theorem Merged.tail (h : Merged (segment :: first)) : Merged first :=
  ⟨fun hmem => h.filled (List.mem_cons_of_mem segment hmem), h.apart.tail⟩

theorem Merged.join_text {s : String} (h : Merged (.text s :: first)) :
    joinSegments [.text s] first = .text s :: first := by
  cases first with
  | nil => rfl
  | cons b first =>
      have hb : b.isText = false := by
        have := (List.isChain_cons_cons.mp h.apart).1
        simpa [Segment.isText] using this
      exact joinSegments_of_not_text hb [.text s] first

theorem Merged.cons (h : Merged first) (hsegment : segment.isText = false) :
    Merged (segment :: first) := by
  refine ⟨?_, List.isChain_cons.mpr ⟨fun b _ => by simp [hsegment], h.apart⟩⟩
  intro hmem
  rcases List.mem_cons.mp hmem with rfl | hmem
  · cases hsegment
  · exact h.filled hmem

theorem Merged.text_cons {text : List Char} (htext : text ≠ []) (h : Merged (segment :: first))
    (hsegment : segment.isText = false) :
    Merged (.text (String.ofList text) :: segment :: first) := by
  refine ⟨?_, List.isChain_cons_cons.mpr ⟨by simp [hsegment], h.apart⟩⟩
  intro hmem
  rcases List.mem_cons.mp hmem with heq | hmem
  · exact (merged_text htext).filled (List.mem_singleton.mpr heq)
  · exact h.filled hmem

end Join

/-! ## Segments of pieces -/

theorem Segment.isText_of_ofBody? {content : List Char} {segment : Segment}
    (h : Segment.ofBody? content = .ok (some segment)) : segment.isText = false := by
  unfold Segment.ofBody? at h
  split at h
  · cases h
  · split at h
    · cases h
      rfl
    · cases h
  · split at h
    · cases h
      rfl
    · cases h
  · cases h

/-- What one piece of a text puts among the segments. -/
def Segment.ofPiece? : Text.Piece Tag → Except TagFault (List Segment)
  | .char c => .ok [.text (String.ofList [c])]
  | .found .literal => .ok [.text "<%"]
  | .found .unclosed => .error .unclosed
  | .found (.body content) => (Segment.ofBody? content).map Option.toList

section Pieces

variable {pieces others : List (Text.Piece Tag)} {literal : List Char} {segments : List Segment}

/-- The text read before comes first. -/
theorem ofPieces_eq (literal : List Char) (pieces : List (Text.Piece Tag)) :
    Segment.ofPieces literal pieces =
      (Segment.ofPieces [] pieces).map (joinSegments (Segment.ofText literal.reverse)) := by
  induction pieces generalizing literal with
  | nil =>
      simp only [Segment.ofPieces, Except.map, if_pos, joinSegments_nil, Segment.ofText,
        List.reverse_eq_nil_iff]
  | cons p pieces ih =>
      have htext (text : List Char) : Segment.ofPieces (text.reverse ++ literal) pieces =
          (Segment.ofPieces text.reverse pieces).map
            (joinSegments (Segment.ofText literal.reverse)) := by
        rw [ih, ih text.reverse, List.reverse_append]
        cases Segment.ofPieces [] pieces with
        | error fault => rfl
        | ok segments => exact congrArg Except.ok (joinSegments_ofText_append _ _ segments)
      cases p with
      | char c => exact htext [c]
      | found tag =>
          cases tag with
          | literal => exact htext ['<', '%']
          | unclosed => rfl
          | body content =>
              rw [Segment.ofPieces, Segment.ofPieces]
              cases hbody : Segment.ofBody? content with
              | error fault => rfl
              | ok made =>
                  cases made with
                  | none => exact ih literal
                  | some segment =>
                      have hsegment := Segment.isText_of_ofBody? hbody
                      cases Segment.ofPieces [] pieces with
                      | error fault => rfl
                      | ok segments =>
                          simp only [Except.map, if_pos, joinSegments_of_not_text hsegment,
                            Segment.ofText, List.reverse_eq_nil_iff]
                          split <;> rfl

theorem ofPieces_chars (text : List Char) :
    Segment.ofPieces literal (text.map .char) = .ok (Segment.ofText (literal.reverse ++ text)) := by
  induction text generalizing literal with
  | nil => simp [Segment.ofPieces, Segment.ofText]
  | cons c text ih =>
      rw [List.map_cons, Segment.ofPieces, ih]
      simp

/-- The segments of a piece come before those of the pieces behind it. -/
theorem ofPieces_cons (p : Text.Piece Tag) (pieces : List (Text.Piece Tag)) :
    Segment.ofPieces [] (p :: pieces) = do
      let part ← Segment.ofPiece? p
      let rest ← Segment.ofPieces [] pieces
      return joinSegments part rest := by
  have htext (text : List Char) : Segment.ofPieces text.reverse pieces = do
      let rest ← Segment.ofPieces [] pieces
      return joinSegments (Segment.ofText text) rest := by
    rw [ofPieces_eq, List.reverse_reverse]
    cases Segment.ofPieces [] pieces <;> rfl
  cases p with
  | char c => exact htext [c]
  | found tag =>
      cases tag with
      | literal => exact htext ['<', '%']
      | unclosed => rfl
      | body content =>
          rw [Segment.ofPieces, Segment.ofPiece?]
          cases hbody : Segment.ofBody? content with
          | error fault => rfl
          | ok made =>
              cases made with
              | none =>
                  cases Segment.ofPieces [] pieces <;> rfl
              | some segment =>
                  have hjoin := joinSegments_cons (Segment.isText_of_ofBody? hbody) []
                  cases Segment.ofPieces [] pieces with
                  | error fault => rfl
                  | ok segments => exact congrArg Except.ok (hjoin segments).symm

/-- Pieces behind others put their segments behind those of the others. -/
theorem ofPieces_append (pieces others : List (Text.Piece Tag)) :
    Segment.ofPieces [] (pieces ++ others) = do
      let first ← Segment.ofPieces [] pieces
      let second ← Segment.ofPieces [] others
      return joinSegments first second := by
  induction pieces with
  | nil =>
      rw [List.nil_append]
      cases Segment.ofPieces [] others <;> rfl
  | cons p pieces ih =>
      rw [List.cons_append, ofPieces_cons, ofPieces_cons, ih]
      cases Segment.ofPiece? p with
      | error fault => rfl
      | ok part =>
          cases Segment.ofPieces [] pieces with
          | error fault => rfl
          | ok first =>
              cases Segment.ofPieces [] others with
              | error fault => rfl
              | ok second => exact congrArg Except.ok (joinSegments_assoc part first second).symm

/-- The segments of pieces are merged. -/
theorem merged_ofPieces (h : Segment.ofPieces literal pieces = .ok segments) : Merged segments := by
  induction pieces generalizing literal segments with
  | nil =>
      cases h
      split
      · exact merged_nil
      · rename_i hliteral
        exact merged_text (by simpa using hliteral)
  | cons p pieces ih =>
      cases p with
      | char c => exact ih h
      | found tag =>
          cases tag with
          | literal => exact ih h
          | unclosed => cases h
          | body content =>
              rw [Segment.ofPieces] at h
              split at h
              · cases h
              · exact ih h
              · rename_i segment hbody
                cases hrest : Segment.ofPieces [] pieces with
                | error fault =>
                    rw [hrest] at h
                    cases h
                | ok rest =>
                    rw [hrest] at h
                    cases h
                    have hsegment := Segment.isText_of_ofBody? hbody
                    have hmerged := (ih hrest).cons hsegment
                    split
                    · exact hmerged
                    · rename_i hliteral
                      exact hmerged.text_cons (by simpa using hliteral) hsegment

theorem ofPieces_eq_ok_iff : Segment.ofPieces [] pieces = .ok segments ↔
    ∃ parts, List.Forall₂ (fun p part => Segment.ofPiece? p = .ok part) pieces parts ∧
      segments = parts.foldr joinSegments [] := by
  induction pieces generalizing segments with
  | nil => simp [Segment.ofPieces, eq_comm]
  | cons p pieces ih =>
      rw [ofPieces_cons]
      constructor
      · intro h
        cases hpart : Segment.ofPiece? p with
        | error fault =>
            rw [hpart] at h
            cases h
        | ok part =>
            cases hrest : Segment.ofPieces [] pieces with
            | error fault =>
                rw [hpart, hrest] at h
                cases h
            | ok rest =>
                rw [hpart, hrest] at h
                cases h
                obtain ⟨parts, hparts, rfl⟩ := ih.mp hrest
                exact ⟨part :: parts, .cons hpart hparts, rfl⟩
      · rintro ⟨parts, hparts, rfl⟩
        cases hparts with
        | cons hpart hparts =>
            rw [hpart, ih.mpr ⟨_, hparts, rfl⟩]
            rfl

theorem exists_ofPieces_eq_error_iff : (∃ fault, Segment.ofPieces [] pieces = .error fault) ↔
    ∃ p ∈ pieces, ∃ fault, Segment.ofPiece? p = .error fault := by
  induction pieces with
  | nil => simp [Segment.ofPieces]
  | cons p pieces ih =>
      rw [ofPieces_cons, List.exists_mem_cons_iff, ← ih]
      cases Segment.ofPiece? p with
      | error fault => simp [bind, Except.bind]
      | ok part =>
          cases Segment.ofPieces [] pieces with
          | error fault => simp [bind, Except.bind]
          | ok rest => simp [bind, Except.bind, pure, Except.pure]

end Pieces

/-! ## Segments of texts -/

theorem segmentsOf_nil : segmentsOf [] = .ok [] := by
  rw [segmentsOf, Text.Pattern.split_nil]
  rfl

theorem segmentsOf_char {c : Char} {rest : List Char} (h : Tag.read? (c :: rest) = none) :
    segmentsOf (c :: rest) = (segmentsOf rest).map (joinSegments (Segment.ofText [c])) := by
  unfold segmentsOf
  rw [Text.Pattern.split_char (p := Tag.pattern) h]
  exact ofPieces_eq [c] _

theorem segmentsOf_literal (rest : List Char) :
    segmentsOf ('<' :: '%' :: '%' :: rest) =
      (segmentsOf rest).map (joinSegments (Segment.ofText ['<', '%'])) := by
  unfold segmentsOf
  rw [Text.Pattern.split_found (p := Tag.pattern) rfl]
  exact ofPieces_eq ['%', '<'] _

theorem segmentsOf_found {text rest : List Char} {tag : Tag} {part segments : List Segment}
    (hread : Tag.read? text = some (tag, rest)) (hpart : Segment.ofPiece? (.found tag) = .ok part)
    (hrest : segmentsOf rest = .ok segments) :
    segmentsOf text = .ok (joinSegments part segments) := by
  unfold segmentsOf at *
  rw [Text.Pattern.split_found (p := Tag.pattern) hread, ofPieces_cons, hpart, hrest]
  rfl

/-! ## Rendering -/

theorem renderSegments_cons (data : Json) (segment : Segment) (rest : List Segment) :
    renderSegments data (segment :: rest) =
      andThen (segment.render data) (renderSegments data rest) := rfl

theorem renderSegments_singleton (data : Json) (segment : Segment) :
    renderSegments data [segment] = segment.render data := by
  rw [renderSegments]
  cases segment.render data with
  | error fault => rfl
  | ok printed => exact congrArg Except.ok (List.append_nil printed)

theorem renderSegments_ofText (data : Json) (text : List Char) :
    renderSegments data (Segment.ofText text) = .ok text := by
  unfold Segment.ofText
  split
  · rename_i hnil
    rw [hnil]
    rfl
  · rw [renderSegments_singleton, Segment.render, String.toList_ofList]

theorem renderSegments_join_singleton (data : Json) (segment : Segment) (second : List Segment) :
    renderSegments data (joinSegments [segment] second) =
      andThen (segment.render data) (renderSegments data second) := by
  by_cases hsegment : segment.isText = true
  · cases segment with
    | text s =>
        cases second with
        | nil => rfl
        | cons b second =>
            cases b with
            | text t =>
                have happend : (Segment.text (s ++ t)).render data =
                    andThen ((Segment.text s).render data) ((Segment.text t).render data) := by
                  simp [Segment.render, andThen, bind, Except.bind, pure, Except.pure]
                rw [joinSegments, renderSegments_cons, happend, andThen_assoc]
                rfl
            | escaped lookup => rfl
            | raw lookup => rfl
    | escaped lookup => cases hsegment
    | raw lookup => cases hsegment
  · rw [Bool.not_eq_true] at hsegment
    rw [joinSegments_cons hsegment]
    rfl

/-- Segments that are put together print one after the other. -/
theorem renderSegments_join (data : Json) (first second : List Segment) :
    renderSegments data (joinSegments first second) =
      andThen (renderSegments data first) (renderSegments data second) := by
  induction first with
  | nil => exact (ok_nil_andThen _).symm
  | cons a first ih =>
      cases first with
      | nil => rw [renderSegments_join_singleton, renderSegments_singleton]
      | cons b first =>
          rw [joinSegments_cons_cons, renderSegments_cons, ih,
            renderSegments_cons data a (b :: first), andThen_assoc]

end SiteServer.Template
