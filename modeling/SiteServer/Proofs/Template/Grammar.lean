import SiteServer.Proofs.Template.Expression
import SiteServer.Proofs.Template.Segments

/-! # The grammar of template texts.

A text is read from left to right: `<%%` is the written form of `<%`, any other `<%` opens a tag that runs to
the first `%>`, and what is left are characters. Each text has one reading. It is a template exactly when
every tag in it is closed and is a comment or prints a lookup, and its segments are then what the pieces of
its reading make. -/

namespace SiteServer.Template

/-! ## Readings -/

/-- What can stand between the marks of a tag: it does not turn the opening mark into a written one, and
no close stands in it. -/
structure Enclosed (content : List Char) : Prop where
  ne_nil : content ≠ []
  noMark : content.head? ≠ some '%'
  noClose : ¬ ['%', '>'] <:+: content

/-- A tag closes: what stands between its marks and what follows it make its body and the text that is
read on. A `-` behind something else is no part of the body, and takes one line end along. -/
inductive Closes : List Char → List Char → List Char → List Char → Prop where
  | plain {content rest : List Char} (noDash : content.getLast? ≠ some '-' ∨ content.length ≤ 1) :
      Closes content rest content rest
  | dash {body rest after : List Char} (ne_nil : body ≠ []) (cut : Text.CutsLineEnd rest after) :
      Closes (body ++ ['-']) rest body after

/-- A text read from left to right. -/
inductive Reads : List Char → List (Text.Piece Tag) → Prop where
  | done : Reads [] []
  | char {c : Char} {rest : List Char} {pieces : List (Text.Piece Tag)}
      (noOpen : ¬ ['<', '%'] <+: c :: rest) (behind : Reads rest pieces) :
      Reads (c :: rest) (.char c :: pieces)
  | literal {rest : List Char} {pieces : List (Text.Piece Tag)} (behind : Reads rest pieces) :
      Reads ('<' :: '%' :: '%' :: rest) (.found .literal :: pieces)
  | tag {content rest body after : List Char} {pieces : List (Text.Piece Tag)}
      (enclosed : Enclosed content) (closes : Closes content rest body after)
      (behind : Reads after pieces) :
      Reads ('<' :: '%' :: (content ++ '%' :: '>' :: rest)) (.found (.body body) :: pieces)
  | unclosed {rest : List Char} (noMark : rest.head? ≠ some '%') (noClose : ¬ ['%', '>'] <:+: rest) :
      Reads ('<' :: '%' :: rest) [.found .unclosed]

/-! ## What pieces make -/

/-- The segments that a piece of a reading makes. -/
inductive Makes : Text.Piece Tag → List Segment → Prop where
  | char (c : Char) : Makes (.char c) [.text (String.ofList [c])]
  | literal : Makes (.found .literal) [.text "<%"]
  | comment (note : List Char) : Makes (.found (.body ('#' :: note))) []
  | escaped {inner : List Char} {lookup : Lookup} (spells : lookup.Spells inner) :
      Makes (.found (.body ('=' :: inner))) [.escaped lookup]
  | raw {inner : List Char} {lookup : Lookup} (spells : lookup.Spells inner) :
      Makes (.found (.body ('-' :: inner))) [.raw lookup]

/-- The body of a comment, or of a tag that prints a lookup. -/
def SupportedBody (body : List Char) : Prop :=
  (∃ note, body = '#' :: note) ∨
    ∃ inner lookup, (body = '=' :: inner ∨ body = '-' :: inner) ∧ Lookup.Spells inner lookup

/-- A piece that makes its text no template. -/
inductive Malformed : Text.Piece Tag → Prop where
  | unclosed : Malformed (.found .unclosed)
  | unsupported {body : List Char} (h : ¬ SupportedBody body) : Malformed (.found (.body body))

/-! ## Reading a tag -/

theorem Closes.closed_eq {content rest body after : List Char} (h : Closes content rest body after) :
    Tag.closed content rest = (.body body, after) := by
  cases h with
  | plain noDash =>
      have htrims : Tag.trims content = false := by
        rcases noDash with hlast | hlength
        · simp [Tag.trims, hlast]
        · simp [Tag.trims, Nat.not_lt.mpr hlength]
      rw [Tag.closed, htrims]
      rfl
  | dash ne_nil cut =>
      have htrims : Tag.trims (body ++ ['-']) = true := by
        simp [Tag.trims, List.length_pos_iff, ne_nil]
      rw [Tag.closed, htrims, if_pos rfl, List.dropLast_concat, Text.cutsLineEnd_iff.mp cut]

/-- Every tag closes in some way. -/
theorem exists_closes (content rest : List Char) :
    ∃ body after, Closes content rest body after := by
  by_cases hdash : content.getLast? = some '-' ∧ 1 < content.length
  · obtain ⟨hlast, hlength⟩ := hdash
    have hcontent := List.dropLast_append_getLast? '-' hlast
    refine ⟨content.dropLast, Text.dropLineEnd rest, ?_⟩
    have hne : content.dropLast ≠ [] := by
      rw [ne_eq, ← List.length_eq_zero_iff, List.length_dropLast]
      omega
    have hcloses := Closes.dash hne (Text.cutsLineEnd_iff.mpr (Eq.refl (Text.dropLineEnd rest)))
    rwa [hcontent] at hcloses
  · refine ⟨content, rest, .plain ?_⟩
    rw [not_and_or, Nat.not_lt] at hdash
    exact hdash

theorem Enclosed.read? {content : List Char} (h : Enclosed content) (rest : List Char) :
    Tag.read? ('<' :: '%' :: (content ++ '%' :: '>' :: rest)) = some (Tag.closed content rest) := by
  have hcut := Text.splitAt?_pair (by decide) h.noClose rest
  cases content with
  | nil => exact absurd rfl h.ne_nil
  | cons c content =>
      have hc : c ≠ '%' := fun heq => h.noMark (congrArg some heq)
      exact Tag.read?_of_splitAt? hc hcut

theorem read?_unclosed {rest : List Char} (noMark : rest.head? ≠ some '%')
    (noClose : ¬ ['%', '>'] <:+: rest) : Tag.read? ('<' :: '%' :: rest) = some (.unclosed, []) := by
  have hcut := (Text.splitAt?_eq_none_iff (List.cons_ne_nil '%' ['>'])).mpr noClose
  unfold Tag.read?
  split
  · rename_i heq
    cases heq
    exact absurd rfl noMark
  · rename_i heq
    cases heq
    rw [hcut]
  · rename_i hno
    exact absurd rfl (hno _)

theorem read?_eq_none {text : List Char} (noOpen : ¬ ['<', '%'] <+: text) :
    Tag.read? text = none := by
  unfold Tag.read?
  split
  · exact absurd (List.prefix_append ['<', '%'] _) noOpen
  · exact absurd (List.prefix_append ['<', '%'] _) noOpen
  · rfl

/-! ## Readings are what a search for tags finds -/

theorem Reads.split_eq {text : List Char} {pieces : List (Text.Piece Tag)} (h : Reads text pieces) :
    Tag.pattern.split text = pieces := by
  induction h with
  | done => exact Text.Pattern.split_nil _
  | char noOpen behind ih =>
      rw [Text.Pattern.split_char (p := Tag.pattern) (read?_eq_none noOpen), ih]
  | literal behind ih =>
      rw [Text.Pattern.split_found (p := Tag.pattern) rfl, ih]
  | @tag content rest body after pieces enclosed closes behind ih =>
      have hread := enclosed.read? rest
      rw [closes.closed_eq] at hread
      rw [Text.Pattern.split_found (p := Tag.pattern) hread, ih]
  | unclosed noMark noClose =>
      rw [Text.Pattern.split_found (p := Tag.pattern) (read?_unclosed noMark noClose),
        Text.Pattern.split_nil]

theorem Closes.length_le {content rest body after : List Char} (h : Closes content rest body after) :
    after.length ≤ rest.length := by
  have hlength := Tag.closed_length_le content rest
  rwa [h.closed_eq] at hlength

theorem exists_reads (text : List Char) : ∃ pieces, Reads text pieces := by
  -- each piece is read at the start of the text, and leaves a shorter one
  induction hn : text.length using Nat.strongRecOn generalizing text with
  | ind n ih =>
      subst hn
      by_cases hopen : ['<', '%'] <+: text
      · obtain ⟨rest, rfl⟩ := hopen
        by_cases hmark : rest.head? = some '%'
        · obtain ⟨tail, rfl⟩ := List.head?_eq_some_iff.mp hmark
          obtain ⟨pieces, hpieces⟩ := ih tail.length (by simp; omega) tail rfl
          exact ⟨_, .literal hpieces⟩
        · have hclose : (['%', '>'] : List Char) ≠ [] := List.cons_ne_nil _ _
          cases hcut : Text.splitAt? ['%', '>'] rest with
          | none => exact ⟨_, .unclosed hmark ((Text.splitAt?_eq_none_iff hclose).mp hcut)⟩
          | some cut =>
              obtain ⟨content, behind⟩ := cut
              have hrest := Text.eq_append_of_splitAt? hcut
              have hnoClose := Text.not_infix_of_splitAt? hclose hcut
              rw [List.append_assoc] at hrest
              subst hrest
              have hcontent : Enclosed content := by
                cases content with
                | nil => exact absurd rfl hmark
                | cons c content => exact ⟨List.cons_ne_nil c content, hmark, hnoClose⟩
              obtain ⟨body, after, hcloses⟩ := exists_closes content behind
              have hlength := hcloses.length_le
              obtain ⟨pieces, hpieces⟩ := ih after.length (by simp; omega) after rfl
              exact ⟨_, .tag hcontent hcloses hpieces⟩
      · cases text with
        | nil => exact ⟨[], .done⟩
        | cons c rest =>
            obtain ⟨pieces, hpieces⟩ := ih rest.length (by simp) rest rfl
            exact ⟨_, .char hopen hpieces⟩

/-- A text has one reading, and a search for tags finds it. -/
theorem reads_iff {text : List Char} {pieces : List (Text.Piece Tag)} :
    Reads text pieces ↔ Tag.pattern.split text = pieces := by
  refine ⟨Reads.split_eq, ?_⟩
  rintro rfl
  obtain ⟨pieces, hpieces⟩ := exists_reads text
  rwa [hpieces.split_eq]

/-! ## What is made of a reading -/

theorem makes_of_ofPiece? {p : Text.Piece Tag} {part : List Segment}
    (h : Segment.ofPiece? p = .ok part) : Makes p part := by
  cases p with
  | char c =>
      cases h
      exact .char c
  | found tag =>
      cases tag with
      | literal =>
          cases h
          exact .literal
      | unclosed => cases h
      | body content =>
          rw [Segment.ofPiece?] at h
          unfold Segment.ofBody? at h
          split at h
          · cases h
            exact .comment _
          · split at h
            · rename_i lookup hparse
              cases h
              exact .escaped (Lookup.parse?_eq_some_iff.mp hparse)
            · cases h
          · split at h
            · rename_i lookup hparse
              cases h
              exact .raw (Lookup.parse?_eq_some_iff.mp hparse)
            · cases h
          · cases h

theorem Makes.ofPiece? {p : Text.Piece Tag} {part : List Segment} (h : Makes p part) :
    Segment.ofPiece? p = .ok part := by
  cases h with
  | char c => rfl
  | literal => rfl
  | comment note => rfl
  | escaped spells =>
      rw [Segment.ofPiece?, Segment.ofBody?, Lookup.parse?_eq_some_iff.mpr spells]
      rfl
  | raw spells =>
      rw [Segment.ofPiece?, Segment.ofBody?, Lookup.parse?_eq_some_iff.mpr spells]
      rfl

theorem ofPiece?_eq_ok_iff {p : Text.Piece Tag} {part : List Segment} :
    Segment.ofPiece? p = .ok part ↔ Makes p part :=
  ⟨makes_of_ofPiece?, Makes.ofPiece?⟩

theorem supportedBody_iff {body : List Char} :
    SupportedBody body ↔ ∃ part, Makes (.found (.body body)) part := by
  constructor
  · rintro (⟨note, rfl⟩ | ⟨inner, lookup, rfl | rfl, hspells⟩)
    · exact ⟨_, .comment note⟩
    · exact ⟨_, .escaped hspells⟩
    · exact ⟨_, .raw hspells⟩
  · rintro ⟨part, hpart⟩
    cases hpart with
    | comment note => exact .inl ⟨note, rfl⟩
    | escaped spells => exact .inr ⟨_, _, .inl rfl, spells⟩
    | raw spells => exact .inr ⟨_, _, .inr rfl, spells⟩

/-- A piece is malformed exactly when it makes nothing, not even no segments. -/
theorem malformed_iff {p : Text.Piece Tag} : Malformed p ↔ ¬ ∃ part, Makes p part := by
  constructor
  · intro h
    cases h with
    | unclosed =>
        rintro ⟨part, hpart⟩
        cases hpart
    | unsupported hbody => rwa [← supportedBody_iff]
  · intro h
    cases p with
    | char c => exact absurd ⟨_, .char c⟩ h
    | found tag =>
        cases tag with
        | literal => exact absurd ⟨_, .literal⟩ h
        | unclosed => exact .unclosed
        | body content => exact .unsupported (by rwa [supportedBody_iff])

theorem exists_ofPiece?_eq_error_iff {p : Text.Piece Tag} :
    (∃ fault, Segment.ofPiece? p = .error fault) ↔ Malformed p := by
  simp only [malformed_iff, ← ofPiece?_eq_ok_iff]
  cases Segment.ofPiece? p <;> simp

/-! ## Templates -/

/-- A text is no template exactly when its reading has a malformed piece. -/
theorem exists_segmentsOf_eq_error_iff {text : List Char} {pieces : List (Text.Piece Tag)}
    (h : Reads text pieces) :
    (∃ fault, segmentsOf text = .error fault) ↔ ∃ p ∈ pieces, Malformed p := by
  unfold segmentsOf
  rw [h.split_eq, exists_ofPieces_eq_error_iff]
  simp only [exists_ofPiece?_eq_error_iff]

/-- The first piece at fault is the fault of a text. -/
theorem segmentsOf_first_fault {source : List Char} {before behind : List (Text.Piece Tag)}
    {p : Text.Piece Tag} {fault : TagFault} (hreads : Reads source (before ++ p :: behind))
    (hbefore : ∀ p ∈ before, ¬ Malformed p) (hp : Segment.ofPiece? p = .error fault) :
    segmentsOf source = .error fault := by
  rw [segmentsOf, hreads.split_eq, ofPieces_append, ofPieces_cons, hp]
  cases hfirst : Segment.ofPieces [] before with
  | error other =>
      obtain ⟨q, hq, hfault⟩ := exists_ofPieces_eq_error_iff.mp ⟨other, hfirst⟩
      exact absurd (exists_ofPiece?_eq_error_iff.mp hfault) (hbefore q hq)
  | ok first => rfl

/-- The segments of a template are those that the pieces of its reading make, put together. -/
theorem segmentsOf_eq_ok_iff {text : List Char} {pieces : List (Text.Piece Tag)}
    (h : Reads text pieces) {segments : List Segment} :
    segmentsOf text = .ok segments ↔
      ∃ parts, List.Forall₂ Makes pieces parts ∧ segments = parts.foldr joinSegments [] := by
  unfold segmentsOf
  rw [h.split_eq, ofPieces_eq_ok_iff]
  simp only [ofPiece?_eq_ok_iff]

theorem merged_segmentsOf {text : List Char} {segments : List Segment}
    (h : segmentsOf text = .ok segments) : Merged segments :=
  merged_ofPieces h

end SiteServer.Template
