import SiteServer.Proofs.Template.Composition
import SiteServer.Proofs.Template.Includes
import SiteServer.Proofs.Template.Spelling
import SiteServer.Proofs.Text.Places

/-! # Include directives in comments.

The scan for directives knows nothing of comments. The close of a directive in a comment is also that of the
comment, so that what the directive is replaced by must close the comment again. As long as it does, the
page has the segments of its own text, whatever the other files are. -/

namespace SiteServer.Template

/-! ## Directives in comments -/

/-- What stands in a text before `after` lies in a comment, at most up to the end of its close. -/
def InComment (text written after : List Char) : Prop :=
  ∃ note inner tail rest, ['<', '%', '#'] ++ (note ++ ['%', '>'] ++ rest) ∈ Tag.pattern.places text ∧
    ¬ ['%', '>'] <:+: note ∧ note ++ ['%', '>'] = inner ++ (written ++ tail) ∧ after = tail ++ rest

/-- Every directive that a scan of the text comes to lies in a comment of the text. -/
def OnlyInComments (text : List Char) : Prop :=
  ∀ written reference literal trims after, Directive.Written written reference literal trims →
    written ++ after ∈ Directive.pattern.places text → InComment text written after

/-- A text that is put in the place of a directive in a comment closes the comment again, at its end. -/
def ClosesComment (text : List Char) : Prop :=
  ∃ note, text = note ++ ['%', '>'] ∧ note ≠ [] ∧ note.head? ≠ some '>' ∧ note.getLast? ≠ some '-' ∧
    ¬ ['%', '>'] <:+: note

/-- A text in which the reading of tags and the scan for directives go side by side, with the page that the
scan gives. Directives occur in comments only. -/
inductive Parallel : List Char → Page → Prop where
  | done : Parallel [] []
  | char {c : Char} {rest : List Char} {page : Page} (noOpen : ¬ ['<', '%'] <+: c :: rest)
      (behind : Parallel rest page) : Parallel (c :: rest) (.char c :: page)
  | literal {rest : List Char} {page : Page} (behind : Parallel rest page) :
      Parallel ('<' :: '%' :: '%' :: rest) (.char '<' :: .char '%' :: .char '%' :: page)
  | tag {content lineEnd body after : List Char} {page : Page} (enclosed : Enclosed content)
      (closes : Closes content (lineEnd ++ after) body after) (behind : Parallel after page) :
      Parallel (('<' :: '%' :: (content ++ '%' :: '>' :: lineEnd)) ++ after)
        (('<' :: '%' :: (content ++ '%' :: '>' :: lineEnd)).map .char ++ page)
  | comment {note inner written rest body after : List Char} {d : Directive} {page : Page}
      (noClose : ¬ ['%', '>'] <:+: note) (closes : Closes ('#' :: note) rest ('#' :: body) after)
      (inside : note = inner ++ written) (behind : Parallel after page) :
      Parallel (['<', '%', '#'] ++ (note ++ ['%', '>'] ++ rest))
        ((['<', '%', '#'] ++ inner).map .char ++ .found d :: page)
  | unclosed {rest : List Char} (noMark : rest.head? ≠ some '%') (noClose : ¬ ['%', '>'] <:+: rest) :
      Parallel ('<' :: '%' :: rest) (('<' :: '%' :: rest).map .char)

/-! ## Where a directive in a comment ends -/

variable {text source after rest note : List Char}

theorem Directive.CloseText.exists_end {close : List Char} {trims : Bool} (h : CloseText close trims) :
    ∃ front, close = front ++ ['%', '>'] ∧ front ≠ [] ∧ (front.getLast? = some '-' ↔ trims = true) := by
  cases h with
  | @plain blanks hblanks =>
      refine ⟨')' :: blanks, by simp, List.cons_ne_nil _ _, ?_⟩
      have hnot : (')' :: blanks).getLast? ≠ some '-' := by
        intro hlast
        rcases List.mem_cons.mp (List.mem_of_getLast? hlast) with heq | hmem
        · cases heq
        · exact absurd (hblanks '-' hmem) (by decide)
      simpa using hnot
  | @dash blanks hblanks =>
      refine ⟨')' :: (blanks ++ ['-']), by simp, List.cons_ne_nil _ _, ?_⟩
      rw [← List.cons_append, List.getLast?_concat]
      simp

/-- The last character before the close of a directive is a dash when the close takes a line end along. -/
theorem Directive.Written.exists_end {written : List Char} {reference : String}
    {literal : Option (List Char)} {trims : Bool} (h : Written written reference literal trims) :
    ∃ front, written = front ++ ['%', '>'] ∧ front ≠ [] ∧ (front.getLast? = some '-' ↔ trims = true) := by
  cases h with
  | @intro opening quoted reference argument blanks close _ _ _ _ _ _ hclose =>
      obtain ⟨front, rfl, hne, hlast⟩ := hclose.exists_end
      refine ⟨opening ++ (quoted ++ (argument ++ (blanks ++ front))), by simp, by simp [hne], ?_⟩
      simp only [← List.append_assoc]
      rwa [List.getLast?_append_of_ne_nil _ hne]

/-- A directive that reaches over the close of a comment ends with it. -/
theorem eq_nil_of_close_eq {front tail : List Char} (hnote : ¬ ['%', '>'] <:+: note)
    (h : note ++ ['%', '>'] = front ++ (['%', '>'] ++ tail)) : note = front ∧ tail = [] := by
  rw [← List.append_assoc] at h
  rcases List.append_eq_append_iff.mp h with ⟨gap, hgap, htail⟩ | ⟨gap, hgap, _⟩
  · rcases gap with _ | ⟨c, _ | ⟨d, gap⟩⟩
    · rw [List.append_nil] at hgap
      exact absurd (hgap ▸ (List.suffix_append front ['%', '>']).isInfix) hnote
    · obtain ⟨rfl, _⟩ := List.cons.inj htail
      have hlast := congrArg List.getLast? hgap
      simp at hlast
    · simp only [List.cons_append, List.cons.injEq, List.nil_eq, List.append_eq_nil_iff] at htail
      obtain ⟨rfl, rfl, rfl, rfl⟩ := htail
      exact ⟨(List.append_cancel_right hgap).symm, rfl⟩
  · exact absurd (hgap ▸ ⟨front, gap, rfl⟩) hnote

/-! ## The two readings side by side -/

theorem Directive.read?_eq_none_of_not_prefix (h : ¬ ['<', '%', '-'] <+: text) : read? text = none := by
  by_contra hsome
  obtain ⟨⟨d, left⟩, hread⟩ := Option.ne_none_iff_exists'.mp hsome
  obtain ⟨written, trims, after, hwritten, rfl, _⟩ := read?_eq_some_iff.mp hread
  obtain ⟨blanks, more, _, rfl⟩ := hwritten.exists_core
  exact h ⟨blanks ++ "include".toList ++ more ++ after, by simp⟩

theorem enclosed_comment (h : ¬ ['%', '>'] <:+: note) : Enclosed ('#' :: note) where
  ne_nil := List.cons_ne_nil '#' note
  noMark := by simp
  noClose := by
    rw [List.infix_cons_iff, not_or]
    exact ⟨by simp, h⟩

theorem comment_next (h : ¬ ['%', '>'] <:+: note) (rest : List Char) :
    Tag.pattern.Next (['<', '%', '#'] ++ (note ++ ['%', '>'] ++ rest))
      (Tag.closed ('#' :: note) rest).2 := by
  have hread : Tag.read? (['<', '%', '#'] ++ (note ++ ['%', '>'] ++ rest)) =
      some (Tag.closed ('#' :: note) rest) := by
    simpa using (enclosed_comment h).read? rest
  exact .found (p := Tag.pattern) hread

/-- The first place in a text where something is found. -/
theorem exists_first {found : List Char → Prop} (h : ∃ s, s ≠ [] ∧ s <:+ text ∧ found s) :
    ∃ front s, text = front ++ s ∧ s ≠ [] ∧ found s ∧
      ∀ t, t ≠ [] → t <:+ front → ¬ found (t ++ s) := by
  induction text with
  | nil =>
      obtain ⟨s, hs, hsuffix, _⟩ := h
      exact absurd (List.suffix_nil.mp hsuffix) hs
  | cons c text ih =>
      by_cases hc : found (c :: text)
      · exact ⟨[], c :: text, rfl, List.cons_ne_nil c text, hc, fun t ht hsuffix =>
          absurd (List.suffix_nil.mp hsuffix) ht⟩
      · obtain ⟨s, hs, hsuffix, hfound⟩ := h
        have htail : s <:+ text := by
          rcases List.suffix_cons_iff.mp hsuffix with rfl | htail
          · exact absurd hfound hc
          · exact htail
        obtain ⟨front, s, rfl, hne, hfound, hfirst⟩ := ih ⟨s, hs, htail, hfound⟩
        refine ⟨c :: front, s, rfl, hne, hfound, fun t ht hsuffix => ?_⟩
        rcases List.suffix_cons_iff.mp hsuffix with rfl | hsuffix
        · exact hc
        · exact hfirst t ht hsuffix

/-- A directive that is found inside a token of the reading lies in a comment, and this comment is the
token. It ends where the comment does. -/
theorem OnlyInComments.around (h : OnlyInComments text) {d : Directive} {s left : List Char}
    (htag : source ++ after ∈ Tag.pattern.places text) (hnext : Tag.pattern.Next (source ++ after) after)
    (hplace : s ++ after ∈ Directive.pattern.places text) (hne : s ≠ []) (hsuffix : s <:+ source)
    (hread : Directive.read? (s ++ after) = some (d, left)) :
    ∃ note inner written trims rest, source ++ after = ['<', '%', '#'] ++ (note ++ ['%', '>'] ++ rest) ∧
      ¬ ['%', '>'] <:+: note ∧ note ++ ['%', '>'] = inner ++ written ∧ s ++ after = written ++ rest ∧
      Directive.Written written d.reference d.literal trims ∧
      d.source = written ++ Directive.taken trims rest ∧ left = Directive.remaining trims rest := by
  obtain ⟨written, trims, behind, hwritten, htext, hsource, hleft⟩ := Directive.read?_eq_some_iff.mp hread
  obtain ⟨note, inner, tail, rest, hcomment, hnote, hclose, rfl⟩ :=
    h written _ _ _ behind hwritten (htext ▸ hplace)
  obtain ⟨front, rfl, hfront, _⟩ := hwritten.exists_end
  obtain ⟨hinner, rfl⟩ := @eq_nil_of_close_eq note (inner ++ front) tail hnote (by simpa using hclose)
  rw [List.append_nil] at hclose
  rw [List.nil_append] at htext hsource hleft
  refine ⟨note, inner, front ++ ['%', '>'], trims, rest, ?_, hnote, hclose, htext, hwritten, hsource, hleft⟩
  -- places of the reading are not inside its tokens, so that neither token can start inside the other
  have hs := List.length_pos_iff.mpr hne
  have hsource := hsuffix.length_le
  have htextLength := congrArg List.length htext
  have hcloseLength := congrArg List.length hclose
  have hcommentLength : (['<', '%', '#'] ++ (note ++ ['%', '>'] ++ rest)).length =
      note.length + rest.length + 5 := by simp; omega
  simp only [List.length_append, List.length_cons, List.length_nil] at htextLength hcloseLength
  rcases Nat.lt_trichotomy (['<', '%', '#'] ++ (note ++ ['%', '>'] ++ rest)).length
    (source ++ after).length with hlt | heq | hgt
  · have hle := hnext.length_le htag hcomment hlt
    rw [hcommentLength] at hle
    omega
  · exact Text.Pattern.eq_of_mem_places htag hcomment heq.symm
  · have hle := (comment_next hnote rest).length_le hcomment htag hgt
    have hclosed := Tag.closed_length_le ('#' :: note) rest
    rw [List.length_append] at hle
    omega

theorem closes_comment (note rest : List Char) :
    ∃ body, Closes ('#' :: note) rest ('#' :: body) (Tag.closed ('#' :: note) rest).2 := by
  obtain ⟨body, after, h⟩ := exists_closes ('#' :: note) rest
  rw [h.closed_eq]
  generalize hcontent : '#' :: note = content at h ⊢
  cases h with
  | plain noDash =>
      subst hcontent
      exact ⟨note, .plain noDash⟩
  | dash ne_nil cut =>
      obtain ⟨c, body, rfl⟩ := List.exists_cons_of_ne_nil ne_nil
      obtain ⟨rfl, _⟩ := List.cons.inj hcontent
      exact ⟨body, .dash ne_nil cut⟩

/-- A comment that ends with a directive takes the same line end along. -/
theorem closed_comment_eq {inner front : List Char} {trims : Bool} (hfront : front ≠ [])
    (hdash : front.getLast? = some '-' ↔ trims = true) (rest : List Char) :
    (Tag.closed ('#' :: (inner ++ front)) rest).2 = Directive.remaining trims rest := by
  have hlast : ('#' :: (inner ++ front)).getLast? = front.getLast? := by
    rw [← List.cons_append, List.getLast?_append_of_ne_nil _ hfront]
  have htrims : Tag.trims ('#' :: (inner ++ front)) = trims := by
    have hlength : 1 < ('#' :: (inner ++ front)).length := by
      have := List.length_pos_iff.mpr hfront
      simp
      omega
    rw [Bool.eq_iff_iff, ← hdash, Tag.trims, hlast]
    simp only [Bool.and_eq_true, beq_iff_eq, decide_eq_true_eq, hlength, and_true]
  unfold Tag.closed Directive.remaining
  rw [htrims]
  cases trims <;> rfl

/-- What is passed over without finding a directive stands on the page as it is. -/
theorem ofText_append (hnone : ∀ s, s ≠ [] → s <:+ source → Directive.read? (s ++ after) = none) :
    Page.ofText (source ++ after) = source.map .char ++ Page.ofText after :=
  Text.Pattern.split_append (p := Directive.pattern) hnone

/-- A token in which a directive is found is a comment that ends with the directive, and behind it both
readings go on at the same place. -/
theorem OnlyInComments.comment (h : OnlyInComments text)
    (htag : source ++ after ∈ Tag.pattern.places text) (hnext : Tag.pattern.Next (source ++ after) after)
    (hplace : source ++ after ∈ Directive.pattern.places text)
    (hsome : ∃ s, s ≠ [] ∧ s <:+ source ∧ Directive.read? (s ++ after) ≠ none) :
    (∃ note rest, source ++ after = ['<', '%', '#'] ++ (note ++ ['%', '>'] ++ rest)) ∧
      after ∈ Directive.pattern.places text ∧
      (Parallel after (Page.ofText after) → Parallel (source ++ after) (Page.ofText (source ++ after))) := by
  obtain ⟨front, s, rfl, hne, hfound, hfirst⟩ :=
    @exists_first _ (fun s => Directive.read? (s ++ after) ≠ none) hsome
  have hpassed : ∀ t, t ≠ [] → t <:+ front → Directive.read? (t ++ (s ++ after)) = none := by
    intro t ht hsuffix
    rw [← List.append_assoc]
    exact not_not.mp (hfirst t ht hsuffix)
  obtain ⟨⟨d, left⟩, hread⟩ := Option.ne_none_iff_exists'.mp hfound
  have hs : s ++ after ∈ Directive.pattern.places text :=
    Text.Pattern.mem_places_append (List.append_assoc front s after ▸ hplace) hpassed
  obtain ⟨note, inner, written, trims, rest, htext, hnote, hclose, hplaced, hwritten, _, rfl⟩ :=
    h.around htag hnext hs hne (List.suffix_append front s) hread
  obtain ⟨shown, rfl, hshown, hdash⟩ := hwritten.exists_end
  obtain rfl : note = inner ++ shown := List.append_cancel_right (hclose.trans (by simp))
  obtain ⟨body, hcloses⟩ := closes_comment (inner ++ shown) rest
  have hafter : Directive.remaining trims rest = after := by
    rw [← closed_comment_eq hshown hdash]
    exact (comment_next hnote rest).unique (htext ▸ hnext)
  rw [closed_comment_eq hshown hdash, hafter] at hcloses
  rw [hafter] at hread
  have hfront : front = ['<', '%', '#'] ++ inner := by
    rw [List.append_assoc, hplaced] at htext
    refine List.append_cancel_right (htext.trans ?_)
    simp
  refine ⟨⟨_, rest, htext⟩,
    (Text.Pattern.Next.found (p := Directive.pattern) hread).mem_places hs, fun hbehind => ?_⟩
  have hpage : Page.ofText (front ++ (s ++ after)) =
      (['<', '%', '#'] ++ inner).map .char ++ .found d :: Page.ofText after := by
    rw [ofText_append hpassed, hfront]
    exact congrArg _ (Text.Pattern.split_found (p := Directive.pattern) hread)
  rw [htext, ← htext, List.append_assoc, hpage, ← List.append_assoc, htext]
  exact .comment hnote hcloses rfl hbehind

/-- Where the reading of tags and the scan for directives are at the same place, they go on side by side. -/
theorem OnlyInComments.parallel_of_reads (h : OnlyInComments text) {pieces : List (Text.Piece Tag)}
    (hreads : Reads rest pieces) (htag : rest ∈ Tag.pattern.places text)
    (hplace : rest ∈ Directive.pattern.places text) : Parallel rest (Page.ofText rest) := by
  induction hreads with
  | done =>
      rw [Page.ofText, Text.Pattern.split_nil]
      exact .done
  | @char c rest pieces noOpen behind ih =>
      have hnone : Directive.read? (c :: rest) = none :=
        Directive.read?_eq_none_of_not_prefix fun hstart =>
          noOpen ((List.prefix_append ['<', '%'] ['-']).trans hstart)
      have hpage : Page.ofText (c :: rest) = .char c :: Page.ofText rest :=
        Text.Pattern.split_char (p := Directive.pattern) hnone
      rw [hpage]
      refine .char noOpen (ih ?_ ?_)
      · exact (Text.Pattern.Next.char (p := Tag.pattern) (read?_eq_none noOpen)).mem_places htag
      · exact (Text.Pattern.Next.char (p := Directive.pattern) hnone).mem_places hplace
  | @literal rest pieces behind ih =>
      have hnone : ∀ s, s ≠ [] → s <:+ ['<', '%', '%'] → Directive.read? (s ++ rest) = none := by
        intro s hs hsuffix
        apply Directive.read?_eq_none_of_not_prefix
        simp only [List.suffix_cons_iff, List.suffix_nil] at hsuffix
        rcases hsuffix with rfl | rfl | rfl | rfl
        · simp
        · simp
        · simp
        · exact absurd rfl hs
      have hpage := ofText_append hnone
      refine hpage ▸ .literal (ih ?_ ?_)
      · exact (Text.Pattern.Next.found (p := Tag.pattern) rfl).mem_places htag
      · exact Text.Pattern.mem_places_append hplace hnone
  | @tag content rest body after pieces enclosed closes behind ih =>
      obtain ⟨lineEnd, rfl⟩ := closes.suffix
      have hread := enclosed.read? (lineEnd ++ after)
      rw [closes.closed_eq] at hread
      have htext : '<' :: '%' :: (content ++ '%' :: '>' :: (lineEnd ++ after)) =
          ('<' :: '%' :: (content ++ '%' :: '>' :: lineEnd)) ++ after := by simp
      rw [htext] at hread htag hplace ⊢
      have hnext := Text.Pattern.Next.found (p := Tag.pattern) hread
      by_cases hnone : ∀ s, s ≠ [] → s <:+ '<' :: '%' :: (content ++ '%' :: '>' :: lineEnd) →
          Directive.read? (s ++ after) = none
      · rw [ofText_append hnone]
        exact .tag enclosed closes (ih (hnext.mem_places htag)
          (Text.Pattern.mem_places_append hplace hnone))
      · push Not at hnone
        obtain ⟨_, hmem, hparallel⟩ := h.comment htag hnext hplace hnone
        exact hparallel (ih (hnext.mem_places htag) hmem)
  | @unclosed rest noMark noClose =>
      have hnext := Text.Pattern.Next.found (p := Tag.pattern) (read?_unclosed noMark noClose)
      by_cases hnone : ∀ s, s ≠ [] → s <:+ '<' :: '%' :: rest → Directive.read? (s ++ []) = none
      · have hpage := ofText_append hnone
        rw [List.append_nil, Page.ofText, Page.ofText, Text.Pattern.split_nil, List.append_nil] at hpage
        rw [Page.ofText, hpage]
        exact .unclosed noMark noClose
      · push Not at hnone
        rw [← List.append_nil ('<' :: '%' :: rest)] at htag hplace hnext
        obtain ⟨⟨note, behind, htext⟩, _⟩ := h.comment htag hnext hplace hnone
        have hrest : rest = '#' :: (note ++ ['%', '>'] ++ behind) := by simpa using htext
        exact absurd ⟨'#' :: note, behind, by simp [hrest]⟩ noClose

theorem OnlyInComments.parallel (h : OnlyInComments text) : Parallel text (Page.ofText text) := by
  obtain ⟨pieces, hpieces⟩ := exists_reads text
  exact h.parallel_of_reads hpieces Text.Pattern.mem_places_self Text.Pattern.mem_places_self

/-! ## Comments print nothing -/

def isComment : Text.Piece Tag → Bool
  | .found (.body ('#' :: _)) => true
  | _ => false

def uncommented (pieces : List (Text.Piece Tag)) : List (Text.Piece Tag) :=
  pieces.filter fun p => !isComment p

theorem uncommented_cons {pieces others : List (Text.Piece Tag)} (h : uncommented others = uncommented pieces)
    (p : Text.Piece Tag) : uncommented (p :: others) = uncommented (p :: pieces) := by
  unfold uncommented at *
  rw [List.filter_cons, List.filter_cons, h]

theorem ofPieces_uncommented (literal : List Char) (pieces : List (Text.Piece Tag)) :
    Segment.ofPieces literal (uncommented pieces) = Segment.ofPieces literal pieces := by
  unfold uncommented
  induction pieces generalizing literal with
  | nil => rfl
  | cons p pieces ih =>
      by_cases hp : isComment p = true
      · rw [List.filter_cons_of_neg (by simp [hp]), ih]
        unfold isComment at hp
        split at hp
        · rfl
        · cases hp
      · rw [List.filter_cons_of_pos (by simpa using hp)]
        cases p with
        | char c => exact ih _
        | found tag =>
            cases tag with
            | literal => exact ih _
            | unclosed => rfl
            | body content =>
                rw [Segment.ofPieces, Segment.ofPieces]
                simp only [ih]

/-! ## Comments that are closed again -/

variable {page : Page} {expansions : List (List Char)}

theorem eq_nil_of_prefix_mark {lead : List Char} (hlead : '<' ∉ lead) (h : lead <+: '<' :: rest) :
    lead = [] := by
  cases lead with
  | nil => rfl
  | cons c lead =>
      obtain ⟨rfl, _⟩ := List.cons_prefix_cons.mp h
      exact absurd List.mem_cons_self hlead

/-- Up to the first mark, a page reads the same whatever is put in the place of its directives. -/
theorem Parallel.prefix_of_splice (h : Parallel text page) {lead : List Char} (hlead : '<' ∉ lead)
    (hstart : lead <+: page.splice expansions) : lead <+: text := by
  induction h generalizing lead with
  | done => exact hstart
  | char noOpen behind ih =>
      cases lead with
      | nil => exact List.nil_prefix
      | cons c lead =>
          obtain ⟨rfl, hrest⟩ := List.cons_prefix_cons.mp hstart
          exact List.cons_prefix_cons.mpr ⟨rfl, ih (fun hmem => hlead (List.mem_cons_of_mem c hmem)) hrest⟩
  | literal behind ih => exact eq_nil_of_prefix_mark hlead hstart ▸ List.nil_prefix
  | tag enclosed closes behind ih =>
      rw [splice_chars] at hstart
      exact eq_nil_of_prefix_mark hlead hstart ▸ List.nil_prefix
  | comment noClose closes inside behind ih =>
      rw [splice_chars] at hstart
      exact eq_nil_of_prefix_mark hlead hstart ▸ List.nil_prefix
  | unclosed noMark noClose => exact eq_nil_of_prefix_mark hlead hstart ▸ List.nil_prefix

/-- A tag takes the same line end along when what follows that reads the same up to the first mark. -/
theorem Closes.replace {content lineEnd body others : List Char}
    (h : Closes content (lineEnd ++ after) body after)
    (hsame : ∀ lead : List Char, '<' ∉ lead → lead <+: others → lead <+: after) :
    Closes content (lineEnd ++ others) body others := by
  generalize hrest : lineEnd ++ after = rest at h
  cases h with
  | plain noDash =>
      obtain rfl : lineEnd = [] := List.append_left_eq_self.mp hrest
      exact .plain noDash
  | dash ne_nil cut =>
      refine .dash ne_nil ?_
      cases cut with
      | both =>
          obtain rfl : lineEnd = ['\r', '\n'] := List.append_cancel_right (hrest.trans rfl)
          exact .both
      | feed =>
          obtain rfl : lineEnd = ['\n'] := List.append_cancel_right (hrest.trans rfl)
          exact .feed
      | none noBoth noFeed =>
          obtain rfl : lineEnd = [] := List.append_left_eq_self.mp hrest
          exact .none (fun hstart => noBoth (hsame _ (by decide) hstart))
            (fun hstart => noFeed (hsame _ (by decide) hstart))

/-- What closes a comment closes it behind any beginning of the note. -/
theorem ClosesComment.reads {expansion inner others : List Char} {pieces : List (Text.Piece Tag)}
    (h : ClosesComment expansion) (hinner : ¬ ['%', '>'] <:+: inner) (hothers : Reads others pieces) :
    ∃ body, Reads (['<', '%', '#'] ++ inner ++ (expansion ++ others))
      (.found (.body ('#' :: body)) :: pieces) := by
  obtain ⟨note, rfl, hne, hhead, hdash, hnote⟩ := h
  have hclose := Text.not_infix_append hinner hnote hhead
  have hlast : ('#' :: (inner ++ note)).getLast? ≠ some '-' := by
    rwa [← List.cons_append, List.getLast?_append_of_ne_nil _ hne]
  refine ⟨inner ++ note, ?_⟩
  have hreads := Reads.tag (enclosed_comment hclose) (.plain (.inl hlast)) hothers
  simpa using hreads

/-- With comments that are closed again, a page reads as its own text does, comments aside. -/
theorem Parallel.reads (h : Parallel text page) (hlength : page.directives.length ≤ expansions.length)
    (hclose : ∀ e ∈ expansions, ClosesComment e) :
    ∃ pieces others, Reads text pieces ∧ Reads (page.splice expansions) others ∧
      uncommented others = uncommented pieces := by
  induction h generalizing expansions with
  | done => exact ⟨[], [], .done, .done, rfl⟩
  | @char c rest page noOpen behind ih =>
      obtain ⟨pieces, others, hpieces, hothers, heq⟩ := ih hlength hclose
      refine ⟨_, _, .char noOpen hpieces, .char ?_ hothers, uncommented_cons heq _⟩
      intro hstart
      obtain ⟨rfl, hpercent⟩ := List.cons_prefix_cons.mp hstart
      exact noOpen (List.cons_prefix_cons.mpr ⟨rfl, behind.prefix_of_splice (by decide) hpercent⟩)
  | literal behind ih =>
      obtain ⟨pieces, others, hpieces, hothers, heq⟩ := ih hlength hclose
      exact ⟨_, _, .literal hpieces, .literal hothers, uncommented_cons heq _⟩
  | @tag content lineEnd body after page enclosed closes behind ih =>
      rw [directives_chars] at hlength
      obtain ⟨pieces, others, hpieces, hothers, heq⟩ := ih hlength hclose
      have hcloses := closes.replace fun lead => @Parallel.prefix_of_splice after page expansions behind lead
      refine ⟨.found (.body body) :: pieces, _, ?_, ?_, uncommented_cons heq _⟩
      · simpa using Reads.tag enclosed closes hpieces
      · rw [splice_chars]
        simpa using Reads.tag enclosed hcloses hothers
  | @comment note inner written rest body after d page noClose closes inside behind ih =>
      rw [directives_chars] at hlength
      cases expansions with
      | nil => exact absurd hlength (by simp [Page.directives])
      | cons e expansions =>
          obtain ⟨pieces, others, hpieces, hothers, heq⟩ :=
            ih (Nat.le_of_succ_le_succ hlength) fun e' he' => hclose e' (List.mem_cons_of_mem e he')
          have hinner : ¬ ['%', '>'] <:+: inner := fun hinside =>
            noClose (hinside.trans (inside ▸ (List.prefix_append inner written).isInfix))
          obtain ⟨body', hreads⟩ := (hclose e List.mem_cons_self).reads hinner hothers
          refine ⟨.found (.body ('#' :: body)) :: pieces, .found (.body ('#' :: body')) :: others, ?_, ?_, heq⟩
          · simpa using Reads.tag (enclosed_comment noClose) closes hpieces
          · rw [splice_chars]
            exact hreads
  | @unclosed rest noMark noClose =>
      have hsplice : Page.splice (('<' :: '%' :: rest).map .char) expansions = '<' :: '%' :: rest := by
        have happend := splice_chars ('<' :: '%' :: rest) [] expansions
        rwa [List.append_nil, Page.splice, List.append_nil] at happend
      rw [hsplice]
      exact ⟨_, _, .unclosed noMark noClose, .unclosed noMark noClose, rfl⟩

theorem segmentsOf_eq {pieces : List (Text.Piece Tag)} (h : Reads text pieces) :
    segmentsOf text = Segment.ofPieces [] (uncommented pieces) := by
  rw [ofPieces_uncommented, segmentsOf, h.split_eq]

theorem OnlyInComments.segmentsOf_splice (h : OnlyInComments text)
    (hlength : (Page.ofText text).directives.length ≤ expansions.length)
    (hclose : ∀ e ∈ expansions, ClosesComment e) :
    segmentsOf ((Page.ofText text).splice expansions) = segmentsOf text := by
  obtain ⟨pieces, others, hpieces, hothers, heq⟩ := h.parallel.reads hlength hclose
  rw [segmentsOf_eq hpieces, segmentsOf_eq hothers, heq]

/-! ## Pages with includes in comments -/

def evaluate (path : Path) (text : List Char) : Except Failure Template :=
  match segmentsOf text with
  | .error fault => .error ⟨.tag fault, path, []⟩
  | .ok segments => .ok ⟨path, segments⟩

variable {library : Library} {tree : FileTree} {finish : Schedule} {path place : Path}

/-- A directive of a root expands to a text. -/
def Expands (library : Library) (tree : FileTree) (finish : Schedule) (root : Path) (d : Directive)
    (expansion : List Char) : Prop :=
  ∃ arguments, d.arguments = .ok arguments ∧
    expandInclusion library tree finish root [root] (d, arguments) = .ok expansion

theorem exists_expansions {directives : List Directive} {good : List Char → Prop}
    (h : ∀ d ∈ directives, ∃ e, Expands library tree finish place d e ∧ good e) :
    ∃ (includes : List Inclusion) (expansions : List (List Char)),
      inclusions place directives = .ok includes ∧ includes.map (expandInclusion library tree finish place [place]) =
        expansions.map .ok ∧ expansions.length = directives.length ∧ ∀ e ∈ expansions, good e := by
  induction directives with
  | nil => exact ⟨[], [], rfl, rfl, rfl, by simp⟩
  | cons d directives ih =>
      obtain ⟨e, ⟨arguments, harguments, hexpand⟩, hgood⟩ := h d List.mem_cons_self
      obtain ⟨includes, expansions, hincludes, hmap, hlength, hall⟩ :=
        ih fun d' hd' => h d' (List.mem_cons_of_mem d hd')
      refine ⟨(d, arguments) :: includes, e :: expansions, ?_, ?_, ?_, ?_⟩
      · rw [inclusions, harguments]
        dsimp only
        rw [hincludes]
        rfl
      · rw [List.map_cons, List.map_cons, hmap, hexpand]
      · rw [List.length_cons, List.length_cons, hlength]
      · exact List.forall_mem_cons.mpr ⟨hgood, hall⟩

theorem Expands.of_expand {content : String} {text : List Char} (hread : tree.readText place = .ok content)
    (h : expand library tree finish place [place] = .ok text) :
    ∀ d ∈ (Page.ofText content.toList).directives, ∃ e, Expands library tree finish place d e := by
  obtain ⟨content', includes, expansions, hread', hincludes, hmap, _⟩ := expand_eq_ok_iff.mp h
  rw [hread] at hread'
  cases hread'
  obtain ⟨hfst, harguments⟩ := inclusions_eq_ok_iff.mp hincludes
  intro d hd
  rw [← hfst] at hd
  obtain ⟨i, hi, rfl⟩ := List.mem_map.mp hd
  have hmem : expandInclusion library tree finish place [place] i ∈ expansions.map .ok :=
    hmap ▸ List.mem_map_of_mem hi
  obtain ⟨e, _, he⟩ := List.mem_map.mp hmem
  exact ⟨e, i.2, harguments i hi, he.symm⟩

theorem compile_of_find?_eq_none {cache : Cache} (hkey : key path = .ok place)
    (hfind : cache.find? place = none) :
    (compile library tree finish cache path).1 = build library tree finish place := by
  unfold compile
  rw [hkey]
  dsimp only
  rw [hfind]
  dsimp only
  cases build library tree finish place <;> rfl

theorem build_eq_bind : build library tree finish place =
    (expand library tree finish place [place]).bind (evaluate place) := by
  unfold build
  cases expand library tree finish place [place] <;> rfl

theorem OnlyInComments.build_eq {content : String} (h : OnlyInComments content.toList)
    (hread : tree.readText place = .ok content)
    (hexpansions : ∀ d ∈ (Page.ofText content.toList).directives,
      ∃ e, Expands library tree finish place d e ∧ ClosesComment e) :
    build library tree finish place = evaluate place content.toList := by
  obtain ⟨includes, expansions, hincludes, hmap, hlength, hclose⟩ := exists_expansions hexpansions
  have hexpand := expand_eq_ok_iff.mpr ⟨content, includes, expansions, hread, hincludes, hmap, rfl⟩
  have hsegments := h.segmentsOf_splice hlength.ge hclose
  rw [build_eq_bind, hexpand]
  change evaluate place _ = evaluate place _
  unfold evaluate
  rw [hsegments]

/-- A page with include directives in comments only. If each directive expands to a text that closes its
comment again, compiling the page gives the template of its own text, whatever else there is in the tree. If
one cannot be expanded, the page fails, although it stands in a comment. And the comments of a text make no
segments. -/
theorem commented_includes_inert {cache : Cache} {content : String} (hkey : key path = .ok place)
    (hfind : cache.find? place = none) (hread : tree.readText place = .ok content)
    (hcomments : OnlyInComments content.toList) :
    ((∀ d ∈ (Page.ofText content.toList).directives,
        ∃ e, Expands library tree finish place d e ∧ ClosesComment e) →
      (compile library tree finish cache path).1 = evaluate place content.toList) ∧
    ((∃ template, (compile library tree finish cache path).1 = .ok template) →
      ∀ d ∈ (Page.ofText content.toList).directives, ∃ e, Expands library tree finish place d e) ∧
    ∀ pieces, Reads content.toList pieces →
      segmentsOf content.toList = Segment.ofPieces [] (uncommented pieces) := by
  rw [compile_of_find?_eq_none hkey hfind]
  refine ⟨hcomments.build_eq hread, ?_, fun pieces hpieces => segmentsOf_eq hpieces⟩
  rintro ⟨template, htemplate⟩
  unfold build at htemplate
  cases hexpand : expand library tree finish place [place] with
  | error failure =>
      rw [hexpand] at htemplate
      cases htemplate
  | ok text => exact Expands.of_expand hread hexpand

/-- A page that starts with an include in a comment. -/
def hushedPage : List Char :=
  "<%# <%- include('f') %>shown".toList

/-- The file that the page includes has a close at its end. -/
def closingTree : FileTree :=
  ⟨[(["page.tmpl"], .file (bytesOf "<%# <%- include('f') %>shown")),
    (["f.tmpl"], .file (bytesOf "note %>"))]⟩

/-- The file that the page includes has no close. -/
def openTree : FileTree :=
  ⟨[(["page.tmpl"], .file (bytesOf "<%# <%- include('f') %>shown")),
    (["f.tmpl"], .file (bytesOf "B"))]⟩

theorem hushedPage_onlyInComments : OnlyInComments hushedPage := by
  intro written reference literal trims after hwritten hplace
  have hplaces : ∀ place ∈ Directive.pattern.places hushedPage,
      Directive.read? place ≠ none → place = "<%- include('f') %>shown".toList := by
    decide +kernel
  have htext := hplaces _ hplace (by simp [hwritten.read? after])
  have hends : ∀ n < 25, ['%', '>'] <+: "<%- include('f') %>shown".toList.drop n → n = 17 := by
    decide +kernel
  obtain ⟨front, rfl, _⟩ := hwritten.exists_end
  have hfront : front.length = 17 := by
    refine hends front.length ?_ ?_
    · have hlength := congrArg List.length htext
      simp at hlength
      omega
    · rw [← htext, List.append_assoc, List.drop_left]
      exact List.prefix_append _ _
  have hafter : after = "shown".toList := by
    have hdrop := congrArg (List.drop 19) htext
    rwa [List.drop_append_of_le_length (by simp [hfront]), List.drop_of_length_le (by simp [hfront])] at hdrop
  have hsplit : "<%- include('f') %>shown".toList = "<%- include('f') %>".toList ++ "shown".toList := by
    decide
  rw [hafter, hsplit] at htext
  refine ⟨" <%- include('f') ".toList, [' '], [], "shown".toList, by decide +kernel, by decide, ?_, hafter⟩
  rw [List.append_cancel_right htext]
  rfl

/-- A file that ends its comment again leaves the page as it is. -/
theorem commented_includes_inert_closing :
    OnlyInComments hushedPage ∧
      Expands ⟨⟨"/"⟩, ["tmpl"]⟩ closingTree .inOrder ⟨"/page.tmpl"⟩
        ⟨"<%- include('f') %>".toList, "f", none⟩ "note %>".toList ∧
      ClosesComment "note %>".toList ∧
      (compile ⟨⟨"/"⟩, ["tmpl"]⟩ closingTree .inOrder .empty ⟨"/page.tmpl"⟩).1 =
        .ok ⟨⟨"/page.tmpl"⟩, [.text "shown"]⟩ := by
  have hexpands : Expands ⟨⟨"/"⟩, ["tmpl"]⟩ closingTree .inOrder ⟨"/page.tmpl"⟩
      ⟨"<%- include('f') %>".toList, "f", none⟩ "note %>".toList :=
    ⟨none, rfl, by decide +kernel⟩
  have hcloses : ClosesComment "note %>".toList :=
    ⟨"note ".toList, rfl, by decide, by decide, by decide, by decide⟩
  have hdirectives : (Page.ofText hushedPage).directives =
      [⟨"<%- include('f') %>".toList, "f", none⟩] := by
    decide +kernel
  have hcompile := (@commented_includes_inert ⟨⟨"/"⟩, ["tmpl"]⟩ closingTree .inOrder ⟨"/page.tmpl"⟩
    ⟨"/page.tmpl"⟩ .empty "<%# <%- include('f') %>shown" (by decide +kernel) rfl (by decide +kernel)
    hushedPage_onlyInComments).1
  refine ⟨hushedPage_onlyInComments, hexpands, hcloses, (hcompile ?_).trans (by decide +kernel)⟩
  intro d hd
  obtain rfl := List.mem_singleton.mp (hdirectives ▸ hd)
  exact ⟨_, hexpands, hcloses⟩

/-- An include in a comment takes the close of the comment away: the page of which the text prints `shown`
is refused because the comment never ends. -/
theorem commented_include_opens_comment :
    OnlyInComments hushedPage ∧
      ((evaluate ⟨"/page.tmpl"⟩ hushedPage).bind fun t => t.render (.object [])) = .ok "shown" ∧
      (compile ⟨⟨"/"⟩, ["tmpl"]⟩ openTree .inOrder .empty ⟨"/page.tmpl"⟩).1 =
        .error ⟨.tag .unclosed, ⟨"/page.tmpl"⟩, []⟩ :=
  ⟨hushedPage_onlyInComments, by decide +kernel, by decide +kernel⟩

end SiteServer.Template
