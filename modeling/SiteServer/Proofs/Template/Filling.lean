import Mathlib.Data.List.Forall2
import SiteServer.Proofs.Template.Expression
import SiteServer.Proofs.Template.Spelling
import SiteServer.Proofs.Template.Tokens
import SiteServer.Proofs.Text.Places

/-! # Which placeholders arguments fill.

A placeholder starts with its only `<`. So no two placeholders of a text overlap, and the search finds every
one of them. Filling them puts the text of a value in the place of each one whose name is bound, all at once,
and leaves everything else as it is. -/

namespace SiteServer.Template.Placeholder

/-- What is written between the marks of a placeholder: an identifier, and blanks around it. -/
structure Formed (p : Placeholder) : Prop where
  before : Directive.Blank p.before
  name : Lookup.IsIdent p.name.toList
  behind : Directive.Blank p.behind

/-- A placeholder stands in a text, with these parts of the text before and behind it. -/
structure Occurs (text front : List Char) (p : Placeholder) (behind : List Char) : Prop where
  formed : p.Formed
  text_eq : text = front ++ (p.source ++ behind)

def written : Text.Piece Placeholder → List Char
  | .char c => [c]
  | .found p => p.source

/-- What arguments leave in the place of a piece: a text for a name that is bound to it, the JSON of any other
value, and otherwise what is written there. -/
inductive Replaced (arguments : JsonFields) : Text.Piece Placeholder → List Char → Prop where
  | char (c : Char) : Replaced arguments (.char c) [c]
  | text {p : Placeholder} {s : String} (bound : arguments.get? p.name = some (.string s)) :
      Replaced arguments (.found p) s.toList
  | value {p : Placeholder} {value : Json} (bound : arguments.get? p.name = some value)
      (noText : ∀ s, value ≠ .string s) : Replaced arguments (.found p) value.print
  | unbound {p : Placeholder} (free : arguments.get? p.name = none) :
      Replaced arguments (.found p) p.source

/-- A placeholder behind a written mark, `<%%= name %>`, which is none. -/
def escaped (p : Placeholder) : List Char :=
  '<' :: '%' :: p.source.tail

variable {text front front' behind behind' rest : List Char} {p p' : Placeholder}

/-! ## Placeholders do not overlap -/

theorem source_eq (p : Placeholder) : p.source = '<' :: p.source.tail := rfl

theorem Formed.not_mem (h : p.Formed) : '<' ∉ p.source.tail := by
  have hblank {blanks : List Char} (hblanks : Directive.Blank blanks) : '<' ∉ blanks := by
    intro hmem
    exact absurd (hblanks '<' hmem) (by decide)
  have hname : '<' ∉ p.name.toList := h.name.not_mem (by decide)
  simp [source, hblank h.before, hblank h.behind, hname]

/-- What is read at the start of a text is a placeholder as it is written. -/
theorem read?_eq_some_iff : read? text = some (p, rest) ↔ p.Formed ∧ text = p.source ++ rest := by
  constructor
  · intro h
    refine ⟨?_, eq_append_of_read? h⟩
    simp only [read?, Option.bind_eq_bind, Option.bind_eq_some_iff, Option.pure_def,
      Option.some.injEq, Prod.mk.injEq, Prod.exists] at h
    obtain ⟨r₁, _, name, r₂, hname, r₃, _, rfl, rfl⟩ := h
    exact ⟨fun _ hc => List.mem_takeWhile_imp hc, (Lookup.ident?_eq_some hname).1,
      fun _ hc => List.mem_takeWhile_imp hc⟩
  · rintro ⟨⟨hbefore, hname, hbehind⟩, rfl⟩
    obtain ⟨before, name, behind⟩ := p
    dsimp only at hbefore hname hbehind
    have hclose : Text.isBlank '%' = false := by decide
    have htail : Text.blanksLeft (behind ++ '%' :: '>' :: rest) = behind ∧
        Text.trimLeft (behind ++ '%' :: '>' :: rest) = ['%', '>'] ++ rest := by
      refine ⟨?_, ?_⟩
      · rw [Text.blanksLeft, List.takeWhile_append_of_pos hbehind]
        simp [hclose]
      · rw [Text.trimLeft_append_of_blank hbehind, Text.trimLeft_cons_of_not_blank hclose]
        rfl
    have hends : ∀ c, (behind ++ '%' :: '>' :: rest).head? = some c → Lookup.isIdentRest c = false := by
      intro c hc
      cases behind with
      | nil =>
          cases hc
          decide
      | cons d behind =>
          cases hc
          exact Lookup.isIdentRest_eq_false (hbehind c List.mem_cons_self)
    have hident := hname.ident? hends
    rw [String.ofList_toList] at hident
    have hleft : Text.blanksLeft (before ++ (name.toList ++ (behind ++ '%' :: '>' :: rest))) = before := by
      rw [Text.blanksLeft, List.takeWhile_append_of_pos hbefore,
        Text.takeWhile_eq_nil (hname.head?_not_blank _), List.append_nil]
    have htext : Placeholder.source ⟨before, name, behind⟩ ++ rest =
        ['<', '%', '='] ++ (before ++ (name.toList ++ (behind ++ '%' :: '>' :: rest))) := by
      simp [source]
    unfold read?
    rw [Text.dropLead?_eq_some_iff.mpr htext]
    dsimp only [Option.bind_eq_bind, Option.bind_some]
    rw [Text.trimLeft_append_of_blank hbefore, hname.trimLeft_append, hident]
    dsimp only [Option.bind_some]
    rw [htail.2, Text.dropLead?_eq_some_iff.mpr rfl, Option.bind_some, hleft, htail.1]
    rfl

/-- A mark behind the start of a placeholder stands behind its end. -/
theorem Formed.exists_behind (h : p.Formed) (hne : front ≠ [])
    (heq : front ++ '<' :: rest = p.source ++ behind) :
    ∃ more, front = p.source ++ more ∧ behind = more ++ '<' :: rest := by
  rcases List.append_eq_append_iff.mp heq with ⟨between, hsource, hbetween⟩ | hmore
  · cases between with
    | nil =>
        rw [List.append_nil] at hsource
        exact ⟨[], by rw [hsource, List.append_nil], hbetween.symm⟩
    | cons c between =>
        obtain ⟨rfl, _⟩ := List.cons.inj hbetween
        obtain ⟨d, front, rfl⟩ := List.exists_cons_of_ne_nil hne
        refine absurd ?_ h.not_mem
        rw [hsource]
        simp
  · exact hmore

/-- Of two placeholders of a text the first ends before the second starts. -/
theorem Occurs.length_le (h : Occurs text front p behind) (h' : Occurs text front' p' behind')
    (hlt : front.length < front'.length) : front.length + p.source.length ≤ front'.length := by
  rcases List.append_eq_append_iff.mp (h.text_eq.symm.trans h'.text_eq) with
    ⟨between, rfl, hbetween⟩ | ⟨between, hfront, _⟩
  · have hne : between ≠ [] := by
      rintro rfl
      simp at hlt
    rw [source_eq p', List.cons_append] at hbetween
    obtain ⟨more, rfl, _⟩ := h.formed.exists_behind hne hbetween.symm
    simp only [List.length_append]
    omega
  · rw [hfront, List.length_append] at hlt
    omega

/-- At one place of a text there is one placeholder. -/
theorem Occurs.unique (h : Occurs text front p behind) (h' : Occurs text front' p' behind')
    (hlength : front.length = front'.length) : front = front' ∧ p = p' ∧ behind = behind' := by
  obtain ⟨hfront, hrest⟩ := List.append_inj (h.text_eq.symm.trans h'.text_eq) hlength
  have hread : read? (p.source ++ behind) = some (p, behind) := read?_eq_some_iff.mpr ⟨h.formed, rfl⟩
  rw [hrest, read?_eq_some_iff.mpr ⟨h'.formed, rfl⟩] at hread
  cases hread
  exact ⟨hfront, rfl, rfl⟩

/-! ## The search finds all of them -/

theorem flatMap_written_split (text : List Char) : (pattern.split text).flatMap written = text := by
  induction text using pattern.next_induction with
  | nil => simp
  | next text rest hnext ih =>
      cases hnext with
      | char none =>
          rw [Text.Pattern.split_char none, List.flatMap_cons, ih]
          rfl
      | found read =>
          rw [Text.Pattern.split_found read, List.flatMap_cons, ih]
          exact (eq_append_of_read? read).symm

theorem formed_of_mem_split (h : .found p ∈ pattern.split text) : p.Formed := by
  induction text using pattern.next_induction with
  | nil => simp at h
  | next text rest hnext ih =>
      cases hnext with
      | char none =>
          rw [Text.Pattern.split_char none] at h
          simp only [List.mem_cons, reduceCtorEq, false_or] at h
          exact ih h
      | found read =>
          rw [Text.Pattern.split_found read] at h
          rcases List.mem_cons.mp h with h | h
          · cases h
            exact (read?_eq_some_iff.mp read).1
          · exact ih h

/-- The placeholders of a text are those that the search finds. -/
theorem occurs_iff : Occurs text front p behind ↔ ∃ left right,
    pattern.split text = left ++ .found p :: right ∧ front = left.flatMap written ∧
      behind = right.flatMap written := by
  constructor
  · intro h
    induction text using pattern.next_induction generalizing front with
    | nil => simpa [source] using h.text_eq
    | next text rest hnext ih =>
        cases hnext with
        | @char c rest none =>
            rw [Text.Pattern.split_char none]
            cases front with
            | nil =>
                have hread : read? (c :: rest) = some (p, behind) :=
                  read?_eq_some_iff.mpr ⟨h.formed, h.text_eq⟩
                rw [show read? (c :: rest) = _ from none] at hread
                cases hread
            | cons d front =>
                obtain ⟨rfl, hrest⟩ := List.cons.inj h.text_eq
                obtain ⟨left, right, hsplit, rfl, rfl⟩ := ih ⟨h.formed, hrest⟩
                exact ⟨.char c :: left, right, congrArg (.char c :: ·) hsplit, rfl, rfl⟩
        | @found text rest first read =>
            rw [Text.Pattern.split_found read]
            obtain ⟨hformed, htext⟩ := read?_eq_some_iff.mp read
            have hfirst : Occurs text [] first rest := ⟨hformed, htext⟩
            cases front with
            | nil =>
                obtain ⟨_, rfl, rfl⟩ := hfirst.unique h rfl
                exact ⟨[], _, rfl, rfl, (flatMap_written_split rest).symm⟩
            | cons d front =>
                have hlength := hfirst.length_le h (Nat.zero_lt_succ _)
                rw [List.length_nil, Nat.zero_add] at hlength
                obtain ⟨more, hmore⟩ : first.source <+: d :: front := by
                  refine List.prefix_of_prefix_length_le ⟨rest, htext.symm⟩ ?_ hlength
                  exact ⟨p.source ++ behind, h.text_eq.symm⟩
                have hrest : rest = more ++ (p.source ++ behind) := by
                  refine (List.append_right_inj first.source).mp ?_
                  rw [← htext, h.text_eq, ← hmore, List.append_assoc]
                obtain ⟨left, right, hsplit, rfl, rfl⟩ := ih ⟨h.formed, hrest⟩
                exact ⟨.found first :: left, right, congrArg (.found first :: ·) hsplit, hmore.symm, rfl⟩
  · rintro ⟨left, right, hsplit, rfl, rfl⟩
    have hmem : .found p ∈ pattern.split text := by simp [hsplit]
    refine ⟨formed_of_mem_split hmem, ?_⟩
    conv_lhs => rw [← flatMap_written_split text, hsplit]
    simp [written]

/-! ## Filling -/

variable {arguments : JsonFields}

theorem replaced_fill (arguments : JsonFields) (piece : Text.Piece Placeholder) :
    Replaced arguments piece (fill arguments piece) := by
  cases piece with
  | char c => exact .char c
  | found p =>
      rw [fill]
      cases hbound : arguments.get? p.name with
      | none => exact .unbound hbound
      | some value =>
          cases value with
          | string s => exact .text hbound
          | null | bool | number | array | object => exact .value hbound (by simp)

theorem fill_eq_written {piece : Text.Piece Placeholder}
    (h : ∀ p, piece = .found p → arguments.get? p.name = none) : fill arguments piece = written piece := by
  cases piece with
  | char c => rfl
  | found p =>
      rw [fill, h p rfl]
      rfl

/-- What comes before a mark is searched on its own. -/
theorem apart_mark (front rest : List Char) : pattern.Apart front ('<' :: rest) := by
  intro s _ hs
  refine Option.ext fun ⟨p, after⟩ => ?_
  rw [Option.map_eq_some_iff]
  constructor
  · intro h
    obtain ⟨hformed, htext⟩ := read?_eq_some_iff.mp h
    obtain ⟨more, rfl, rfl⟩ := hformed.exists_behind hs htext
    exact ⟨(p, more), read?_eq_some_iff.mpr ⟨hformed, rfl⟩, rfl⟩
  · rintro ⟨⟨p', after'⟩, hread, heq⟩
    cases heq
    obtain ⟨hformed, rfl⟩ := read?_eq_some_iff.mp hread
    exact read?_eq_some_iff.mpr ⟨hformed, List.append_assoc _ _ _⟩

/-- The text before a mark is filled on its own. -/
theorem substitute_mark (arguments : JsonFields) (front rest : List Char) :
    substitute arguments (front ++ '<' :: rest) =
      substitute arguments front ++ substitute arguments ('<' :: rest) := by
  rw [substitute, (apart_mark front rest).split_append, List.flatMap_append]
  rfl

/-- A placeholder behind a written mark is left as it is, and the text around it is filled as without it. -/
theorem Formed.substitute_escaped (h : p.Formed) (arguments : JsonFields) (front behind : List Char) :
    substitute arguments (front ++ (p.escaped ++ behind)) =
      substitute arguments front ++ (p.escaped ++ substitute arguments behind) := by
  have hmark : '<' ∉ '%' :: p.source.tail := by
    simpa using h.not_mem
  have hnone : pattern.read? ('<' :: ('%' :: p.source.tail ++ behind)) = none := rfl
  rw [escaped, List.cons_append, substitute_mark]
  conv_lhs => rw [substitute.eq_1 arguments ('<' :: _), marked_placeholder.split_mark hmark hnone]
  rw [List.flatMap_append, flatMap_fill_chars]
  rfl

/-- Arguments fill exactly the placeholders that they bind. -/
theorem substitute_exact (text : List Char) :
    (∀ front p behind front' p' behind', Occurs text front p behind → Occurs text front' p' behind' →
      (front = front' ∧ p = p' ∧ behind = behind') ∨
        front.length + p.source.length ≤ front'.length ∨
          front'.length + p'.source.length ≤ front.length) ∧
    (∃ pieces, pieces.flatMap written = text ∧
      (∀ front p behind, Occurs text front p behind ↔ ∃ left right,
        pieces = left ++ .found p :: right ∧ front = left.flatMap written ∧
          behind = right.flatMap written) ∧
      ∀ arguments, ∃ parts, List.Forall₂ (Replaced arguments) pieces parts ∧
        substitute arguments text = parts.flatten) ∧
    (∀ (front : List Char) (p : Placeholder) (behind : List Char), p.Formed →
      text = front ++ (p.escaped ++ behind) → ∀ arguments, substitute arguments text =
        substitute arguments front ++ (p.escaped ++ substitute arguments behind)) ∧
    ∀ arguments, (∀ front p behind, Occurs text front p behind → arguments.get? p.name = none) →
      substitute arguments text = text := by
  refine ⟨?_, ⟨pattern.split text, flatMap_written_split text, ?_, ?_⟩, ?_, ?_⟩
  · intro front p behind front' p' behind' h h'
    rcases Nat.lt_trichotomy front.length front'.length with hlt | heq | hgt
    · exact .inr (.inl (h.length_le h' hlt))
    · exact .inl (h.unique h' heq)
    · exact .inr (.inr (h'.length_le h hgt))
  · exact fun front p behind => occurs_iff
  · intro arguments
    refine ⟨(pattern.split text).map (fill arguments), ?_, rfl⟩
    rw [List.forall₂_map_right_iff, List.forall₂_same]
    exact fun piece _ => replaced_fill arguments piece
  · rintro front p behind h rfl arguments
    exact h.substitute_escaped arguments front behind
  · intro arguments h
    conv_rhs => rw [← flatMap_written_split text]
    refine List.flatMap_congr fun piece hpiece => fill_eq_written fun p hp => ?_
    subst hp
    obtain ⟨left, right, hsplit⟩ := List.append_of_mem hpiece
    exact h _ p _ (occurs_iff.mpr ⟨left, right, hsplit, rfl, rfl⟩)

example : substitute [("a", .string "<%= b %>"), ("b", .bool true)]
    "<%= <%=a\u00a0%><%%= b %><%= c %><%=b%>".toList =
      "<%= <%= b %><%%= b %><%= c %>true".toList := by decide +kernel

end SiteServer.Template.Placeholder
