import SiteServer.Proofs.Template.Includes
import SiteServer.Proofs.Template.Literal

/-! # Which parts of a text are include directives.

A text is cut into the directives that are written in it and the gaps between them. As long as nothing in a
gap starts like a directive, the page of the text has exactly these directives, each at its place and with
the line end that it takes along. The other way, every text on which no argument literal is refused is cut
into directives and gaps, and those directives are what its page has. -/

namespace SiteServer.Template

/-! ## Texts cut into directives and gaps -/

def NoOpening (text : List Char) : Prop :=
  ∀ blanks, Directive.Blank blanks → ¬ ['<', '%', '-'] ++ (blanks ++ "include".toList) <:+: text

/-- A directive as it is written in a text, with its arguments, and the text behind it up to the next. -/
structure Stretch where
  written : List Char
  reference : String
  literal : Option (List Char)
  trims : Bool
  arguments : Option JsonFields
  gap : List Char

namespace Stretch

/-- The directive has the form of one, and the arguments are those of its literal. -/
structure Formed (s : Stretch) : Prop where
  written : Directive.Written s.written s.reference s.literal s.trims
  accepted : Directive.Accepted s.literal s.arguments

def text (s : Stretch) : List Char :=
  s.written ++ s.gap

/-- The directive, with the line end of the gap that it takes along. -/
def directive (s : Stretch) : Directive :=
  ⟨s.written ++ Directive.taken s.trims s.gap, s.reference, s.literal⟩

def inclusion (s : Stretch) : Inclusion :=
  (s.directive, s.arguments)

/-- The places of the directives of stretches that start at `offset`. -/
def places (offset : Nat) : List Stretch → List (Nat × Nat)
  | [] => []
  | s :: rest => (offset, offset + (s.written ++ Directive.taken s.trims s.gap).length) ::
      places (offset + s.text.length) rest

/-- What a stretch is on the page of its text. -/
def pieces (s : Stretch) : Page :=
  .found s.directive :: (Directive.remaining s.trims s.gap).map .char

end Stretch

namespace Directive

variable {d : Directive} {arguments : Option JsonFields}

theorem accepted_iff : d.arguments = .ok arguments ↔ Accepted d.literal arguments := by
  unfold Directive.arguments
  cases d.literal with
  | none =>
      constructor
      · rintro ⟨⟩
        exact .none
      · rintro ⟨⟩
        rfl
  | some literal =>
      constructor
      · intro h
        dsimp only at h
        cases hparse : Arguments.parse literal with
        | error fault =>
            rw [hparse] at h
            cases h
        | ok fields =>
            rw [hparse] at h
            cases h
            exact .some hparse
      · intro h
        cases h with
        | some hparse =>
            dsimp only
            rw [hparse]
            rfl

end Directive

section Gaps

variable {gap rest : List Char}

theorem NoOpening.of_suffix (h : NoOpening gap) (hrest : rest <:+ gap) : NoOpening rest :=
  fun blanks hblanks hinside => h blanks hblanks (hinside.trans hrest.isInfix)

def startsOpening (text : List Char) : Bool :=
  match Text.dropLead? ['<', '%', '-'] text with
  | some rest => (Text.dropLead? "include".toList (Text.trimLeft rest)).isSome
  | none => false

theorem startsOpening_iff {text : List Char} : startsOpening text = true ↔
    ∃ blanks, Directive.Blank blanks ∧ ['<', '%', '-'] ++ (blanks ++ "include".toList) <+: text := by
  unfold startsOpening
  constructor
  · intro h
    split at h
    · rename_i rest hlead
      obtain ⟨after, hafter⟩ := Option.isSome_iff_exists.mp h
      obtain ⟨blanks, hblanks, hrest⟩ := Text.exists_eq_append_trimLeft rest
      refine ⟨blanks, hblanks, after, ?_⟩
      rw [Text.dropLead?_eq_some_iff.mp hlead, hrest, Text.dropLead?_eq_some_iff.mp hafter]
      simp only [List.append_assoc]
    · cases h
  · rintro ⟨blanks, hblanks, after, rfl⟩
    have hlead : Text.dropLead? ['<', '%', '-']
        (['<', '%', '-'] ++ (blanks ++ "include".toList) ++ after) =
          some (blanks ++ ("include".toList ++ after)) :=
      Text.dropLead?_eq_some_iff.mpr (by simp only [List.append_assoc])
    have hword : Text.trimLeft ("include".toList ++ after) = "include".toList ++ after :=
      Text.trimLeft_cons_of_not_blank (by decide) _
    rw [hlead]
    dsimp only
    rw [Text.trimLeft_append_of_blank hblanks, hword, Text.dropLead?_eq_some_iff.mpr rfl]
    rfl

/-- Nothing in a text starts like a directive when this holds at none of its places. -/
theorem noOpening_iff : NoOpening gap ↔ ∀ rest ∈ gap.tails, startsOpening rest = false := by
  simp only [List.mem_tails, ← Bool.not_eq_true, startsOpening_iff, List.infix_iff_prefix_suffix,
    NoOpening]
  constructor
  · rintro h rest hrest ⟨blanks, hblanks, hstart⟩
    exact h blanks hblanks ⟨rest, hstart, hrest⟩
  · rintro h blanks hblanks ⟨rest, hstart, hrest⟩
    exact h rest hrest ⟨blanks, hblanks, hstart⟩

instance : Decidable (NoOpening gap) :=
  decidable_of_iff _ noOpening_iff.symm

/-- No directive starts in a gap, read on into what follows, if that starts with a mark. -/
theorem NoOpening.read?_eq_none (h : NoOpening gap) (hrest : ∀ c, rest.head? = some c → c = '<') :
    ∀ s, s ≠ [] → s <:+ gap → Directive.read? (s ++ rest) = none := by
  intro s hs hsuffix
  by_contra hsome
  obtain ⟨⟨d, left⟩, hread⟩ := Option.ne_none_iff_exists'.mp hsome
  obtain ⟨written, trims, after, hwritten, htext, _, _⟩ := Directive.read?_eq_some_iff.mp hread
  obtain ⟨blanks, more, hblanks, rfl⟩ := hwritten.exists_core
  rw [List.append_assoc] at htext
  rcases List.append_eq_append_iff.mp htext with ⟨x, hcore, hx⟩ | ⟨x, hcore, _⟩
  · cases x with
    | nil =>
        rw [List.append_nil] at hcore
        exact h blanks hblanks (hcore ▸ hsuffix.isInfix)
    | cons c x =>
        obtain rfl : c = '<' := hrest c (by rw [hx]; rfl)
        obtain ⟨e, s, rfl⟩ := List.exists_cons_of_ne_nil hs
        rw [List.cons_append, List.cons_append] at hcore
        obtain ⟨_, htail⟩ := List.cons.inj hcore
        have hmark : '<' ∈ '%' :: (['-'] ++ (blanks ++ "include".toList)) := by
          rw [htail]
          exact List.mem_append_right s List.mem_cons_self
        have hblank : '<' ∉ blanks := by
          intro hmem
          have := hblanks _ hmem
          revert this
          decide
        simp [hblank] at hmark
  · refine h blanks hblanks (List.IsInfix.trans ?_ hsuffix.isInfix)
    rw [hcore]
    exact (List.prefix_append _ _).isInfix

/-- The line end at the start of a gap is seen alike whatever follows the gap. -/
theorem taken_append (hrest : ∀ c, rest.head? = some c → c = '<') (trims : Bool) :
    Directive.taken trims (gap ++ rest) = Directive.taken trims gap ∧
      Directive.remaining trims (gap ++ rest) = Directive.remaining trims gap ++ rest := by
  cases trims with
  | false => exact ⟨rfl, rfl⟩
  | true =>
      refine Text.lineEnd_append ?_
      intro c hc
      rw [hrest c hc]
      exact ⟨by decide, by decide⟩

/-- A directive takes the same line end along when the text behind it is cut further on. -/
theorem taken_again {trims : Bool} {after : List Char} (hrest : ∀ c, rest.head? = some c → c = '<')
    (hafter : Directive.remaining trims after = gap ++ rest) :
    after = Directive.taken trims after ++ gap ++ rest ∧
      Directive.taken trims (Directive.taken trims after ++ gap) = Directive.taken trims after ∧
      Directive.remaining trims (Directive.taken trims after ++ gap) = gap := by
  have hwhole : after = Directive.taken trims after ++ gap ++ rest := by
    rw [List.append_assoc, ← hafter, Directive.taken_append_remaining]
  have htaken : Directive.taken trims (Directive.taken trims after ++ gap) =
      Directive.taken trims after := by
    conv_rhs => rw [hwhole]
    exact (taken_append hrest trims).1.symm
  have hsplit := Directive.taken_append_remaining trims (Directive.taken trims after ++ gap)
  rw [htaken] at hsplit
  exact ⟨hwhole, htaken, List.append_cancel_left hsplit⟩

end Gaps

/-! ## The page of a text -/

variable {gap : List Char} {stretches : List Stretch} {path : Path}

theorem head?_flatMap_text (h : ∀ s ∈ stretches, s.Formed) :
    ∀ c, (stretches.flatMap Stretch.text).head? = some c → c = '<' := by
  intro c hc
  cases stretches with
  | nil => cases hc
  | cons s rest =>
      obtain ⟨blanks, more, _, hwritten⟩ := (h s List.mem_cons_self).written.exists_core
      rw [List.flatMap_cons, Stretch.text, hwritten] at hc
      exact (Option.some.inj hc).symm

/-- A text has on its page the directives that are written in it, when nothing in its gaps starts like
one. -/
theorem ofText_stretches (hgap : NoOpening gap) (h : ∀ s ∈ stretches, s.Formed)
    (hgaps : ∀ s ∈ stretches, NoOpening s.gap) :
    Page.ofText (gap ++ stretches.flatMap Stretch.text) =
      gap.map .char ++ stretches.flatMap Stretch.pieces := by
  unfold Page.ofText
  induction stretches generalizing gap with
  | nil =>
      have hsplit : Directive.pattern.split (gap ++ []) = gap.map .char ++ Directive.pattern.split [] :=
        Text.Pattern.split_append (hgap.read?_eq_none (by simp))
      simpa using hsplit
  | cons s rest ih =>
      have hs := h s List.mem_cons_self
      have hrest := head?_flatMap_text fun s' hs' => h s' (List.mem_cons_of_mem s hs')
      obtain ⟨htaken, hremaining⟩ := @taken_append s.gap _ hrest s.trims
      have hread : Directive.read? (s.text ++ rest.flatMap Stretch.text) =
          some (s.directive, Directive.remaining s.trims s.gap ++ rest.flatMap Stretch.text) := by
        rw [Stretch.text, List.append_assoc, hs.written.read?, htaken, hremaining, Stretch.directive]
      have hsuffix : Directive.remaining s.trims s.gap <:+ s.gap :=
        ⟨_, Directive.taken_append_remaining s.trims s.gap⟩
      have hbehind := ih ((hgaps s List.mem_cons_self).of_suffix hsuffix)
        (fun s' hs' => h s' (List.mem_cons_of_mem s hs'))
        (fun s' hs' => hgaps s' (List.mem_cons_of_mem s hs'))
      rw [Text.Pattern.split_append (p := Directive.pattern) (hgap.read?_eq_none (head?_flatMap_text h)),
        List.flatMap_cons, Text.Pattern.split_found (p := Directive.pattern) hread, hbehind]
      rfl

/-! ## Every text is cut in this way -/

/-- A text in which no argument literal is refused consists of directives and gaps, and the page of the text
has these directives. -/
theorem exists_stretches {text : List Char}
    (h : ∀ d ∈ (Page.ofText text).directives, ∃ arguments, d.arguments = .ok arguments) :
    ∃ (gap : List Char) (stretches : List Stretch), (∀ s ∈ stretches, s.Formed) ∧
      text = gap ++ stretches.flatMap Stretch.text ∧
      Page.ofText text = gap.map .char ++ stretches.flatMap Stretch.pieces := by
  -- what is left behind a directive is shorter, but no tail of the recursion on the list
  induction hn : text.length using Nat.strongRecOn generalizing text with
  | ind n ih =>
      cases text with
      | nil =>
          refine ⟨[], [], by simp, rfl, ?_⟩
          simp [Page.ofText]
      | cons c rest =>
          unfold Page.ofText at h ⊢
          cases hread : Directive.read? (c :: rest) with
          | none =>
              rw [Text.Pattern.split_char (p := Directive.pattern) hread] at h ⊢
              obtain ⟨gap, stretches, hformed, hrest, hpage⟩ :=
                ih rest.length (by rw [← hn]; exact Nat.lt_succ_self _) h rfl
              exact ⟨c :: gap, stretches, hformed, congrArg (c :: ·) hrest,
                congrArg (.char c :: ·) hpage⟩
          | some found =>
              obtain ⟨d, left⟩ := found
              rw [Text.Pattern.split_found (p := Directive.pattern) hread] at h ⊢
              obtain ⟨arguments, harguments⟩ := h d List.mem_cons_self
              obtain ⟨gap, stretches, hformed, hleft, hpage⟩ :=
                ih left.length (hn ▸ Directive.read?_length hread)
                  (fun e he => h e (List.mem_cons_of_mem d he)) rfl
              obtain ⟨written, trims, after, hwritten, htext, hsource, hremaining⟩ :=
                Directive.read?_eq_some_iff.mp hread
              obtain ⟨hafter, htaken, hgap⟩ := taken_again (head?_flatMap_text hformed)
                (hremaining.symm.trans hleft)
              let s : Stretch := ⟨written, d.reference, d.literal, trims, arguments,
                Directive.taken trims after ++ gap⟩
              have hdirective : s.directive = d := by
                show Directive.mk _ _ _ = d
                rw [htaken, ← hsource]
              refine ⟨[], s :: stretches, ?_, ?_, ?_⟩
              · intro s' hs'
                rcases List.mem_cons.mp hs' with rfl | hs'
                · exact ⟨hwritten, Directive.accepted_iff.mp harguments⟩
                · exact hformed s' hs'
              · rw [htext, hafter, List.flatMap_cons, Stretch.text, List.append_assoc written]
                rfl
              · rw [List.flatMap_cons, Stretch.pieces, hdirective, hgap]
                exact congrArg (.found d :: ·) hpage

/-! ## What the scan finds -/

theorem directives_stretches :
    Page.directives (gap.map .char ++ stretches.flatMap Stretch.pieces) =
      stretches.map Stretch.directive := by
  rw [directives_chars]
  induction stretches with
  | nil => rfl
  | cons s rest ih =>
      rw [List.flatMap_cons, List.map_cons, ← ih]
      exact congrArg (s.directive :: ·) (directives_chars _ _)

theorem ranges_stretches (offset : Nat) :
    Page.ranges offset (gap.map .char ++ stretches.flatMap Stretch.pieces) =
      Stretch.places (offset + gap.length) stretches := by
  rw [ranges_chars]
  generalize offset + gap.length = start
  induction stretches generalizing start with
  | nil => rfl
  | cons s rest ih =>
      have hlength : s.directive.source.length + (Directive.remaining s.trims s.gap).length =
          s.text.length := by
        have hsplit := congrArg List.length (Directive.taken_append_remaining s.trims s.gap)
        simp only [Stretch.directive, Stretch.text, List.length_append] at hsplit ⊢
        omega
      rw [List.flatMap_cons, Stretch.places, Stretch.pieces, List.cons_append, Page.ranges, ranges_chars,
        Nat.add_assoc, hlength, ih]
      rfl

/-- A scan gives the directives of stretches, in order, exactly when none of their literals is refused. -/
theorem inclusions_stretches (h : ∀ s ∈ stretches, s.Formed) :
    inclusions path (stretches.map Stretch.directive) = .ok (stretches.map Stretch.inclusion) := by
  refine inclusions_eq_ok_iff.mpr ⟨by simp [Stretch.inclusion, Function.comp_def], ?_⟩
  intro i hi
  obtain ⟨s, hs, rfl⟩ := List.mem_map.mp hi
  exact Directive.accepted_iff.mpr (h s hs).accepted

/-- The scan of a text is exact. It finds the directives that are written in the text, in order and with
their references and arguments, each at the place of its text and of the line end that a trimming close takes
along, as long as nothing between them starts like a directive. And what a scan without a refusal finds are
directives that are written in the text, one after the other. -/
theorem scan_exact (path : Path) :
    (∀ (gap : List Char) (stretches : List Stretch), NoOpening gap →
      (∀ s ∈ stretches, s.Formed ∧ NoOpening s.gap) →
      inclusions path (Page.ofText (gap ++ stretches.flatMap Stretch.text)).directives =
          .ok (stretches.map Stretch.inclusion) ∧
        (Page.ofText (gap ++ stretches.flatMap Stretch.text)).ranges 0 =
          Stretch.places gap.length stretches) ∧
    ∀ text includes, inclusions path (Page.ofText text).directives = .ok includes →
      ∃ (gap : List Char) (stretches : List Stretch), (∀ s ∈ stretches, s.Formed) ∧
        text = gap ++ stretches.flatMap Stretch.text ∧
        includes = stretches.map Stretch.inclusion ∧
        (Page.ofText text).ranges 0 = Stretch.places gap.length stretches := by
  constructor
  · intro gap stretches hgap h
    have hformed : ∀ s ∈ stretches, s.Formed := fun s hs => (h s hs).1
    rw [ofText_stretches hgap hformed fun s hs => (h s hs).2, directives_stretches, ranges_stretches,
      Nat.zero_add]
    exact ⟨inclusions_stretches hformed, rfl⟩
  · intro text includes hincludes
    obtain ⟨hmap, hall⟩ := inclusions_eq_ok_iff.mp hincludes
    have haccepted : ∀ d ∈ (Page.ofText text).directives, ∃ arguments, d.arguments = .ok arguments := by
      intro d hd
      rw [← hmap] at hd
      obtain ⟨i, hi, rfl⟩ := List.mem_map.mp hd
      exact ⟨i.2, hall i hi⟩
    obtain ⟨gap, stretches, hformed, htext, hpage⟩ := exists_stretches haccepted
    refine ⟨gap, stretches, hformed, htext, ?_, ?_⟩
    · rw [hpage, directives_stretches, inclusions_stretches hformed] at hincludes
      exact (Except.ok.inj hincludes).symm
    · rw [hpage, ranges_stretches, Nat.zero_add]

/-- An argument with braces that only what stands behind them keeps from ending a directive. -/
def framedLiteral : List Char :=
  "\x7bt: '\x7d ) -%\x7d, %>', \"u\" :\x7b\x7d\x7d".toList

def framedFields : JsonFields :=
  [("t", .string "\x7d ) -%\x7d, %>"), ("u", .object [])]

theorem framedLiteral_written :
    Arguments.ObjectText framedLiteral framedFields ["\x7d ) -%\x7d, %>".toList, ['u']] where
  braces := ⟨"t: '\x7d ) -%\x7d, %>', \"u\" :\x7b\x7d".toList, rfl⟩
  spelled := by
    have hname : Lookup.IsIdent ['t'] := ⟨'t', [], rfl, by decide, by simp⟩
    have hsingle : Arguments.StringText '\'' "\x7d ) -%\x7d, %>".toList _ := .self (by decide) (by decide)
    have hdouble : Arguments.StringText '"' ['u'] _ := .self (by decide) (by decide)
    have hclose : Arguments.Spelled ['\x7b', '\x7d', '\x7d'] _ _ :=
      .mark .openObject (.mark .closeObject (.mark .closeObject .nil))
    have hspace : Json.isSpace ' ' = true := rfl
    have hsecond := Arguments.Spelled.string (.inr rfl) hdouble (.space hspace (.mark .colon hclose))
    have hfirst := Arguments.Spelled.string (.inl rfl) hsingle (.mark .comma (.space hspace hsecond))
    exact .mark .openObject (.key hname rfl (.mark .colon (.space hspace hfirst)))
  depth := by decide

/-- A directive with the other quote in its reference, an argument, and two line ends behind its close. -/
def framed : Stretch where
  written := "<%- include ( 'a\"' ,\t".toList ++ framedLiteral ++ "\n) -%>".toList
  reference := "a\""
  literal := some framedLiteral
  trims := true
  arguments := some framedFields
  gap := "\r\n\n<%- inclusion %>".toList

def terse : Stretch where
  written := "<%-include(\"b'\")%>".toList
  reference := "b'"
  literal := none
  trims := false
  arguments := none
  gap := "\n".toList

theorem framed_formed : framed.Formed where
  written := by
    have hopening : Directive.OpeningText "<%- include ( ".toList :=
      @Directive.OpeningText.intro [' '] [' '] [' '] (by decide) (by decide) (by decide)
    have hquoted : Directive.QuotedText "'a\"'".toList ['a', '"'] :=
      @Directive.QuotedText.intro '\'' ['a', '"'] (.inl rfl) (by decide)
    have hliteral : Directive.LiteralText framedLiteral :=
      framedLiteral_written.literalText_iff.mpr (by decide)
    have hargument := @Directive.ArgumentText.some [' '] ['\t'] framedLiteral (by decide) (by decide)
      hliteral
    have hclose : Directive.CloseText ") -%>".toList true := @Directive.CloseText.dash [' '] (by decide)
    exact .intro hopening hquoted hargument (show Directive.Blank ['\n'] by decide) hclose
  accepted := .some framedLiteral_written.parse

theorem terse_formed : terse.Formed where
  written :=
    .intro (@Directive.OpeningText.intro [] [] [] (by decide) (by decide) (by decide))
      (@Directive.QuotedText.intro '"' ['b', '\''] (.inr rfl) (by decide)) .none
      (show Directive.Blank [] by decide) (@Directive.CloseText.plain [] (by decide))
  accepted := .none

/-- A text in front of them that only looks like the start of a directive. -/
def framedGap : List Char :=
  "<%- includ %>".toList

theorem scan_exact_framed :
    NoOpening framedGap ∧ (∀ s ∈ [framed, terse], s.Formed ∧ NoOpening s.gap) ∧
      inclusions ⟨"/page.tmpl"⟩
          (Page.ofText (framedGap ++ [framed, terse].flatMap Stretch.text)).directives =
        .ok [(framed.directive, some framedFields), (terse.directive, none)] ∧
      (Page.ofText (framedGap ++ [framed, terse].flatMap Stretch.text)).ranges 0 =
        [(13, 69), (86, 104)] := by
  have hgap : NoOpening framedGap := by decide +kernel
  have hstretches : ∀ s ∈ [framed, terse], s.Formed ∧ NoOpening s.gap := by
    intro s hs
    rcases List.mem_pair.mp hs with rfl | rfl
    · exact ⟨framed_formed, by decide +kernel⟩
    · exact ⟨terse_formed, by decide +kernel⟩
  obtain ⟨hfound, hranges⟩ := (scan_exact ⟨"/page.tmpl"⟩).1 framedGap _ hgap hstretches
  exact ⟨hgap, hstretches, hfound, hranges.trans (by decide +kernel)⟩

end SiteServer.Template
