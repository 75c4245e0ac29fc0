import SiteServer.Proofs.Json.Reading

/-! # What the reader has read.

A tree that is read comes from tokens: the text lexes to them, and they lead to the tree. A number is read
in one way only, with its exponent, and a string without backslashes is the text between its quotes. -/

namespace SiteServer.Json

variable {text rest after : List Char} {c : Char} {token : Token} {tokens : List Token}

/-! ## From a tree to its tokens -/

theorem lexes_space (h : isSpace c = true) : Lexes (c :: rest) tokens ↔ Lexes rest tokens := by
  refine ⟨fun hlexes => ?_, .space h⟩
  cases hlexes with
  | space _ behind => exact behind
  | token noSpace _ _ =>
      rw [h] at noSpace
      cases noSpace

/-- The token at the start of a text is the first of its tokens. -/
theorem lexes_token (h : isSpace c = false) (hread : token? (c :: rest) = some (token, after)) :
    Lexes (c :: rest) tokens ↔ ∃ behind, tokens = token :: behind ∧ Lexes after behind := by
  constructor
  · intro hlexes
    cases hlexes with
    | space isSpace _ =>
        rw [h] at isSpace
        cases isSpace
    | token _ read behind =>
        rw [hread] at read
        cases read
        exact ⟨_, rfl, behind⟩
  · rintro ⟨behind, rfl, hlexes⟩
    exact .token h hread hlexes

/-- Where nothing is read, there are no tokens. -/
theorem not_lexes (h : isSpace c = false) (hread : token? (c :: rest) = none) :
    ¬ Lexes (c :: rest) tokens := by
  intro hlexes
  cases hlexes with
  | space isSpace _ =>
      rw [h] at isSpace
      cases isSpace
  | token _ read _ =>
      rw [hread] at read
      cases read

/-- A tree that is read on from between two tokens comes from the tokens of the text. -/
theorem exists_lexes_of_run {frames : List Frame} {expected : Expected} {tree : RawJson}
    (h : run frames expected text = .ok tree) :
    ∃ tokens, Lexes text tokens ∧ steps? frames expected tokens = some ([], .separator tree) := by
  fun_induction run frames expected text with
  | case1 => exact ⟨[], .nil, by cases h; rfl⟩
  | case2 => cases h
  | case3 frames expected c rest isSpace ih =>
      obtain ⟨tokens, hlexes, hsteps⟩ := ih h
      exact ⟨tokens, .space isSpace hlexes, hsteps⟩
  | case4 => cases h
  | case5 => cases h
  | case6 frames expected c rest noSpace token after hread frames' expected' hstep ih =>
      obtain ⟨tokens, hlexes, hsteps⟩ := ih h
      refine ⟨token :: tokens, .token (eq_false_of_ne_true noSpace) hread hlexes, ?_⟩
      rw [steps?, hstep]
      exact hsteps

/-- The trees that are read are those that the tokens of the text lead to. -/
theorem readRaw_eq_ok_iff {tree : RawJson} : readRaw text = .ok tree ↔
    ∃ tokens, Lexes text tokens ∧ steps? [] .value tokens = some ([], .separator tree) := by
  constructor
  · intro h
    rw [readRaw] at h
    split at h
    · rename_i hrun
      cases h
      exact exists_lexes_of_run hrun
    · cases h
  · rintro ⟨tokens, hlexes, hsteps⟩
    rw [readRaw, hlexes.run hsteps]

/-- A value that is read is that of the tree of the text. -/
theorem read_eq_ok_iff {value : Json} : read text = .ok value ↔
    ∃ tree written, readRaw text = .ok tree ∧ tree.value? depthLimit = some written ∧
      value = written.ordered := by
  constructor
  · intro h
    unfold read readWritten at h
    cases hraw : readRaw text with
    | error fault =>
        rw [hraw] at h
        cases h
    | ok tree =>
        cases hwritten : tree.value? depthLimit with
        | none =>
            simp only [hraw, bind, Except.bind, hwritten] at h
            cases h
        | some written =>
            simp only [hraw, bind, Except.bind, hwritten] at h
            cases h
            exact ⟨tree, written, rfl, hwritten, rfl⟩
  · rintro ⟨tree, written, hraw, hwritten, rfl⟩
    simp only [read, readWritten, hraw, bind, Except.bind, hwritten, Except.map]

theorem read_eq_error {fault : JsonFault} (h : readRaw text = .error fault) :
    read text = .error fault := by
  simp only [read, readWritten, h, bind, Except.bind, Except.map]

/-- What may stand behind a value: a comma or a close. -/
inductive Ends : Token → Prop where
  | comma : Ends .comma
  | closeArray : Ends .closeArray
  | closeObject : Ends .closeObject

/-- What is no string is no key, so that its value ends behind it. -/
theorem ends_behind_scalar {frames : List Frame} {expected : Expected} {value tree : RawJson}
    (hvalue : ∀ s, value ≠ .string s)
    (h : steps? frames expected (.scalar value :: tokens) = some ([], .separator tree)) :
    ∀ next, tokens.head? = some next → Ends next := by
  intro next hnext
  obtain ⟨more, rfl⟩ := List.head?_eq_some_iff.mp hnext
  rw [steps?, Option.bind_eq_some_iff] at h
  obtain ⟨⟨frames', expected'⟩, hstep, hrest⟩ := h
  have hseparator : expected' = .separator value := by
    cases expected with
    | value | valueOrClose =>
        cases hstep
        rfl
    | keyOrClose | key | colon | separator =>
        cases value with
        | string s => exact absurd rfl (hvalue s)
        | _ => cases hstep
  subst hseparator
  obtain ⟨_, hnext, _⟩ := Option.bind_eq_some_iff.mp hrest
  cases next with
  | comma => exact .comma
  | closeArray => exact .closeArray
  | closeObject => exact .closeObject
  | openArray | openObject | colon | scalar => cases hnext

/-! ## Strings without backslashes -/

theorem stringPiece?_plain (hescape : '\\' ∉ text) {piece : Option Piece}
    (h : stringPiece? text = some (piece, rest)) :
    piece = none ∧ text = '"' :: rest ∨ ∃ c, c ≠ '"' ∧ piece = some (.char c) ∧ text = c :: rest := by
  unfold stringPiece? at h
  split at h
  · cases h
  · cases h
    exact .inl ⟨rfl, rfl⟩
  · simp at hescape
  · simp at hescape
  · rename_i c rest noQuote _ _
    split at h
    · cases h
    · cases h
      exact .inr ⟨c, noQuote, rfl, rfl⟩

/-- A string without backslashes ends at the first quote, and has the characters before it. -/
theorem stringBody?_plain (hescape : '\\' ∉ text) {pieces : List Piece}
    (h : stringBody? text = some (pieces, after)) :
    ∃ inner, text = inner ++ '"' :: after ∧ '"' ∉ inner ∧ pieces = inner.map .char := by
  fun_induction stringBody? text generalizing pieces with
  | case1 => cases h
  | case2 text rest hpiece =>
      cases h
      rcases stringPiece?_plain hescape hpiece with ⟨_, rfl⟩ | ⟨_, _, hchar, _⟩
      · exact ⟨[], rfl, List.not_mem_nil, rfl⟩
      · cases hchar
  | case3 text piece rest hpiece ih =>
      rcases stringPiece?_plain hescape hpiece with ⟨hnone, _⟩ | ⟨c, hquote, hchar, rfl⟩
      · cases hnone
      · cases hchar
        rw [Option.map_eq_some_iff] at h
        obtain ⟨⟨found, left⟩, hbody, heq⟩ := h
        cases heq
        obtain ⟨inner, rfl, hinner, rfl⟩ := ih (fun hmem => hescape (List.mem_cons_of_mem c hmem)) hbody
        refine ⟨c :: inner, rfl, ?_, rfl⟩
        rw [List.mem_cons, not_or]
        exact ⟨hquote.symm, hinner⟩

/-! ## Numbers with exponents -/

/-- An exponent as it is written, if there is one: its mark, perhaps a sign, and digits. -/
inductive ExponentText : List Char → Option (Bool × List Nat) → Prop where
  | none : ExponentText [] none
  | plain {mark : Char} {ds : List Char} (isMark : mark = 'e' ∨ mark = 'E') (digits : Digits ds) :
      ExponentText (mark :: ds) (some (false, digitValues ds))
  | signed {mark sign : Char} {ds : List Char} (isMark : mark = 'e' ∨ mark = 'E')
      (isSign : sign = '+' ∨ sign = '-') (digits : Digits ds) :
      ExponentText (mark :: sign :: ds) (some (sign = '-', digitValues ds))

inductive ScientificText : List Char → NumberLiteral → Prop where
  | intro {mantissa written : List Char} {literal : NumberLiteral} {exponent : Option (Bool × List Nat)}
      (number : NumberText mantissa literal) (behind : ExponentText written exponent) :
      ScientificText (mantissa ++ written) { literal with exponent := exponent }

/-- Digits that were read, at least one, and what is left. -/
theorem digits_eq {values : List Nat} (h : digits text = (values, after)) (hne : values ≠ []) :
    ∃ ds, Digits ds ∧ text = ds ++ after ∧ values = digitValues ds := by
  have hall : ∀ text, ∃ ds, (∀ c ∈ ds, c.isDigit = true) ∧ text = ds ++ (digits text).2 ∧
      (digits text).1 = digitValues ds := by
    intro text
    induction text with
    | nil => exact ⟨[], by simp, rfl, rfl⟩
    | cons c rest ih =>
        rw [digits, digit?]
        by_cases hdigit : c.isDigit = true
        · obtain ⟨ds, hds, hrest, hvalues⟩ := ih
          rw [if_pos hdigit]
          exact ⟨c :: ds, List.forall_mem_cons.mpr ⟨hdigit, hds⟩, congrArg (c :: ·) hrest,
            congrArg (_ :: ·) hvalues⟩
        · rw [if_neg hdigit]
          exact ⟨[], by simp, rfl, rfl⟩
  obtain ⟨ds, hds, htext, hvalues⟩ := hall text
  rw [h] at htext hvalues
  refine ⟨ds, ⟨?_, hds⟩, htext, hvalues⟩
  rintro rfl
  exact hne hvalues

theorem fraction?_eq_some {found : Option (List Nat)} (h : fraction? text = some (found, after)) :
    ∃ fraction : Option (List Char), (∀ ds ∈ fraction, Digits ds) ∧ found = fraction.map digitValues ∧
      text = fraction.elim [] ('.' :: ·) ++ after := by
  unfold fraction? at h
  split at h
  · split at h
    · cases h
    · rename_i hne hdigits
      cases h
      obtain ⟨ds, hds, rfl, rfl⟩ := digits_eq hdigits (by simpa using hne)
      exact ⟨some ds, by simpa using hds, rfl, rfl⟩
  · cases h
    exact ⟨none, by simp, rfl, rfl⟩

/-- A text starts with the minus sign that is taken from it. -/
theorem minus_eq (text : List Char) :
    text = (if (minus text).1 then ['-'] else []) ++ (minus text).2 := by
  unfold minus
  split <;> rfl

/-- A text starts with the sign that is taken from it. -/
theorem sign_cases (text : List Char) :
    sign text = (false, text) ∨ ∃ c rest, (c = '+' ∨ c = '-') ∧ text = c :: rest ∧
      sign text = (decide (c = '-'), rest) := by
  unfold sign
  split
  · exact .inr ⟨'+', _, .inl rfl, rfl, rfl⟩
  · unfold minus
    split
    · exact .inr ⟨'-', _, .inr rfl, rfl, rfl⟩
    · exact .inl rfl

theorem sign_digits {ds : List Char} (h : Digits ds) (more : List Char) :
    sign (ds ++ more) = (false, ds ++ more) := by
  rcases sign_cases (ds ++ more) with hsign | ⟨c, rest, hc, htext, _⟩
  · exact hsign
  · obtain ⟨d, others, rfl⟩ := List.exists_cons_of_ne_nil h.ne_nil
    obtain ⟨rfl, _⟩ := List.cons.inj htext
    have hdigit := h.digit d List.mem_cons_self
    rcases hc with rfl | rfl <;> exact absurd hdigit (by decide)

theorem ExponentText.read {written : List Char} {exponent : Option (Bool × List Nat)}
    (h : ExponentText written exponent) (hafter : EndsNumber after) :
    exponent? (written ++ after) = some (exponent, after) := by
  have hdigits {ds : List Char} (hds : Digits ds) : digits (ds ++ after) = (digitValues ds, after) :=
    digits_append hds.digit fun c hc => (hafter c hc).1
  cases h with
  | none => exact exponent?_eq_none hafter
  | plain isMark hds =>
      rw [List.cons_append, exponent?, if_pos isMark, sign_digits hds, hdigits hds]
      obtain ⟨d, others, rfl⟩ := List.exists_cons_of_ne_nil hds.ne_nil
      rfl
  | @signed mark sign ds isMark isSign hds =>
      have hsign : Json.sign (sign :: (ds ++ after)) = (decide (sign = '-'), ds ++ after) := by
        rcases isSign with rfl | rfl <;> rfl
      rw [List.cons_append, List.cons_append, exponent?, if_pos isMark, hsign, hdigits hds]
      obtain ⟨d, others, rfl⟩ := List.exists_cons_of_ne_nil hds.ne_nil
      rfl

theorem exponent?_eq_some {found : Option (Bool × List Nat)} (h : exponent? text = some (found, after)) :
    ∃ written, ExponentText written found ∧ text = written ++ after := by
  cases text with
  | nil =>
      cases h
      exact ⟨[], .none, rfl⟩
  | cons mark rest =>
      rw [exponent?] at h
      split at h
      · rename_i isMark
        split at h
        · cases h
        · rename_i hne hdigits
          cases h
          obtain ⟨ds, hds, hrest, hvalues⟩ := digits_eq hdigits (by simpa using hne)
          rw [hvalues]
          rcases sign_cases rest with hsign | ⟨c, more, isSign, rfl, hsign⟩
          · rw [hsign] at hrest ⊢
            exact ⟨mark :: ds, .plain isMark hds, congrArg (mark :: ·) hrest⟩
          · rw [hsign] at hrest ⊢
            exact ⟨mark :: c :: ds, .signed isMark isSign hds, congrArg (mark :: c :: ·) hrest⟩
      · cases h
        exact ⟨[], .none, rfl⟩

theorem ExponentText.endsDigits {written : List Char} {exponent : Option (Bool × List Nat)}
    (h : ExponentText written exponent) (hafter : EndsNumber after) : EndsDigits (written ++ after) := by
  have hmark {mark : Char} (isMark : mark = 'e' ∨ mark = 'E') (more : List Char) :
      EndsDigits (mark :: more) := by
    intro c hc
    cases hc
    rcases isMark with rfl | rfl <;> decide
  cases h with
  | none => exact hafter.endsDigits
  | plain isMark _ => exact hmark isMark _
  | signed isMark _ _ => exact hmark isMark _

/-- A number is read as a whole, and as nothing but what it is written for. -/
theorem numberLiteral?_eq_some_iff {literal : NumberLiteral} (hafter : EndsNumber after) :
    numberLiteral? text = some (literal, after) ↔
      ∃ written, ScientificText written literal ∧ text = written ++ after := by
  constructor
  · intro h
    unfold numberLiteral? at h
    split at h
    · cases h
    · cases h
    · rename_i d ds left hzero hdigits
      obtain ⟨whole, hwhole, hrest, hvalues⟩ := digits_eq hdigits (List.cons_ne_nil d ds)
      simp only [Option.bind_eq_bind, Option.bind_eq_some_iff, Option.pure_def, Option.some.injEq,
        Prod.mk.injEq, Prod.exists] at h
      obtain ⟨found, behind, hfraction, exponent, after, hexponent, rfl, rfl⟩ := h
      obtain ⟨fraction, hfractions, rfl, hbehind⟩ := fraction?_eq_some hfraction
      obtain ⟨written, hwritten, rfl⟩ := exponent?_eq_some hexponent
      have noZero : ¬ ∃ c rest, whole = '0' :: c :: rest := by
        rintro ⟨c, rest, rfl⟩
        obtain ⟨hd, hds⟩ := List.cons.inj hvalues
        exact hzero _ _ hd hds
      rw [hvalues]
      refine ⟨_, .intro (.intro hwhole noZero hfractions) hwritten, ?_⟩
      have htext := minus_eq text
      rw [hrest, hbehind] at htext
      simpa only [List.append_assoc] using htext
  · rintro ⟨written, h, rfl⟩
    obtain ⟨number, behind⟩ := h
    rw [List.append_assoc, number.read_exponent (behind.endsDigits hafter), behind.read hafter]
    rfl

/-- A written number is one token, with its exponent. -/
theorem ScientificText.token? {literal : NumberLiteral} (h : ScientificText text literal)
    (hafter : EndsNumber after) :
    token? (text ++ after) = some (.scalar (.number literal.value?), after) := by
  have hread := (numberLiteral?_eq_some_iff hafter).mpr ⟨text, h, rfl⟩
  obtain ⟨number, _⟩ := h
  obtain ⟨c, rest, rfl, hc⟩ := number.exists_cons
  rw [List.cons_append, List.cons_append] at hread ⊢
  rw [token?_numeric hc, hread]
  rfl

end SiteServer.Json
