import SiteServer.Proofs.Json.Tokens
import SiteServer.Proofs.Template.WrittenValues

/-! # JSON objects as argument literals.

JSON is an argument literal as it stands. It is written as JSON once more, and its strings and all that
stands outside of them keep their meaning, but for one thing: the `e` of an exponent is taken for a name,
and the blank that is put behind a name cuts off the sign of the exponent. So of the objects without
backslashes those with such an exponent are refused, and all others are read as the same object. -/

namespace SiteServer.Template.Arguments

open Json (Lexes)

/-! ## Exponents with a sign -/

section SignedExponents

/-- Somewhere outside of strings an `e` has a sign behind it. A quote starts or ends a string. -/
def signedExponent (inString : Bool) : List Char → Bool
  | [] => false
  | c :: rest =>
    if c = '"' then signedExponent (!inString) rest
    else (!inString && (c = 'e' || c = 'E') && (rest.head? = some '+' || rest.head? = some '-')) ||
      signedExponent inString rest

/-- A character that is neither a quote nor the mark of an exponent. -/
def Plain (c : Char) : Prop :=
  c ≠ '"' ∧ c ≠ 'e' ∧ c ≠ 'E'

instance (c : Char) : Decidable (Plain c) :=
  inferInstanceAs (Decidable (_ ∧ _ ∧ _))

variable {inner rest : List Char} {c : Char}

theorem signedExponent_cons (h : Plain c) (inString : Bool) (rest : List Char) :
    signedExponent inString (c :: rest) = signedExponent inString rest := by
  rw [signedExponent, if_neg h.1]
  simp [h.2]

theorem signedExponent_append {front : List Char} (h : ∀ c ∈ front, Plain c) (rest : List Char) :
    signedExponent false (front ++ rest) = signedExponent false rest := by
  induction front with
  | nil => rfl
  | cons c front ih =>
      rw [List.cons_append, signedExponent_cons (h c List.mem_cons_self),
        ih fun d hd => h d (List.mem_cons_of_mem c hd)]

/-- Strings count for nothing. -/
theorem signedExponent_string (h : '"' ∉ inner) (rest : List Char) :
    signedExponent false ('"' :: (inner ++ '"' :: rest)) = signedExponent false rest := by
  have hinner : signedExponent true (inner ++ '"' :: rest) = signedExponent false rest := by
    induction inner with
    | nil => simp [signedExponent]
    | cons c inner ih =>
        rw [List.mem_cons, not_or] at h
        rw [List.cons_append, signedExponent, if_neg (Ne.symm h.1), ih h.2]
        simp
  rw [signedExponent, if_pos rfl]
  exact hinner

theorem signedExponent_mark (h : c ≠ '"') (hrest : ∀ d, rest.head? = some d → d ≠ '+' ∧ d ≠ '-') :
    signedExponent false (c :: rest) = signedExponent false rest := by
  have hsign : ¬ (rest.head? = some '+' ∨ rest.head? = some '-') := by
    rintro (hhead | hhead)
    · exact (hrest _ hhead).1 rfl
    · exact (hrest _ hhead).2 rfl
  rw [signedExponent, if_neg h]
  simp [hsign]

theorem plain_of_isBlank (h : Text.isBlank c = true) : Plain c := by
  refine ⟨?_, ?_, ?_⟩ <;> rintro rfl <;> exact absurd h (by decide)

theorem plain_of_isDigit (h : c.isDigit = true) : Plain c := by
  refine ⟨?_, ?_, ?_⟩ <;> rintro rfl <;> exact absurd h (by decide)

theorem signedExponent_trimLeft (text : List Char) :
    signedExponent false (Text.trimLeft text) = signedExponent false text := by
  conv_rhs => rw [← Text.blanksLeft_append_trimLeft text]
  refine (signedExponent_append (fun c hc => plain_of_isBlank ?_) _).symm
  exact List.mem_takeWhile_imp hc

/-- An exponent without a sign counts for nothing. -/
theorem signedExponent_digits {mark : Char} {ds : List Char} (isMark : mark = 'e' ∨ mark = 'E')
    (digits : Json.Digits ds) (rest : List Char) :
    signedExponent false (mark :: ds ++ rest) = signedExponent false rest := by
  have hds := signedExponent_append (fun c hc => plain_of_isDigit (digits.digit c hc)) rest
  refine (signedExponent_mark ?_ ?_).trans hds
  · rcases isMark with rfl | rfl <;> decide
  · obtain ⟨d, others, rfl⟩ := List.exists_cons_of_ne_nil digits.ne_nil
    intro c hc
    cases hc
    have hdigit := digits.digit d List.mem_cons_self
    constructor <;> rintro rfl <;> exact absurd hdigit (by decide)

theorem signedExponent_signed {mark sign : Char} (isMark : mark = 'e' ∨ mark = 'E')
    (isSign : sign = '+' ∨ sign = '-') (rest : List Char) :
    signedExponent false (mark :: sign :: rest) = true := by
  rcases isMark with rfl | rfl <;> rcases isSign with rfl | rfl <;> simp [signedExponent]

end SignedExponents

/-! ## JSON without backslashes -/

/-- A text without backslashes is JSON for tokens. -/
inductive JsonText : List Char → List Json.Token → Prop where
  | nil : JsonText [] []
  | space {c : Char} {rest : List Char} {tokens : List Json.Token} (isSpace : Json.isSpace c = true)
      (behind : JsonText rest tokens) : JsonText (c :: rest) tokens
  | mark {c : Char} {token : Json.Token} {rest : List Char} {tokens : List Json.Token}
      (isMark : Mark c token) (behind : JsonText rest tokens) : JsonText (c :: rest) (token :: tokens)
  | string {inner rest : List Char} {tokens : List Json.Token} (noQuote : '"' ∉ inner)
      (noEscape : '\\' ∉ inner) (behind : JsonText rest tokens) :
      JsonText ('"' :: (inner ++ '"' :: rest))
        (.scalar (.string (some (String.ofList inner))) :: tokens)
  | word {word rest : List Char} {value : RawJson} {tokens : List Json.Token} (isWord : Word word value)
      (follows : Follows rest) (behind : JsonText rest tokens) :
      JsonText (word ++ rest) (.scalar value :: tokens)
  | number {text rest : List Char} {literal : Json.NumberLiteral} {tokens : List Json.Token}
      (isNumber : Json.ScientificText text literal) (follows : Follows rest)
      (behind : JsonText rest tokens) :
      JsonText (text ++ rest) (.scalar (.number literal.value?) :: tokens)

/-- What a token is read from, when it is no mark. -/
inductive ScalarText (after : List Char) : List Char → RawJson → Prop where
  | string {inner : List Char} (noQuote : '"' ∉ inner) :
      ScalarText after ('"' :: (inner ++ '"' :: after)) (.string (some (String.ofList inner)))
  | word {word : List Char} {value : RawJson} (isWord : Word word value) :
      ScalarText after (word ++ after) value
  | number {text : List Char} {literal : Json.NumberLiteral}
      (read : Json.numberLiteral? text = some (literal, after)) :
      ScalarText after text (.number literal.value?)

variable {text rest after inner : List Char} {tokens : List Json.Token} {token : Json.Token} {c : Char}

/-- The text of a token starts with its mark. -/
theorem Mark.eq_cons (h : Mark c token) (hread : Json.token? text = some (token, after)) :
    text = c :: after := by
  have hword {name more : List Char} {value : RawJson} :
      Json.word? name value more ≠ some (token, after) := by
    intro hword
    unfold Json.word? at hword
    split at hword
    · cases hword
      cases h
    · cases hword
  unfold Json.token? at hread
  split at hread
  case h_1 => cases hread
  case h_8 | h_12 =>
      obtain ⟨_, _, heq⟩ := Option.map_eq_some_iff.mp hread
      cases heq
      cases h
  case h_9 | h_10 | h_11 => exact absurd hread hword
  all_goals
    cases hread
    cases h
    rfl

theorem scalarText_of_token? {value : RawJson} (hescape : '\\' ∉ text)
    (h : Json.token? text = some (.scalar value, after)) : ScalarText after text value := by
  have hword {first : Char} {name more : List Char} {found : RawJson} (hname : Word (first :: name) found)
      (hread : Json.word? name found more = some (.scalar value, after)) :
      ScalarText after (first :: more) value := by
    unfold Json.word? at hread
    split at hread
    · rename_i hprefix
      obtain ⟨left, rfl⟩ := List.isPrefixOf_iff_prefix.mp hprefix
      cases hread
      rw [List.drop_left]
      exact .word hname
    · cases hread
  unfold Json.token? at h
  split at h
  case h_8 =>
      obtain ⟨⟨pieces, left⟩, hbody, heq⟩ := Option.map_eq_some_iff.mp h
      obtain ⟨inner, rfl, hinner, rfl⟩ :=
        Json.stringBody?_plain (fun hmem => hescape (List.mem_cons_of_mem _ hmem)) hbody
      dsimp only at heq
      rw [Json.characters?_chars] at heq
      cases heq
      exact .string hinner
  case h_9 => exact hword .null h
  case h_10 => exact hword .true h
  case h_11 => exact hword .false h
  case h_12 =>
      obtain ⟨⟨literal, left⟩, hread, heq⟩ := Option.map_eq_some_iff.mp h
      cases heq
      exact .number hread
  all_goals cases h

theorem follows_of_lexes (h : Lexes text tokens)
    (hends : ∀ next, tokens.head? = some next → Json.Ends next) : Follows text := by
  induction h with
  | nil => exact ⟨[], [], rfl, by simp [Spaces], by simp⟩
  | space isSpace _ ih =>
      obtain ⟨spaces, more, rfl, hspaces, hmore⟩ := ih hends
      exact ⟨_ :: spaces, more, rfl, List.forall_mem_cons.mpr ⟨isSpace, hspaces⟩, hmore⟩
  | token _ read _ =>
      refine ⟨[], _, rfl, by simp [Spaces], fun d hd => ?_⟩
      cases hd
      cases hends _ rfl with
      | comma => exact .inl (List.cons.inj (Mark.comma.eq_cons read)).1
      | closeArray => exact .inr (.inl (List.cons.inj (Mark.closeArray.eq_cons read)).1)
      | closeObject => exact .inr (.inr (List.cons.inj (Mark.closeObject.eq_cons read)).1)

/-- What is read without backslashes is JSON for its tokens. -/
theorem jsonText_of_lexes (h : Lexes text tokens) (hescape : '\\' ∉ text)
    {frames : List Json.Frame} {expected : Json.Expected} {tree : RawJson}
    (hsteps : Json.steps? frames expected tokens = some ([], .separator tree)) :
    JsonText text tokens := by
  induction h generalizing frames expected with
  | nil => exact .nil
  | space isSpace _ ih =>
      exact .space isSpace (ih (fun hmem => hescape (List.mem_cons_of_mem _ hmem)) hsteps)
  | @token c rest after token tokens noSpace read behind ih =>
      obtain ⟨⟨frames', expected'⟩, hstep, hrest⟩ := Option.bind_eq_some_iff.mp hsteps
      have hafter {written : List Char} (htext : c :: rest = written ++ after) : JsonText after tokens :=
        ih (fun hmem => hescape (htext ▸ List.mem_append_right written hmem)) hrest
      have hmark {mark : Char} (isMark : Mark mark token) : JsonText (c :: rest) (token :: tokens) := by
        have htext := isMark.eq_cons read
        rw [htext]
        exact .mark isMark (@hafter [mark] htext)
      have hfollows {value : RawJson} (htoken : token = .scalar value) (hvalue : ∀ s, value ≠ .string s) :
          Follows after :=
        follows_of_lexes behind (Json.ends_behind_scalar hvalue (htoken ▸ hsteps))
      cases token with
      | openArray => exact hmark .openArray
      | closeArray => exact hmark .closeArray
      | openObject => exact hmark .openObject
      | closeObject => exact hmark .closeObject
      | colon => exact hmark .colon
      | comma => exact hmark .comma
      | scalar value =>
          generalize htext : c :: rest = text at *
          cases scalarText_of_token? hescape read with
          | @string inner noQuote =>
              refine .string noQuote (fun hmem => hescape ?_) (@hafter ('"' :: (inner ++ ['"'])) (by simp))
              simp [hmem]
          | word isWord => exact .word isWord (hfollows rfl (by cases isWord <;> simp)) (hafter rfl)
          | number hread =>
              have hends := hfollows rfl (by simp)
              obtain ⟨written, hwritten, rfl⟩ :=
                (Json.numberLiteral?_eq_some_iff hends.endsScalar.endsNumber).mp hread
              exact .number hwritten hends (hafter rfl)

/-! ## JSON written once more -/

/-- A text has these tokens, or none at all when an exponent has lost its sign. -/
def Carries (signed : Bool) (out : List Char) (tokens : List Json.Token) : Prop :=
  if signed then ∀ others, ¬ Lexes out others else Lexes out tokens

theorem Carries.of_space {signed : Bool} {out : List Char} (hspace : Json.isSpace c = true)
    (h : Carries signed out tokens) : Carries signed (c :: out) tokens := by
  cases signed with
  | false => exact Lexes.space hspace h
  | true => exact fun others hlexes => h others ((Json.lexes_space hspace).mp hlexes)

theorem Carries.of_token {signed : Bool} {out : List Char} (hspace : Json.isSpace c = false)
    (hread : Json.token? (c :: rest) = some (token, out)) (h : Carries signed out tokens) :
    Carries signed (c :: rest) (token :: tokens) := by
  cases signed with
  | false => exact Lexes.token hspace hread h
  | true =>
      intro others hlexes
      obtain ⟨behind, _, hbehind⟩ := (Json.lexes_token hspace hread).mp hlexes
      exact h behind hbehind

/-- A text is written as JSON and keeps its tokens, unless it has an exponent with a sign. -/
def Kept (text : List Char) (tokens : List Json.Token) : Prop :=
  ∃ out, toJsonText? text = some out ∧ Carries (signedExponent false text) out tokens

theorem Kept.trimLeft (h : Kept text tokens) (hhead : ∀ c, text.head? = some c → Text.isBlank c = false) :
    Kept text tokens ∧ Kept (Text.trimLeft text) tokens := by
  refine ⟨h, ?_⟩
  rw [Text.trimLeft, Text.dropWhile_eq_self hhead]
  exact h

theorem kept_mark (h : Mark c token) (hrest : Kept rest tokens) : Kept (c :: rest) (token :: tokens) := by
  obtain ⟨out, hout, hcarries⟩ := hrest
  have hplain : Plain c := by cases h <;> decide
  have hspace : Json.isSpace c = false := by cases h <;> decide
  refine ⟨c :: out, ?_, ?_⟩
  · rw [toJsonText?_copied h.copied, hout]
    rfl
  · rw [signedExponent_cons hplain]
    exact hcarries.of_token hspace (h.token? out)

theorem kept_string (noQuote : '"' ∉ inner) (noEscape : '\\' ∉ inner) (hrest : Kept rest tokens) :
    Kept ('"' :: (inner ++ '"' :: rest))
      (.scalar (.string (some (String.ofList inner))) :: tokens) := by
  obtain ⟨out, hout, hcarries⟩ := hrest
  refine ⟨Json.printString inner ++ out, ?_, ?_⟩
  · rw [toJsonText?_string (.inr rfl) (.self noQuote noEscape), hout]
    rfl
  · have htoken := Json.token?_printString inner out
    rw [signedExponent_string noQuote]
    rw [Json.printString, List.cons_append, List.cons_append] at htoken ⊢
    exact hcarries.of_token (by decide) htoken

/-- No sign stands behind a value. -/
theorem Follows.noSign (h : Follows rest) : ∀ c, rest.head? = some c → c ≠ '+' ∧ c ≠ '-' := by
  intro c hc
  rcases h.endsScalar c hc with hspace | rfl | rfl | rfl
  · constructor <;> rintro rfl <;> exact absurd hspace (by decide)
  · decide
  · decide
  · decide

theorem signedExponent_word {word : List Char} {value : RawJson} (h : Word word value)
    (hfollows : Follows rest) : signedExponent false (word ++ rest) = signedExponent false rest := by
  have he := signedExponent_mark (c := 'e') (by decide) hfollows.noSign
  have hfront {front : List Char} (hplain : ∀ c ∈ front, Plain c) :
      signedExponent false (front ++ 'e' :: rest) = signedExponent false rest :=
    (signedExponent_append hplain _).trans he
  cases h with
  | null => exact @signedExponent_append ['n', 'u', 'l', 'l'] (by simp [Plain]) rest
  | true => exact @hfront ['t', 'r', 'u'] (by simp [Plain])
  | false => exact @hfront ['f', 'a', 'l', 's'] (by simp [Plain])

theorem kept_word {word : List Char} {value : RawJson} (h : Word word value) (hfollows : Follows rest)
    (hrest : Kept (Text.trimLeft rest) tokens) : Kept (word ++ rest) (.scalar value :: tokens) := by
  obtain ⟨out, hout, hcarries⟩ := hrest
  rw [signedExponent_trimLeft] at hcarries
  refine ⟨word ++ ' ' :: out, ?_, ?_⟩
  · rw [toJsonText?_ident h.isIdent hfollows.endsScalar.noIdent, hout, Option.map_some,
      if_neg hfollows.noKey]
  · rw [signedExponent_word h hfollows]
    have hblank := hcarries.of_space (c := ' ') (by decide)
    cases h <;> exact hblank.of_token (by decide) rfl

theorem plain_of_numberText {literal : Json.NumberLiteral} (h : Json.NumberText text literal) :
    ∀ c ∈ text, Plain c := by
  intro c hc
  rcases h.mem_cases c hc with rfl | rfl | hdigit
  · decide
  · decide
  · exact plain_of_isDigit hdigit

/-- The digits of an exponent are a name with its mark. -/
theorem isIdent_mark {mark : Char} {ds : List Char} (isMark : mark = 'e' ∨ mark = 'E')
    (h : ∀ c ∈ ds, c.isDigit = true) : Lookup.IsIdent (mark :: ds) := by
  refine ⟨mark, ds, rfl, ?_, fun c hc => ?_⟩
  · rcases isMark with rfl | rfl <;> decide
  · simp [Lookup.isIdentRest, h c hc]

/-- Without a sign in its exponent a number stays one token. -/
theorem carries_number {literal : Json.NumberLiteral} {out : List Char} {signed : Bool}
    (h : Json.ScientificText text literal) (hends : EndsScalar out) (hout : Carries signed out tokens) :
    Carries signed (text ++ out) (.scalar (.number literal.value?) :: tokens) := by
  have htoken := h.token? hends.endsNumber
  have hhead : ∃ c rest, text = c :: rest ∧ Text.isBlank c = false := by
    obtain ⟨number, _⟩ := h
    obtain ⟨c, rest, rfl, _⟩ := number.exists_cons
    exact ⟨c, _, rfl, head?_not_blank_of_numberText number [] c rfl⟩
  obtain ⟨c, rest, rfl, hblank⟩ := hhead
  rw [List.cons_append] at htoken ⊢
  exact hout.of_token (isSpace_eq_false_of_not_blank hblank) htoken

/-- A blank behind the mark of an exponent leaves nothing that is read. -/
theorem not_lexes_split {literal : Json.NumberLiteral} {mark : Char} (h : Json.NumberText text literal)
    (isMark : mark = 'e' ∨ mark = 'E') (others : List Json.Token) :
    ¬ Lexes (text ++ mark :: ' ' :: rest) others := by
  have hends : Json.EndsDigits (mark :: ' ' :: rest) := by
    intro c hc
    cases hc
    rcases isMark with rfl | rfl <;> decide
  have hread := h.read_exponent hends
  rw [Json.exponent?, if_pos isMark] at hread
  obtain ⟨c, more, rfl, hc⟩ := h.exists_cons
  rw [List.cons_append] at hread ⊢
  have hblank := head?_not_blank_of_numberText h [] c rfl
  refine Json.not_lexes (isSpace_eq_false_of_not_blank hblank) ?_
  rw [Json.token?_numeric hc, hread]
  rfl

/-- A blank is put behind the mark of an exponent with a sign. -/
theorem toJsonText?_signed {mark sign : Char} {ds : List Char} (isMark : mark = 'e' ∨ mark = 'E')
    (isSign : sign = '+' ∨ sign = '-') (digits : Json.Digits ds) (rest : List Char) :
    toJsonText? (mark :: sign :: ds ++ rest) =
      (toJsonText? rest).map (mark :: ' ' :: sign :: ds ++ ·) := by
  have hcopies : ∀ c ∈ sign :: ds, Copied c := by
    refine List.forall_mem_cons.mpr ⟨?_, fun c hc => copied_of_isDigit (digits.digit c hc)⟩
    rcases isSign with rfl | rfl <;> exact ⟨by decide, by decide⟩
  have htrim : Text.trimLeft (sign :: (ds ++ rest)) = sign :: (ds ++ rest) := by
    rw [Text.trimLeft_cons_of_not_blank]
    rcases isSign with rfl | rfl <;> decide
  have hkey : (sign :: (ds ++ rest)).head? ≠ some ':' := by
    rcases isSign with rfl | rfl <;> simp
  have hident : ∀ c, (sign :: (ds ++ rest)).head? = some c → Lookup.isIdentRest c = false := by
    intro c hc
    cases hc
    rcases isSign with rfl | rfl <;> decide
  calc toJsonText? ([mark] ++ sign :: (ds ++ rest))
      = (toJsonText? (sign :: (ds ++ rest))).map fun out => [mark] ++ ' ' :: out := by
        rw [toJsonText?_ident (isIdent_mark isMark (by simp)) hident, htrim]
        simp only [if_neg hkey]
    _ = ((toJsonText? rest).map (sign :: ds ++ ·)).map fun out => [mark] ++ ' ' :: out := by
        rw [← List.cons_append, toJsonText?_copied_append hcopies]
    _ = (toJsonText? rest).map (mark :: ' ' :: sign :: ds ++ ·) := by
        rw [Option.map_map]
        rfl

theorem kept_number {literal : Json.NumberLiteral} (h : Json.ScientificText text literal)
    (hfollows : Follows rest) (hrest : Kept rest tokens) (htrim : Kept (Text.trimLeft rest) tokens) :
    Kept (text ++ rest) (.scalar (.number literal.value?) :: tokens) := by
  obtain ⟨out, hout, hcarries⟩ := hrest
  cases h with
  | @intro mantissa written literal exponent number behind =>
      have hplain := signedExponent_append (plain_of_numberText number)
      have hcopied := toJsonText?_copied_append (copied_of_numberText number)
      rw [List.append_assoc]
      cases behind with
      | none =>
          have hnumber := carries_number (.intro number .none) (hfollows.endsScalar.rewritten hout) hcarries
          rw [List.append_nil] at hnumber
          refine ⟨mantissa ++ out, ?_, ?_⟩
          · rw [List.nil_append, hcopied, hout]
            rfl
          · rw [List.nil_append, hplain]
            exact hnumber
      | @plain mark ds isMark digits =>
          obtain ⟨out, hout, hcarries⟩ := htrim
          rw [signedExponent_trimLeft] at hcarries
          have hends : EndsScalar (' ' :: out) := by
            intro c hc
            cases hc
            exact .inl rfl
          refine ⟨mantissa ++ mark :: ds ++ ' ' :: out, ?_, ?_⟩
          · rw [hcopied, toJsonText?_ident (isIdent_mark isMark digits.digit) hfollows.endsScalar.noIdent,
              hout, Option.map_some, if_neg hfollows.noKey, Option.map_some, List.append_assoc]
          · rw [hplain, signedExponent_digits isMark digits]
            exact carries_number (.intro number (.plain isMark digits)) hends (hcarries.of_space rfl)
      | @signed mark sign ds isMark isSign digits =>
          refine ⟨mantissa ++ (mark :: ' ' :: sign :: ds ++ out), ?_, ?_⟩
          · rw [hcopied, toJsonText?_signed isMark isSign digits, hout]
            rfl
          · have hmark : signedExponent false (mark :: sign :: ds ++ rest) = true :=
              signedExponent_signed isMark isSign (ds ++ rest)
            rw [hplain, hmark]
            exact not_lexes_split number isMark

/-- JSON without backslashes is written with its own tokens, or with none where an exponent has a sign; also
when blanks before it are left out, as is done behind a name. -/
theorem JsonText.kept (h : JsonText text tokens) :
    Kept text tokens ∧ Kept (Text.trimLeft text) tokens := by
  induction h with
  | nil =>
      have hnil : Kept [] [] := ⟨[], by rw [toJsonText?], Lexes.nil⟩
      exact hnil.trimLeft (by simp)
  | @space c rest tokens isSpace behind ih =>
      obtain ⟨⟨out, hout, hcarries⟩, htrim⟩ := ih
      have hblank := isBlank_of_isSpace isSpace
      have hskip : Text.trimLeft (c :: rest) = Text.trimLeft rest := by
        simp [Text.trimLeft, hblank]
      rw [hskip]
      refine ⟨⟨c :: out, ?_, ?_⟩, htrim⟩
      · rw [toJsonText?_copied (copied_of_isSpace isSpace), hout]
        rfl
      · rw [signedExponent_cons (plain_of_isBlank hblank)]
        exact hcarries.of_space isSpace
  | mark isMark behind ih =>
      refine (kept_mark isMark ih.1).trimLeft fun d hd => ?_
      cases hd
      cases isMark <;> decide
  | string noQuote noEscape behind ih =>
      refine (kept_string noQuote noEscape ih.1).trimLeft fun d hd => ?_
      cases hd
      decide
  | word isWord follows behind ih =>
      exact (kept_word isWord follows ih.2).trimLeft (isWord.isIdent.head?_not_blank _)
  | @number text rest literal tokens isNumber follows behind ih =>
      refine (kept_number isNumber follows ih.1 ih.2).trimLeft ?_
      obtain ⟨number, _⟩ := isNumber
      rw [List.append_assoc]
      exact head?_not_blank_of_numberText number _

/-! ## Objects as arguments -/

/-- A text of JSON without backslashes is written as JSON with the same tree, unless an exponent has a sign;
then what is written is no JSON. -/
theorem readRaw_written {tree : RawJson} (h : Json.readRaw text = .ok tree) (hescape : '\\' ∉ text) :
    ∃ out, toJsonText? text = some out ∧
      (signedExponent false text = false → Json.readRaw out = .ok tree) ∧
      (signedExponent false text = true → ∃ fault, Json.readRaw out = .error fault) := by
  obtain ⟨tokens, hlexes, hsteps⟩ := Json.readRaw_eq_ok_iff.mp h
  obtain ⟨⟨out, hout, hcarries⟩, _⟩ := (jsonText_of_lexes hlexes hescape hsteps).kept
  refine ⟨out, hout, fun hsigned => ?_, fun hsigned => ?_⟩
  · rw [hsigned] at hcarries
    exact Json.readRaw_eq_ok_iff.mpr ⟨tokens, hcarries, hsteps⟩
  · rw [hsigned] at hcarries
    cases hraw : Json.readRaw out with
    | error fault => exact ⟨fault, rfl⟩
    | ok found =>
        obtain ⟨others, hothers, _⟩ := Json.readRaw_eq_ok_iff.mp hraw
        exact absurd hothers (hcarries others)

/-- Without a sign in an exponent an object keeps its tree when it is written as JSON again, so that it is
read as itself. -/
theorem parse_eq_ok_of_json {fields : JsonFields} (hread : Json.read text = .ok (.object fields))
    (hescape : '\\' ∉ text) (hsigned : signedExponent false text = false) :
    ∃ out, toJsonText? text = some out ∧ Json.readRaw out = Json.readRaw text ∧ parse text = .ok fields := by
  obtain ⟨tree, written, hraw, hwritten, hfields⟩ := Json.read_eq_ok_iff.mp hread
  obtain ⟨out, hout, hkept, _⟩ := readRaw_written hraw hescape
  have hagain : Json.read out = .ok (.object fields) :=
    Json.read_eq_ok_iff.mpr ⟨tree, written, hkept hsigned, hwritten, hfields⟩
  exact ⟨out, hout, (hkept hsigned).trans hraw.symm, parse_eq_ok hout hagain⟩

/-- With a sign in an exponent an object is refused. -/
theorem parse_eq_error_of_json {value : Json} (hread : Json.read text = .ok value) (hescape : '\\' ∉ text)
    (hsigned : signedExponent false text = true) : ∃ fault, parse text = .error (.json fault) := by
  obtain ⟨_, _, hraw, _⟩ := Json.read_eq_ok_iff.mp hread
  obtain ⟨out, hout, _, hlost⟩ := readRaw_written hraw hescape
  obtain ⟨fault, hfault⟩ := hlost hsigned
  refine ⟨fault, ?_⟩
  unfold parse
  rw [hout]
  dsimp only
  rw [Json.read_eq_error hfault]

/-- An object of one number is read as it is written. -/
theorem read_number_field {number : List Char} {literal : Json.NumberLiteral} {n : JsonNumber}
    (key : List Char) (h : Json.ScientificText number literal) (hvalue : literal.value? = some n) :
    Json.read ('\x7b' :: (Json.printString key ++ ':' :: (number ++ ['\x7d']))) =
      .ok (.object [(String.ofList key, .number n)]) := by
  have hclose : Lexes ['\x7d'] [.closeObject] := .token (by decide) rfl .nil
  have hends : EndsScalar ['\x7d'] := by
    intro c hc
    cases hc
    decide
  have hcarries : Carries false ['\x7d'] [.closeObject] := hclose
  have hnumber : Lexes (number ++ ['\x7d']) [.scalar (.number literal.value?), .closeObject] :=
    carries_number h hends hcarries
  rw [hvalue] at hnumber
  have hcolon : Lexes (':' :: (number ++ ['\x7d'])) _ := .token (by decide) rfl hnumber
  have hobject : Lexes ('\x7b' :: (Json.printString key ++ ':' :: (number ++ ['\x7d'])))
      (Json.tokens (.object [(String.ofList key, .number n)])) :=
    .token (by decide) rfl (Json.lexes_printString hcolon)
  exact Json.read_eq_ok hobject (by simp [Json.depth, Json.fieldDepth, Json.depthLimit])

/-- An object that is JSON without backslashes is read as this object, and what stands outside of its
strings keeps its meaning, unless an exponent has a sign. Then it is refused. -/
theorem json_object_parsed {fields : JsonFields} (hread : Json.read text = .ok (.object fields))
    (hescape : '\\' ∉ text) :
    (signedExponent false text = false → ∃ out, toJsonText? text = some out ∧
      Json.readRaw out = Json.readRaw text ∧ parse text = .ok fields) ∧
    (signedExponent false text = true → ∃ fault, parse text = .error (.json fault)) :=
  ⟨parse_eq_ok_of_json hread hescape, parse_eq_error_of_json hread hescape⟩

theorem json_object_parsed_unsigned :
    ∃ fields, Json.read "\x7b\"e-1\":0.25e1\x7d".toList = .ok (.object fields) ∧
      parse "\x7b\"e-1\":0.25e1\x7d".toList = .ok fields := by
  have hmantissa : Json.NumberText "0.25".toList ⟨false, [0], some [2, 5], none⟩ :=
    @Json.NumberText.intro false ['0'] (some ['2', '5']) ⟨by decide, List.all_eq_true.mp (by decide)⟩ (by simp)
      fun _ hds => Option.some.inj hds ▸ ⟨by decide, List.all_eq_true.mp (by decide)⟩
  have hexponent : Json.Digits ['1'] := ⟨by decide, List.all_eq_true.mp (by decide)⟩
  have hnumber : Json.ScientificText "0.25e1".toList ⟨false, [0], some [2, 5], some (false, [1])⟩ :=
    .intro hmantissa (.plain (.inl rfl) hexponent)
  have hread : Json.read "\x7b\"e-1\":0.25e1\x7d".toList = _ :=
    read_number_field "e-1".toList hnumber rfl
  obtain ⟨_, _, _, hparse⟩ := (json_object_parsed hread (by decide)).1 (by decide)
  exact ⟨_, hread, hparse⟩

/-- With a negative exponent the number is refused. -/
theorem json_object_refused :
    ∃ fields fault, Json.read "\x7b\"a\":1e-1\x7d".toList = .ok (.object fields) ∧
      '\\' ∉ "\x7b\"a\":1e-1\x7d".toList ∧
      parse "\x7b\"a\":1e-1\x7d".toList = .error (.json fault) := by
  have hdigits : Json.Digits ['1'] := ⟨by decide, List.all_eq_true.mp (by decide)⟩
  have hmantissa : Json.NumberText ['1'] ⟨false, [1], none, none⟩ :=
    @Json.NumberText.intro false ['1'] none hdigits (by simp) (by simp)
  have hnumber : Json.ScientificText "1e-1".toList ⟨false, [1], none, some (true, [1])⟩ :=
    .intro hmantissa (.signed (.inl rfl) (.inr rfl) hdigits)
  have hread : Json.read "\x7b\"a\":1e-1\x7d".toList = _ := read_number_field "a".toList hnumber rfl
  have hescape : '\\' ∉ "\x7b\"a\":1e-1\x7d".toList := by decide
  obtain ⟨fault, hfault⟩ := parse_eq_error_of_json hread hescape (by decide)
  exact ⟨_, fault, hread, hescape, hfault⟩

end SiteServer.Template.Arguments
