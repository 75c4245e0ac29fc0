import SiteServer.Proofs.Json.Reading
import SiteServer.Proofs.Template.Expression
import SiteServer.Proofs.Template.Spelling
import SiteServer.Template.Arguments

/-! # Argument literals of objects.

A literal is written like JSON, but its strings stand in quotes of either kind, and its keys may be bare
names. However an object is written in this way, `parse` gives its fields; and the close of a directive can
stand behind a brace of the literal only inside one of its strings. -/

namespace SiteServer.Template.Arguments

open Json (Token Lexes)

/-! ## How an object is written -/

/-- What is written between the quotes of a string, and the text that it stands for. -/
inductive StringText (quote : Char) : List Char → List Char → Prop where
  | nil : StringText quote [] []
  | escape {c : Char} {written text : List Char} (behind : StringText quote written text) :
      StringText quote ('\\' :: c :: written) (escaped c :: text)
  | char {c : Char} {written text : List Char} (noQuote : c ≠ quote) (noEscape : c ≠ '\\')
      (behind : StringText quote written text) : StringText quote (c :: written) (c :: text)

/-- A text without its quote and without backslashes stands for itself. -/
theorem StringText.self {quote : Char} {text : List Char} (hquote : quote ∉ text) (hescape : '\\' ∉ text) :
    StringText quote text text := by
  induction text with
  | nil => exact .nil
  | cons c text ih =>
      rw [List.mem_cons, not_or] at hquote hescape
      exact .char (Ne.symm hquote.1) (Ne.symm hescape.1) (ih hquote.2 hescape.2)

/-- The marks of JSON and their tokens. -/
inductive Mark : Char → Token → Prop where
  | openArray : Mark '[' .openArray
  | closeArray : Mark ']' .closeArray
  | openObject : Mark '\x7b' .openObject
  | closeObject : Mark '\x7d' .closeObject
  | colon : Mark ':' .colon
  | comma : Mark ',' .comma

/-- The words of JSON and their values. -/
inductive Word : List Char → RawJson → Prop where
  | null : Word "null".toList .null
  | true : Word "true".toList (.bool true)
  | false : Word "false".toList (.bool false)

/-- A word or a number ends before this text. -/
def EndsScalar (text : List Char) : Prop :=
  ∀ c, text.head? = some c → Json.isSpace c = true ∨ c = ',' ∨ c = ']' ∨ c = '\x7d'

/-- A text is written for tokens. The last part lists what is written between the quotes of its strings. -/
inductive Spelled : List Char → List Token → List (List Char) → Prop where
  | nil : Spelled [] [] []
  | space {c : Char} {rest : List Char} {tokens : List Token} {strings : List (List Char)}
      (isSpace : Json.isSpace c = true) (behind : Spelled rest tokens strings) :
      Spelled (c :: rest) tokens strings
  | mark {c : Char} {token : Token} {rest : List Char} {tokens : List Token}
      {strings : List (List Char)} (isMark : Mark c token) (behind : Spelled rest tokens strings) :
      Spelled (c :: rest) (token :: tokens) strings
  | string {quote : Char} {written text rest : List Char} {tokens : List Token}
      {strings : List (List Char)} (isQuote : quote = '\'' ∨ quote = '"')
      (inside : StringText quote written text) (behind : Spelled rest tokens strings) :
      Spelled (quote :: (written ++ quote :: rest))
        (.scalar (.string (some (String.ofList text))) :: tokens) (written :: strings)
  | key {name rest : List Char} {tokens : List Token} {strings : List (List Char)}
      (ident : Lookup.IsIdent name) (isKey : (Text.trimLeft rest).head? = some ':')
      (behind : Spelled rest tokens strings) :
      Spelled (name ++ rest) (.scalar (.string (some (String.ofList name))) :: tokens) strings
  | word {word rest : List Char} {value : RawJson} {tokens : List Token}
      {strings : List (List Char)} (isWord : Word word value) (ends : EndsScalar rest)
      (noKey : (Text.trimLeft rest).head? ≠ some ':') (behind : Spelled rest tokens strings) :
      Spelled (word ++ rest) (.scalar value :: tokens) strings
  | number {text rest : List Char} {literal : Json.NumberLiteral} {tokens : List Token}
      {strings : List (List Char)} (isNumber : Json.NumberText text literal) (ends : EndsScalar rest)
      (behind : Spelled rest tokens strings) :
      Spelled (text ++ rest) (.scalar (.number literal.value?) :: tokens) strings

/-- A literal is written for an object that is not nested too deep, with these strings in it. -/
structure ObjectText (literal : List Char) (fields : List (String × Json))
    (strings : List (List Char)) : Prop where
  braces : ∃ inner, literal = '\x7b' :: (inner ++ ['\x7d'])
  spelled : Spelled literal (Json.tokens (.object fields)) strings
  depth : Json.depth (.object fields) ≤ Json.depthLimit

/-! ## The parts of a literal -/

variable {text rest : List Char} {tokens : List Token} {strings : List (List Char)} {c quote : Char}

theorem isBlank_of_isSpace (h : Json.isSpace c = true) : Text.isBlank c = true := by
  simp only [Json.isSpace, Bool.or_eq_true, decide_eq_true_eq] at h
  rcases h with ((rfl | rfl) | rfl) | rfl <;> decide

theorem isSpace_eq_false_of_not_blank (h : Text.isBlank c = false) : Json.isSpace c = false := by
  by_contra hspace
  rw [isBlank_of_isSpace (eq_true_of_ne_false hspace)] at h
  cases h

theorem isIdentStart_eq_false_of_isDigit (h : c.isDigit = true) : Lookup.isIdentStart c = false := by
  have hc := Json.isDigit_iff.mp h
  have hnat : c.toNat = c.val.toNat := rfl
  by_contra hident
  rw [Bool.not_eq_false] at hident
  unfold Lookup.isIdentStart Char.isAlpha Char.isUpper Char.isLower at hident
  simp only [Bool.or_eq_true, decide_eq_true_eq, Bool.and_eq_true, UInt32.le_iff_toNat_le,
    ge_iff_le] at hident
  rcases hident with (rfl | rfl) | hident
  · revert h
    decide
  · revert h
    decide
  · simp at hident hc
    omega

theorem StringText.string? {written : List Char} (h : StringText quote written text)
    (hquote : quote ≠ '\\') (rest : List Char) :
    string? quote (written ++ quote :: rest) = some (text, rest) := by
  induction h with
  | nil =>
      rw [List.nil_append]
      unfold Arguments.string?
      split <;> simp_all
  | escape behind ih =>
      rw [List.cons_append, List.cons_append, Arguments.string?, ih]
      rfl
  | @char c written text noQuote noEscape behind ih =>
      rw [List.cons_append]
      unfold Arguments.string?
      split <;> simp_all

/-- A character that stands for itself outside strings. -/
structure Copied (c : Char) : Prop where
  noQuote : ¬ (c = '\'' ∨ c = '"')
  noIdent : Lookup.isIdentStart c = false

theorem Mark.copied {token : Token} (h : Mark c token) : Copied c := by
  cases h <;> exact ⟨by decide, by decide⟩

theorem Mark.token? {token : Token} (h : Mark c token) (rest : List Char) :
    Json.token? (c :: rest) = some (token, rest) := by
  cases h <;> rfl

theorem copied_of_isSpace (h : Json.isSpace c = true) : Copied c := by
  simp only [Json.isSpace, Bool.or_eq_true, decide_eq_true_eq] at h
  rcases h with ((rfl | rfl) | rfl) | rfl <;> exact ⟨by decide, by decide⟩

theorem copied_of_isDigit (h : c.isDigit = true) : Copied c where
  noQuote := by
    rintro (rfl | rfl) <;> exact absurd h (by decide)
  noIdent := isIdentStart_eq_false_of_isDigit h

theorem Word.isIdent {word : List Char} {value : RawJson} (h : Word word value) :
    Lookup.IsIdent word := by
  cases h <;> exact ⟨_, _, rfl, by decide, List.all_eq_true.mp (by decide)⟩

/-- A word is one token, with or without a blank behind it. -/
theorem Word.token? {word : List Char} {value : RawJson} (h : Word word value) (rest : List Char) :
    Json.token? (word ++ rest) = some (.scalar value, rest) := by
  cases h <;> rfl

theorem EndsScalar.copied (h : EndsScalar rest) : ∀ c, rest.head? = some c → Copied c := by
  intro c hc
  rcases h c hc with hspace | rfl | rfl | rfl
  · exact copied_of_isSpace hspace
  · exact ⟨by decide, by decide⟩
  · exact ⟨by decide, by decide⟩
  · exact ⟨by decide, by decide⟩

theorem EndsScalar.noIdent (h : EndsScalar rest) :
    ∀ c, rest.head? = some c → Lookup.isIdentRest c = false := by
  intro c hc
  rcases h c hc with hspace | rfl | rfl | rfl
  · exact Lookup.isIdentRest_eq_false (isBlank_of_isSpace hspace)
  · decide
  · decide
  · decide

theorem EndsScalar.endsNumber (h : EndsScalar rest) : Json.EndsNumber rest := by
  intro c hc
  rcases h c hc with hspace | rfl | rfl | rfl
  · simp only [Json.isSpace, Bool.or_eq_true, decide_eq_true_eq] at hspace
    rcases hspace with ((rfl | rfl) | rfl) | rfl <;> decide
  · decide
  · decide
  · decide

theorem noIdent_of_isKey (h : (Text.trimLeft rest).head? = some ':') :
    ∀ c, rest.head? = some c → Lookup.isIdentRest c = false := by
  intro c hc
  cases rest with
  | nil => cases hc
  | cons d rest =>
      cases hc
      by_cases hblank : Text.isBlank c = true
      · exact Lookup.isIdentRest_eq_false hblank
      · rw [Text.trimLeft_cons_of_not_blank (Bool.eq_false_of_not_eq_true hblank)] at h
        cases h
        decide

theorem head?_not_blank_of_numberText {literal : Json.NumberLiteral} (h : Json.NumberText text literal)
    (rest : List Char) : ∀ c, (text ++ rest).head? = some c → Text.isBlank c = false := by
  obtain ⟨d, more, rfl, hd⟩ := h.exists_cons
  intro c hc
  cases hc
  rcases hd with rfl | hdigit
  · decide
  · exact Lookup.isBlank_eq_false_of_isDigit hdigit

theorem copied_of_numberText {literal : Json.NumberLiteral} (h : Json.NumberText text literal) :
    ∀ c ∈ text, Copied c := by
  intro c hc
  rcases h.mem_cases c hc with rfl | rfl | hdigit
  · exact ⟨by decide, by decide⟩
  · exact ⟨by decide, by decide⟩
  · exact copied_of_isDigit hdigit

/-! ## Writing a literal as JSON -/

theorem toJsonText?_string {written : List Char} (hquote : quote = '\'' ∨ quote = '"')
    (h : StringText quote written text) (rest : List Char) :
    toJsonText? (quote :: (written ++ quote :: rest)) =
      (toJsonText? rest).map (Json.printString text ++ ·) := by
  have hstring := h.string? (by rcases hquote with rfl | rfl <;> decide) rest
  rw [toJsonText?, if_pos hquote]
  split <;> rename_i heq <;> rw [hstring] at heq <;> cases heq
  rfl

theorem toJsonText?_copied (h : Copied c) (rest : List Char) :
    toJsonText? (c :: rest) = (toJsonText? rest).map (c :: ·) := by
  have hident : Lookup.ident? (c :: rest) = none := by
    rw [Lookup.ident?, if_neg (by simp [h.noIdent])]
  rw [toJsonText?, if_neg h.noQuote]
  split
  · rename_i heq
    rw [hident] at heq
    cases heq
  · rfl

theorem toJsonText?_copied_append {front : List Char} (h : ∀ c ∈ front, Copied c) (rest : List Char) :
    toJsonText? (front ++ rest) = (toJsonText? rest).map (front ++ ·) := by
  induction front with
  | nil => simp
  | cons c front ih =>
      rw [List.cons_append, toJsonText?_copied (h c List.mem_cons_self),
        ih fun d hd => h d (List.mem_cons_of_mem c hd), Option.map_map]
      rfl

theorem toJsonText?_ident {name : List Char} (h : Lookup.IsIdent name)
    (hrest : ∀ c, rest.head? = some c → Lookup.isIdentRest c = false) :
    toJsonText? (name ++ rest) = (toJsonText? (Text.trimLeft rest)).map fun out =>
      if (Text.trimLeft rest).head? = some ':' then Json.printString name ++ out
      else name ++ ' ' :: out := by
  have hident := h.ident? hrest
  obtain ⟨c, more, rfl, hc, _⟩ := h
  have hquote : ¬ (c = '\'' ∨ c = '"') := by
    rintro (rfl | rfl) <;> exact absurd hc (by decide)
  rw [List.cons_append] at hident ⊢
  rw [toJsonText?, if_neg hquote]
  split <;> rename_i heq <;> rw [hident] at heq <;> cases heq
  rw [String.toList_ofList]

/-- What ends a word or a number starts with the same character when it is written as JSON. -/
theorem EndsScalar.rewritten (h : EndsScalar rest) {out : List Char}
    (hout : toJsonText? rest = some out) : EndsScalar out := by
  cases rest with
  | nil =>
      rw [toJsonText?] at hout
      cases hout
      exact h
  | cons c rest =>
      rw [toJsonText?_copied (h.copied c rfl), Option.map_eq_some_iff] at hout
      obtain ⟨out, _, rfl⟩ := hout
      exact fun d hd => h d hd

/-- A text is written as JSON with the same tokens. -/
def Rewritten (text : List Char) (tokens : List Token) : Prop :=
  ∃ out, toJsonText? text = some out ∧ Lexes out tokens

theorem Rewritten.trimLeft (h : Rewritten text tokens)
    (hhead : ∀ c, text.head? = some c → Text.isBlank c = false) :
    Rewritten text tokens ∧ Rewritten (Text.trimLeft text) tokens := by
  refine ⟨h, ?_⟩
  rw [Text.trimLeft, Text.dropWhile_eq_self hhead]
  exact h

theorem Word.lexes {word out : List Char} {value : RawJson} {tokens : List Token}
    (h : Word word value) (hout : Lexes out tokens) :
    Lexes (word ++ ' ' :: out) (.scalar value :: tokens) := by
  cases h <;> exact .token (by decide) rfl (.space (by decide) hout)

theorem lexes_number {text out : List Char} {literal : Json.NumberLiteral} {tokens : List Token}
    (h : Json.NumberText text literal) (hends : EndsScalar out) (hout : Lexes out tokens) :
    Lexes (text ++ out) (.scalar (.number literal.value?) :: tokens) := by
  have htoken := h.token? hends.endsNumber
  have hblank := head?_not_blank_of_numberText h out
  obtain ⟨c, rest, rfl, _⟩ := h.exists_cons
  exact .token (isSpace_eq_false_of_not_blank (hblank c rfl)) htoken hout

/-- What is written for tokens is written as JSON with these tokens, also when blanks before it are left
out, as is done behind a name. -/
theorem Spelled.rewritten (h : Spelled text tokens strings) :
    Rewritten text tokens ∧ Rewritten (Text.trimLeft text) tokens := by
  induction h with
  | nil =>
      have hnil : Rewritten [] [] := ⟨[], by rw [toJsonText?], .nil⟩
      exact hnil.trimLeft (by simp)
  | @space c rest tokens strings isSpace behind ih =>
      obtain ⟨⟨out, hout, hlexes⟩, htrim⟩ := ih
      have hblank : Text.trimLeft (c :: rest) = Text.trimLeft rest := by
        simp [Text.trimLeft, isBlank_of_isSpace isSpace]
      rw [hblank]
      refine ⟨⟨c :: out, ?_, .space isSpace hlexes⟩, htrim⟩
      rw [toJsonText?_copied (copied_of_isSpace isSpace), hout]
      rfl
  | @mark c token rest tokens strings isMark behind ih =>
      obtain ⟨⟨out, hout, hlexes⟩, _⟩ := ih
      have hmark : Rewritten (c :: rest) (token :: tokens) := by
        refine ⟨c :: out, ?_, .token ?_ (isMark.token? out) hlexes⟩
        · rw [toJsonText?_copied isMark.copied, hout]
          rfl
        · cases isMark <;> decide
      refine hmark.trimLeft fun d hd => ?_
      cases hd
      cases isMark <;> decide
  | @string quote written text rest tokens strings isQuote inside behind ih =>
      obtain ⟨⟨out, hout, hlexes⟩, _⟩ := ih
      have hstring : Rewritten (quote :: (written ++ quote :: rest))
          (.scalar (.string (some (String.ofList text))) :: tokens) := by
        refine ⟨Json.printString text ++ out, ?_, Json.lexes_printString hlexes⟩
        rw [toJsonText?_string isQuote inside, hout]
        rfl
      refine hstring.trimLeft fun d hd => ?_
      cases hd
      rcases isQuote with rfl | rfl <;> decide
  | @key name rest tokens strings ident isKey behind ih =>
      obtain ⟨_, out, hout, hlexes⟩ := ih
      have hkey : Rewritten (name ++ rest)
          (.scalar (.string (some (String.ofList name))) :: tokens) := by
        refine ⟨Json.printString name ++ out, ?_, Json.lexes_printString hlexes⟩
        rw [toJsonText?_ident ident (noIdent_of_isKey isKey), hout, Option.map_some, if_pos isKey]
      exact hkey.trimLeft (ident.head?_not_blank rest)
  | @word word rest value tokens strings isWord ends noKey behind ih =>
      obtain ⟨_, out, hout, hlexes⟩ := ih
      have hword : Rewritten (word ++ rest) (.scalar value :: tokens) := by
        refine ⟨word ++ ' ' :: out, ?_, isWord.lexes hlexes⟩
        rw [toJsonText?_ident isWord.isIdent ends.noIdent, hout, Option.map_some, if_neg noKey]
      exact hword.trimLeft (isWord.isIdent.head?_not_blank rest)
  | @number text rest literal tokens strings isNumber ends behind ih =>
      obtain ⟨⟨out, hout, hlexes⟩, _⟩ := ih
      have hnumber : Rewritten (text ++ rest) (.scalar (.number literal.value?) :: tokens) := by
        refine ⟨text ++ out, ?_, lexes_number isNumber (ends.rewritten hout) hlexes⟩
        rw [toJsonText?_copied_append (copied_of_numberText isNumber), hout]
        rfl
      exact hnumber.trimLeft (head?_not_blank_of_numberText isNumber rest)

/-- A literal is read as what it is written as in JSON. -/
theorem parse_eq_ok {literal out : List Char} {fields : JsonFields}
    (hout : toJsonText? literal = some out) (hread : Json.read out = .ok (.object fields)) :
    parse literal = .ok fields := by
  unfold parse
  rw [hout]
  dsimp only
  rw [hread]

/-- However an object is written, its fields are read: each key once, with the value that is written last. -/
theorem Spelled.parse {fields : List (String × Json)}
    (h : Spelled text (Json.tokens (.object fields)) strings)
    (hdepth : Json.depth (.object fields) ≤ Json.depthLimit) :
    parse text = .ok (JsonFields.ofList (Json.orderedFields fields)) := by
  obtain ⟨⟨out, hout, hlexes⟩, _⟩ := h.rewritten
  exact parse_eq_ok hout (Json.read_eq_ok hlexes hdepth)

theorem ObjectText.parse {literal : List Char} {fields : List (String × Json)}
    (h : ObjectText literal fields strings) :
    parse literal = .ok (JsonFields.ofList (Json.orderedFields fields)) :=
  h.spelled.parse h.depth

/-! ## Braces of a literal -/

theorem not_closable_of_head (hblank : ∀ c, text.head? = some c → Text.isBlank c = false)
    (hbracket : ')' ∉ text.head?) : ¬ Directive.Closable text := by
  rintro ⟨blanks, close, trims, more, hblanks, hclose, rfl⟩
  obtain ⟨tail, rfl⟩ := hclose.exists_cons
  cases blanks with
  | nil => exact hbracket rfl
  | cons b blanks =>
      have hb := hblanks b List.mem_cons_self
      rw [hblank b rfl] at hb
      cases hb

theorem closable_cons_of_blank (h : Text.isBlank c = true) (hclose : Directive.Closable (c :: rest)) :
    Directive.Closable rest := by
  obtain ⟨blanks, close, trims, more, hblanks, hclose, heq⟩ := hclose
  cases blanks with
  | nil =>
      obtain ⟨tail, rfl⟩ := hclose.exists_cons
      cases heq
      exact absurd h (by decide)
  | cons b blanks =>
      cases heq
      exact ⟨blanks, close, trims, more, fun d hd => hblanks d (List.mem_cons_of_mem c hd), hclose, rfl⟩

/-- No part of a literal but its strings starts with a bracket that closes a directive. -/
theorem Spelled.not_closable (h : Spelled text tokens strings) : ¬ Directive.Closable text := by
  induction h with
  | nil =>
      rintro ⟨blanks, close, trims, more, _, hclose, heq⟩
      obtain ⟨tail, rfl⟩ := hclose.exists_cons
      simp at heq
  | space isSpace behind ih => exact fun hclose => ih (closable_cons_of_blank (isBlank_of_isSpace isSpace) hclose)
  | mark isMark behind ih =>
      refine not_closable_of_head (fun d hd => ?_) ?_
      · cases hd
        cases isMark <;> decide
      · cases isMark <;> simp
  | string isQuote inside behind ih =>
      refine not_closable_of_head (fun d hd => ?_) ?_
      · cases hd
        rcases isQuote with rfl | rfl <;> decide
      · rcases isQuote with rfl | rfl <;> simp
  | key ident isKey behind ih =>
      refine not_closable_of_head (ident.head?_not_blank _) ?_
      obtain ⟨c, more, rfl, hc, _⟩ := ident
      rintro ⟨⟩
      exact absurd hc (by decide)
  | word isWord ends noKey behind ih =>
      refine not_closable_of_head (isWord.isIdent.head?_not_blank _) ?_
      cases isWord <;> simp
  | number isNumber ends behind ih =>
      refine not_closable_of_head (head?_not_blank_of_numberText isNumber _) ?_
      obtain ⟨c, more, rfl, hc⟩ := isNumber.exists_cons
      rintro ⟨⟩
      exact absurd hc (by decide)

theorem brace_not_mem_of_numberText {literal : Json.NumberLiteral} (h : Json.NumberText text literal) :
    '\x7d' ∉ text := by
  intro hmem
  rcases h.mem_cases _ hmem with hc | hc | hc <;> exact absurd hc (by decide)

/-- A close behind a brace of a literal stands in the same string as the brace. -/
theorem Spelled.exists_string (h : Spelled text tokens strings) {before behind : List Char}
    (htext : text = before ++ '\x7d' :: behind) (hclose : Directive.Closable behind) :
    ∃ string ∈ strings, ∃ front more, string = front ++ '\x7d' :: more ∧ Directive.Closable more := by
  induction h generalizing before with
  | nil => simp at htext
  | space isSpace behind ih =>
      cases before with
      | nil =>
          cases htext
          exact absurd isSpace (by decide)
      | cons d before => exact ih (List.cons.inj htext).2
  | mark isMark behind ih =>
      cases before with
      | nil =>
          cases htext
          exact absurd hclose behind.not_closable
      | cons d before => exact ih (List.cons.inj htext).2
  | @string quote written text rest tokens strings isQuote inside behind' ih =>
      have hquote : quote ≠ '\x7d' := by rcases isQuote with rfl | rfl <;> decide
      have hrest {middle : List Char} (hmiddle : quote :: rest = middle ++ '\x7d' :: behind) :
          ∃ string ∈ written :: strings, ∃ front more, string = front ++ '\x7d' :: more ∧
            Directive.Closable more := by
        cases middle with
        | nil => exact absurd (List.cons.inj hmiddle).1 hquote
        | cons d middle =>
            obtain ⟨string, hmem, hstring⟩ := ih (List.cons.inj hmiddle).2
            exact ⟨string, List.mem_cons_of_mem written hmem, hstring⟩
      cases before with
      | nil => exact absurd (List.cons.inj htext).1 hquote
      | cons d before =>
          rcases List.append_eq_append_iff.mp (List.cons.inj htext).2 with
            ⟨middle, _, hmiddle⟩ | ⟨middle, hwritten, hmiddle⟩
          · exact hrest hmiddle
          · cases middle with
            | nil => exact @hrest [] hmiddle.symm
            | cons e middle =>
                obtain ⟨rfl, rfl⟩ := List.cons.inj hmiddle
                refine ⟨written, List.mem_cons_self, before, middle, hwritten, ?_⟩
                refine (Directive.closable_append_cons ?_ ?_ rest).mp hclose
                · rcases isQuote with rfl | rfl <;> decide
                · rcases isQuote with rfl | rfl <;> decide
  | key ident isKey behind ih =>
      obtain ⟨middle, _, hmiddle⟩ := Text.exists_append_of_not_mem (ident.not_mem (by decide)) htext
      exact ih hmiddle
  | word isWord ends noKey behind ih =>
      obtain ⟨middle, _, hmiddle⟩ :=
        Text.exists_append_of_not_mem (isWord.isIdent.not_mem (by decide)) htext
      exact ih hmiddle
  | number isNumber ends behind ih =>
      obtain ⟨middle, _, hmiddle⟩ :=
        Text.exists_append_of_not_mem (brace_not_mem_of_numberText isNumber) htext
      exact ih hmiddle

theorem Spelled.isInfix (h : Spelled text tokens strings) {string : List Char} (hmem : string ∈ strings) :
    string <:+: text := by
  induction h with
  | nil => cases hmem
  | space isSpace behind ih => exact (ih hmem).trans (List.suffix_cons _ _).isInfix
  | mark isMark behind ih => exact (ih hmem).trans (List.suffix_cons _ _).isInfix
  | @string quote written text rest tokens strings isQuote inside behind ih =>
      rcases List.mem_cons.mp hmem with rfl | hmem
      · exact ⟨[quote], quote :: rest, by simp⟩
      · refine (ih hmem).trans (List.IsSuffix.isInfix ⟨quote :: (written ++ [quote]), by simp⟩)
  | key ident isKey behind ih => exact (ih hmem).trans (List.suffix_append _ _).isInfix
  | word isWord ends noKey behind ih => exact (ih hmem).trans (List.suffix_append _ _).isInfix
  | number isNumber ends behind ih => exact (ih hmem).trans (List.suffix_append _ _).isInfix

/-- A string ends no directive: there is no close behind any of its braces. -/
def Harmless (string : List Char) : Prop :=
  ∀ front more, string = front ++ '\x7d' :: more → ¬ Directive.Closable more

theorem harmless_iff {string : List Char} : Harmless string ↔
    ∀ rest ∈ string.tails, rest.head? = some '\x7d' → ¬ Directive.Closable rest.tail := by
  simp only [List.mem_tails]
  constructor
  · rintro h (_ | ⟨c, more⟩) ⟨front, hfront⟩ hhead
    · cases hhead
    · cases hhead
      exact h front more hfront.symm
  · rintro h front more rfl
    exact h ('\x7d' :: more) (List.suffix_append front _) rfl

instance (string : List Char) : Decidable (Harmless string) :=
  decidable_of_iff _ harmless_iff.symm

/-- The literal of an object is an argument literal of a directive exactly when none of its strings ends a
directive. -/
theorem ObjectText.literalText_iff {literal : List Char} {fields : List (String × Json)}
    (h : ObjectText literal fields strings) :
    Directive.LiteralText literal ↔ ∀ string ∈ strings, Harmless string := by
  constructor
  · intro hliteral string hmem front more hstring hclose
    obtain ⟨before, behind, hinside⟩ := h.spelled.isInfix hmem
    obtain ⟨blanks, close, trims, rest, hblanks, hclosed, rfl⟩ := hclose
    refine hliteral.first (before ++ front) (blanks ++ (close ++ rest) ++ behind) ?_
      ⟨blanks, close, trims, rest ++ behind, hblanks, hclosed, by simp⟩
    rw [← hinside, hstring]
    simp
  · intro hall
    refine ⟨h.braces, fun front rest hliteral hclose => ?_⟩
    obtain ⟨string, hmem, before, more, hstring, hmore⟩ := h.spelled.exists_string hliteral hclose
    exact hall string hmem before more hstring hmore

end SiteServer.Template.Arguments
