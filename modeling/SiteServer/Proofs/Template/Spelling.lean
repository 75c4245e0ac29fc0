import SiteServer.Proofs.Template.Directive

/-! # How a directive is written.

A directive consists of an opening up to the bracket, a reference in quotes, perhaps an argument literal, and
a close, with blanks between them. The reference ends at the first quote of its kind, and the literal at the
first brace that a close could follow. What `read?` finds at the start of a text is exactly such a form. -/

namespace SiteServer.Template

namespace Directive

/-! ## The form of a directive -/

def Blank (text : List Char) : Prop :=
  ∀ c ∈ text, Text.isBlank c = true

instance (text : List Char) : Decidable (Blank text) :=
  decidable_of_iff (text.all Text.isBlank = true) List.all_eq_true

/-- What comes before the reference. -/
inductive OpeningText : List Char → Prop where
  | intro {b₁ b₂ b₃ : List Char} (h₁ : Blank b₁) (h₂ : Blank b₂) (h₃ : Blank b₃) :
      OpeningText (['<', '%', '-'] ++ (b₁ ++ ("include".toList ++ (b₂ ++ '(' :: b₃))))

/-- A reference between two quotes of one kind, which is not in it. -/
inductive QuotedText : List Char → List Char → Prop where
  | intro {quote : Char} {reference : List Char} (isQuote : quote = '\'' ∨ quote = '"')
      (noQuote : quote ∉ reference) : QuotedText (quote :: (reference ++ [quote])) reference

/-- The close of a directive, from the bracket on. -/
inductive CloseText : List Char → Bool → Prop where
  | plain {blanks : List Char} (h : Blank blanks) : CloseText (')' :: (blanks ++ ['%', '>'])) false
  | dash {blanks : List Char} (h : Blank blanks) :
      CloseText (')' :: (blanks ++ ['-', '%', '>'])) true

/-- A text starts with a close, blanks before it aside. -/
def Closable (text : List Char) : Prop :=
  ∃ blanks close trims rest, Blank blanks ∧ CloseText close trims ∧ text = blanks ++ (close ++ rest)

/-- An argument literal: it ends with a brace, and no brace before that has a close behind it. -/
structure LiteralText (literal : List Char) : Prop where
  braces : ∃ body, literal = '\x7b' :: (body ++ ['\x7d'])
  first : ∀ front rest, literal = front ++ '\x7d' :: rest → ¬ Closable rest

/-- What may stand between the reference and the close: nothing, or a comma and an argument literal. -/
inductive ArgumentText : List Char → Option (List Char) → Prop where
  | none : ArgumentText [] none
  | some {b₁ b₂ literal : List Char} (h₁ : Blank b₁) (h₂ : Blank b₂) (h : LiteralText literal) :
      ArgumentText (b₁ ++ ',' :: (b₂ ++ literal)) (some literal)

/-- A directive as it is written, with what it refers to, its argument literal, and whether its close takes
a line end along. -/
inductive Written : List Char → String → Option (List Char) → Bool → Prop where
  | intro {opening quoted reference argument blanks close : List Char} {literal : Option (List Char)}
      {trims : Bool} (hopening : OpeningText opening) (hquoted : QuotedText quoted reference)
      (hargument : ArgumentText argument literal) (hblanks : Blank blanks)
      (hclose : CloseText close trims) :
      Written (opening ++ (quoted ++ (argument ++ (blanks ++ close)))) (String.ofList reference)
        literal trims

/-- The fields of an argument literal that is not refused. -/
inductive Accepted : Option (List Char) → Option JsonFields → Prop where
  | none : Accepted none none
  | some {literal : List Char} {fields : JsonFields} (h : Arguments.parse literal = .ok fields) :
      Accepted (some literal) (some fields)

variable {text after left rest : List Char} {trims : Bool} {d : Directive}

/-- Every directive starts with the same words. -/
theorem Written.exists_core {written : List Char} {reference : String} {literal : Option (List Char)}
    (h : Written written reference literal trims) : ∃ blanks more, Blank blanks ∧
      written = ['<', '%', '-'] ++ (blanks ++ "include".toList) ++ more := by
  obtain ⟨⟨hblanks, _, _⟩, _, _, _, _⟩ := h
  simp only [List.append_assoc]
  exact ⟨_, _, hblanks, rfl⟩

/-! ## Reading the parts -/

theorem close?_eq_some_iff_closeText : close? text = some (trims, after) ↔
    ∃ blanks close, Blank blanks ∧ CloseText close trims ∧ text = blanks ++ (close ++ after) := by
  rw [close?_eq_some_iff]
  constructor
  · rintro ⟨_, ⟨outer, inner, houter, hinner, rfl⟩, rfl⟩
    cases trims with
    | true => exact ⟨outer, _, houter, .dash hinner, by simp⟩
    | false => exact ⟨outer, _, houter, .plain hinner, by simp⟩
  · rintro ⟨outer, close, houter, hclose, rfl⟩
    cases hclose with
    | @plain inner hinner => exact ⟨_, ⟨outer, inner, houter, hinner, rfl⟩, by simp⟩
    | @dash inner hinner => exact ⟨_, ⟨outer, inner, houter, hinner, rfl⟩, by simp⟩

theorem closable_iff : Closable text ↔ ∃ trims after, close? text = some (trims, after) := by
  simp only [close?_eq_some_iff_closeText]
  constructor
  · rintro ⟨blanks, close, trims, rest, h⟩
    exact ⟨trims, rest, blanks, close, h⟩
  · rintro ⟨trims, rest, blanks, close, h⟩
    exact ⟨blanks, close, trims, rest, h⟩

instance : Decidable (Closable text) :=
  decidable_of_iff ((close? text).isSome = true) (by
    rw [closable_iff, Option.isSome_iff_exists, Prod.exists])

theorem not_closable_iff : ¬ Closable text ↔ close? text = none := by
  rw [closable_iff, Option.eq_none_iff_forall_ne_some]
  simp

/-- No close goes over a character that is in none. -/
theorem closable_append_cons {c : Char} (hblank : Text.isBlank c = false)
    (hnone : c ∉ [')', '-', '%', '>']) (more : List Char) :
    Closable (text ++ c :: more) ↔ Closable text := by
  constructor
  · rintro ⟨blanks, close, trims, rest, hblanks, hclose, heq⟩
    have hmem : c ∉ blanks ++ close := by
      have hnot {b : List Char} (hb : Blank b) : c ∉ b := by
        intro hmem
        rw [hb c hmem] at hblank
        cases hblank
      simp only [List.mem_cons, not_or] at hnone
      cases hclose with
      | plain h => simp [hnot hblanks, hnot h, hnone]
      | dash h => simp [hnot hblanks, hnot h, hnone]
    rw [← List.append_assoc] at heq
    rcases List.append_eq_append_iff.mp heq with ⟨gap, hgap, htail⟩ | ⟨gap, hgap, _⟩
    · cases gap with
      | nil =>
          rw [List.append_nil] at hgap
          exact ⟨blanks, close, trims, [], hblanks, hclose, by simp [hgap]⟩
      | cons d gap =>
          obtain ⟨rfl, _⟩ := List.cons.inj htail
          exact absurd (hgap ▸ List.mem_append_right text List.mem_cons_self) hmem
    · exact ⟨blanks, close, trims, gap, hblanks, hclose, by rw [hgap, List.append_assoc]⟩
  · rintro ⟨blanks, close, trims, rest, hblanks, hclose, rfl⟩
    exact ⟨blanks, close, trims, rest ++ c :: more, hblanks, hclose, by simp⟩

theorem closable_append_brace (more : List Char) :
    Closable (text ++ '\x7d' :: more) ↔ Closable text :=
  closable_append_cons (by decide) (by decide) more

theorem literalBody?_eq_some_iff {body : List Char} :
    literalBody? text = some (body, trims, after) ↔
      ∃ inner behind, body = inner ++ ['\x7d'] ∧ text = inner ++ '\x7d' :: behind ∧
        close? behind = some (trims, after) ∧
        ∀ front more, inner = front ++ '\x7d' :: more → ¬ Closable more := by
  induction text generalizing body with
  | nil => simp [literalBody?]
  | cons c rest ih =>
      rw [literalBody?]
      constructor
      · intro h
        split at h
        · rename_i hclose
          cases h
          by_cases hc : c = '\x7d'
          · subst hc
            rw [if_pos rfl] at hclose
            exact ⟨[], rest, rfl, rfl, hclose, by simp⟩
          · rw [if_neg hc] at hclose
            cases hclose
        · rename_i hnone
          simp only [Option.map_eq_some_iff, Prod.mk.injEq, Prod.exists] at h
          obtain ⟨_, _, _, hbody, rfl, rfl, rfl⟩ := h
          obtain ⟨inner, behind, rfl, rfl, hclose, hfirst⟩ := ih.mp hbody
          refine ⟨c :: inner, behind, rfl, rfl, hclose, ?_⟩
          intro front more heq
          cases front with
          | nil =>
              obtain ⟨rfl, rfl⟩ := List.cons.inj heq
              rw [if_pos rfl] at hnone
              rwa [← closable_append_brace behind, not_closable_iff]
          | cons e front => exact hfirst front more (List.cons.inj heq).2
      · rintro ⟨inner, behind, rfl, htext, hclose, hfirst⟩
        cases inner with
        | nil =>
            obtain ⟨rfl, rfl⟩ := List.cons.inj htext
            rw [if_pos rfl, hclose]
            rfl
        | cons e inner =>
            rw [List.cons_append] at htext
            obtain ⟨rfl, rfl⟩ := List.cons.inj htext
            have hrest := ih.mpr ⟨inner, behind, rfl, rfl, hclose,
              fun front more heq => hfirst (c :: front) more (congrArg (c :: ·) heq)⟩
            have hnone : (if c = '\x7d' then close? (inner ++ '\x7d' :: behind) else none) = none := by
              split
              · rename_i hc
                subst hc
                rw [← not_closable_iff, closable_append_brace]
                exact hfirst [] inner rfl
              · rfl
            rw [hnone]
            simp [hrest]

theorem literalText_iff {inner : List Char} : LiteralText ('\x7b' :: (inner ++ ['\x7d'])) ↔
    ∀ front more, inner = front ++ '\x7d' :: more → ¬ Closable more := by
  constructor
  · rintro h front more rfl
    rw [← closable_append_brace []]
    exact h.first ('\x7b' :: front) (more ++ ['\x7d']) (by simp)
  · intro h
    refine ⟨⟨inner, rfl⟩, ?_⟩
    intro front rest heq
    cases front with
    | nil => cases (List.cons.inj heq).1
    | cons c front =>
        rw [List.cons_append] at heq
        obtain ⟨_, htail⟩ := List.cons.inj heq
        rcases List.eq_nil_or_concat rest with rfl | ⟨more, e, rfl⟩
        · rw [not_closable_iff]
          rfl
        · rw [List.concat_eq_append, ← List.cons_append, ← List.append_assoc] at htail
          obtain ⟨hinner, hlast⟩ := List.append_inj' htail rfl
          cases hlast
          rw [List.concat_eq_append, closable_append_brace]
          exact h front more hinner

theorem quoted?_eq_some_iff {reference : List Char} :
    quoted? text = some (reference, after) ↔
      ∃ quoted, QuotedText quoted reference ∧ text = quoted ++ after := by
  constructor
  · intro h
    cases text with
    | nil => cases h
    | cons q rest =>
        rw [quoted?] at h
        split at h
        · rename_i hq
          split at h
          · rename_i c tail heq
            cases h
            have hc : c = q := by
              have hhead := List.head?_dropWhile_not (fun d : Char => decide (d ≠ q)) rest
              rw [heq] at hhead
              simpa using hhead
            refine ⟨_, .intro hq (fun hmem => ?_), ?_⟩
            · simpa using List.mem_takeWhile_imp hmem
            · have happend := rest.takeWhile_append_dropWhile (p := fun d : Char => decide (d ≠ q))
              rw [heq, hc] at happend
              conv_lhs => rw [← happend]
              simp
          · cases h
        · cases h
  · rintro ⟨_, ⟨hq, hnot⟩, rfl⟩
    rename_i quote
    have hall : ∀ c ∈ reference, decide (c ≠ quote) = true := by
      intro c hc
      rw [decide_eq_true_eq]
      rintro rfl
      exact hnot hc
    have hquote : decide (quote ≠ quote) = false := by simp
    rw [List.cons_append, List.append_assoc, quoted?, if_pos hq, List.dropWhile_append_of_pos hall,
      List.takeWhile_append_of_pos hall]
    simp

theorem opening?_eq_some_iff : opening? text = some rest ↔
    ∃ opening, OpeningText opening ∧ text = opening ++ rest ∧
      ∀ c, rest.head? = some c → Text.isBlank c = false := by
  simp only [opening?, Option.bind_eq_bind, Option.bind_eq_some_iff, Option.pure_def,
    Option.some.injEq, Text.dropLead?_eq_some_iff]
  constructor
  · rintro ⟨r₁, rfl, r₂, h₂, r₃, h₃, rfl⟩
    obtain ⟨b₁, hb₁, hr₁⟩ := Text.exists_eq_append_trimLeft r₁
    obtain ⟨b₂, hb₂, hr₂⟩ := Text.exists_eq_append_trimLeft r₂
    obtain ⟨b₃, hb₃, hr₃⟩ := Text.exists_eq_append_trimLeft r₃
    refine ⟨_, .intro hb₁ hb₂ hb₃, ?_, fun c hc => Text.head?_trimLeft_not_blank hc⟩
    conv_lhs => rw [hr₁, h₂, hr₂, h₃, hr₃]
    simp
  · rintro ⟨_, ⟨hb₁, hb₂, hb₃⟩, rfl, hrest⟩
    rename_i b₁ b₂ b₃
    refine ⟨b₁ ++ ("include".toList ++ (b₂ ++ '(' :: (b₃ ++ rest))), by simp,
      b₂ ++ '(' :: (b₃ ++ rest), ?_, b₃ ++ rest, ?_, ?_⟩
    · rw [Text.trimLeft_append_of_blank hb₁]
      exact Text.trimLeft_cons_of_not_blank (by decide) _
    · rw [Text.trimLeft_append_of_blank hb₂]
      exact Text.trimLeft_cons_of_not_blank (by decide) _
    · rw [Text.trimLeft_append_of_blank hb₃]
      exact Text.dropWhile_eq_self hrest

theorem CloseText.exists_cons {close : List Char} (h : CloseText close trims) :
    ∃ tail, close = ')' :: tail := by
  cases h with
  | plain => exact ⟨_, rfl⟩
  | dash => exact ⟨_, rfl⟩

theorem ending?_eq_some_iff {literal : Option (List Char)} :
    ending? text = some (literal, trims, after) ↔
      ∃ argument blanks close, ArgumentText argument literal ∧ Blank blanks ∧ CloseText close trims ∧
        text = argument ++ (blanks ++ (close ++ after)) := by
  constructor
  · intro h
    unfold ending? at h
    obtain ⟨b₁, hb₁, htext⟩ := Text.exists_eq_append_trimLeft text
    split at h
    · rename_i rest heq
      obtain ⟨b₂, hb₂, hrest⟩ := Text.exists_eq_append_trimLeft rest
      split at h
      · rename_i body heq'
        simp only [Option.map_eq_some_iff, Prod.mk.injEq, Prod.exists] at h
        obtain ⟨_, _, _, hbody, rfl, rfl, rfl⟩ := h
        obtain ⟨inner, behind, rfl, rfl, hclose, hfirst⟩ := literalBody?_eq_some_iff.mp hbody
        obtain ⟨blanks, close, hblanks, hclosed, rfl⟩ := close?_eq_some_iff_closeText.mp hclose
        refine ⟨_, blanks, close, .some hb₁ hb₂ (literalText_iff.mpr hfirst), hblanks, hclosed, ?_⟩
        rw [htext, heq, hrest, heq']
        simp
      · cases h
    · simp only [Option.map_eq_some_iff, Prod.mk.injEq, Prod.exists] at h
      obtain ⟨_, _, hclose, rfl, rfl, rfl⟩ := h
      obtain ⟨blanks, close, hblanks, hclosed, heq⟩ := close?_eq_some_iff_closeText.mp hclose
      refine ⟨[], b₁ ++ blanks, close, .none, ?_, hclosed, ?_⟩
      · intro c hc
        exact (List.mem_append.mp hc).elim (hb₁ c) (hblanks c)
      · rw [htext, heq]
        simp
  · rintro ⟨argument, blanks, close, hargument, hblanks, hclose, rfl⟩
    cases hargument with
    | none =>
        have hclosed : close? (close ++ after) = some (trims, after) :=
          close?_eq_some_iff_closeText.mpr ⟨[], close, by simp [Blank], hclose, rfl⟩
        obtain ⟨tail, rfl⟩ := hclose.exists_cons
        rw [List.cons_append] at hclosed
        unfold ending?
        rw [List.nil_append, Text.trimLeft_append_of_blank hblanks, List.cons_append,
          Text.trimLeft_cons_of_not_blank (by decide)]
        simp [hclosed]
    | @some b₁ b₂ literal h₁ h₂ h =>
        obtain ⟨inner, rfl⟩ := h.braces
        have hclosed : close? (blanks ++ (close ++ after)) = some (trims, after) :=
          close?_eq_some_iff_closeText.mpr ⟨blanks, close, hblanks, hclose, rfl⟩
        have hbody := literalBody?_eq_some_iff.mpr
          ⟨inner, _, rfl, rfl, hclosed, literalText_iff.mp h⟩
        have htext : b₁ ++ ',' :: (b₂ ++ '\x7b' :: (inner ++ ['\x7d'])) ++
            (blanks ++ (close ++ after)) =
            b₁ ++ ',' :: (b₂ ++ '\x7b' :: (inner ++ '\x7d' :: (blanks ++ (close ++ after)))) := by
          simp
        have hbrace (rest : List Char) : Text.trimLeft (b₂ ++ '\x7b' :: rest) = '\x7b' :: rest := by
          rw [Text.trimLeft_append_of_blank h₂, Text.trimLeft_cons_of_not_blank (by decide)]
        unfold ending?
        rw [htext, Text.trimLeft_append_of_blank h₁, Text.trimLeft_cons_of_not_blank (by decide)]
        simp [hbrace, hbody]

theorem QuotedText.head?_not_blank {quoted reference : List Char} (h : QuotedText quoted reference)
    (more : List Char) : ∀ c, (quoted ++ more).head? = some c → Text.isBlank c = false := by
  obtain ⟨hquote, _⟩ := h
  intro c hc
  rw [List.cons_append, List.head?_cons, Option.some.injEq] at hc
  subst hc
  rcases hquote with rfl | rfl <;> decide

/-- The line end that a directive takes along, if it takes one. -/
def taken (trims : Bool) (after : List Char) : List Char :=
  if trims then Text.lineEnd after else []

/-- What a directive leaves of the text behind it. -/
def remaining (trims : Bool) (after : List Char) : List Char :=
  if trims then Text.dropLineEnd after else after

theorem taken_append_remaining (trims : Bool) (after : List Char) :
    taken trims after ++ remaining trims after = after := by
  cases trims with
  | true => exact Text.lineEnd_append_dropLineEnd after
  | false => rfl

/-- What is read at the start of a text is a directive as it is written, with the line end that it takes
along. -/
theorem read?_eq_some_iff : read? text = some (d, left) ↔
    ∃ written trims after, Written written d.reference d.literal trims ∧ text = written ++ after ∧
      d.source = written ++ taken trims after ∧ left = remaining trims after := by
  have htake (written : List Char) (trims : Bool) (after : List Char) :
      (written ++ after).take ((written ++ after).length - (remaining trims after).length) =
        written ++ taken trims after := by
    have hsplit : written ++ after =
        (written ++ taken trims after) ++ remaining trims after := by
      rw [List.append_assoc, taken_append_remaining]
    rw [hsplit, List.length_append, Nat.add_sub_cancel, List.take_left]
  simp only [read?, Option.bind_eq_bind, Option.bind_eq_some_iff, Option.pure_def,
    Option.some.injEq, Prod.mk.injEq, Prod.exists]
  constructor
  · rintro ⟨r₁, h₁, reference, r₂, h₂, literal, trims, after, h₃, rfl, rfl⟩
    obtain ⟨opening, hopening, rfl, _⟩ := opening?_eq_some_iff.mp h₁
    obtain ⟨quoted, hquoted, rfl⟩ := quoted?_eq_some_iff.mp h₂
    obtain ⟨argument, blanks, close, hargument, hblanks, hclose, rfl⟩ := ending?_eq_some_iff.mp h₃
    have htext : opening ++ (quoted ++ (argument ++ (blanks ++ (close ++ after)))) =
        opening ++ (quoted ++ (argument ++ (blanks ++ close))) ++ after := by
      simp
    refine ⟨_, trims, after, .intro hopening hquoted hargument hblanks hclose, htext, ?_, rfl⟩
    rw [htext]
    exact htake _ trims after
  · rintro ⟨written, trims, after, hwritten, rfl, hsource, rfl⟩
    obtain ⟨source, reference, literal⟩ := d
    dsimp only at hwritten hsource
    subst hsource
    obtain ⟨hopening, hquoted, hargument, hblanks, hclose⟩ := hwritten
    rename_i opening quoted reference argument blanks close
    refine ⟨quoted ++ (argument ++ (blanks ++ (close ++ after))), ?_, reference,
      argument ++ (blanks ++ (close ++ after)), ?_, literal, trims, after, ?_, ?_, rfl⟩
    · exact opening?_eq_some_iff.mpr ⟨opening, hopening, by simp, hquoted.head?_not_blank _⟩
    · exact quoted?_eq_some_iff.mpr ⟨quoted, hquoted, rfl⟩
    · exact ending?_eq_some_iff.mpr ⟨argument, blanks, close, hargument, hblanks, hclose, rfl⟩
    · exact congrArg (Directive.mk · _ _) (htake _ trims after)

/-- A directive is read as it is written, whatever stands behind it. -/
theorem Written.read? {written : List Char} {reference : String} {literal : Option (List Char)}
    (h : Written written reference literal trims) (after : List Char) :
    read? (written ++ after) =
      some (⟨written ++ taken trims after, reference, literal⟩, remaining trims after) :=
  read?_eq_some_iff.mpr ⟨written, trims, after, h, rfl, rfl, rfl⟩

end Directive

end SiteServer.Template
