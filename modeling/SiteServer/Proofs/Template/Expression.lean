import Mathlib.Data.Nat.Digits.Defs
import SiteServer.Proofs.Template.Lookup

/-! # The grammar of lookups.

A lookup is an identifier and steps: a dot with another identifier, or brackets around a place in decimal
digits or a key in quotes. The brackets end at the first one that closes, and blanks count neither inside
them nor around the whole. What `parse?` reads is exactly that. -/

namespace SiteServer.Template.Lookup

/-! ## The grammar -/

def IsIdent (name : List Char) : Prop :=
  ∃ c more, name = c :: more ∧ isIdentStart c = true ∧ ∀ d ∈ more, isIdentRest d = true

def digitValue (c : Char) : Nat :=
  c.toNat - '0'.toNat

/-- Decimal digits, leading ones first, and the number that they stand for. -/
structure Numeral (digits : List Char) (n : Nat) : Prop where
  ne_nil : digits ≠ []
  digit : ∀ d ∈ digits, d.isDigit = true
  value : Nat.ofDigits 10 (digits.reverse.map digitValue) = n

/-- What stands in brackets, without blanks around it, and the step that it makes. -/
inductive Bracketed : List Char → Step → Prop where
  | place {digits : List Char} {n : Nat} (numeral : Numeral digits n) (small : n < indexLimit) :
      Bracketed digits (.index n)
  | plus {digits : List Char} {n : Nat} (numeral : Numeral digits n) (small : n < indexLimit) :
      Bracketed ('+' :: digits) (.index n)
  | key {quote : Char} (isQuote : quote = '\'' ∨ quote = '"') (name : List Char) :
      Bracketed (quote :: (name ++ [quote])) (.key (String.ofList name))

inductive StepText : List Char → Step → Prop where
  | dot {name : List Char} (ident : IsIdent name) :
      StepText ('.' :: name) (.key (String.ofList name))
  | bracket {inner : List Char} {step : Step} (noClose : ']' ∉ inner)
      (inside : Bracketed (Text.trim inner) step) : StepText ('[' :: (inner ++ [']'])) step

/-- The text of steps, one behind the other. -/
inductive StepsText : List Char → List Step → Prop where
  | nil : StepsText [] []
  | cons {text more : List Char} {step : Step} {steps : List Step} (first : StepText text step)
      (behind : StepsText more steps) : StepsText (text ++ more) (step :: steps)

/-- A text spells a lookup, whose source is the text without the blanks around it. -/
structure Spells (text : List Char) (lookup : Lookup) : Prop where
  source : lookup.source = String.ofList (Text.trim text)
  path : ∃ name more, Text.trim text = name ++ more ∧ IsIdent name ∧
    lookup.root = String.ofList name ∧ StepsText more lookup.steps

/-! ## Identifiers -/

theorem ident?_eq_some {text rest : List Char} {name : String} (h : ident? text = some (name, rest)) :
    IsIdent name.toList ∧ text = name.toList ++ rest := by
  obtain ⟨c, more, rfl, hc, hmore, _, rfl⟩ := ident?_eq_some_iff.mp h
  rw [String.toList_ofList]
  exact ⟨⟨c, more, rfl, hc, hmore⟩, rfl⟩

theorem IsIdent.ident? {name rest : List Char} (h : IsIdent name)
    (hrest : ∀ d, rest.head? = some d → isIdentRest d = false) :
    ident? (name ++ rest) = some (String.ofList name, rest) := by
  obtain ⟨c, more, rfl, hc, hmore⟩ := h
  exact ident?_eq_some_iff.mpr ⟨c, more, rfl, hc, hmore, hrest, rfl⟩

theorem IsIdent.all_rest {name : List Char} (h : IsIdent name) : ∀ c ∈ name, isIdentRest c = true := by
  obtain ⟨c, more, rfl, hc, hmore⟩ := h
  intro d hd
  rcases List.mem_cons.mp hd with rfl | hd
  · rw [isIdentRest, hc, Bool.true_or]
  · exact hmore d hd

theorem IsIdent.not_mem {name : List Char} (h : IsIdent name) {c : Char} (hc : isIdentRest c = false) :
    c ∉ name := by
  intro hmem
  rw [h.all_rest c hmem] at hc
  cases hc

theorem isBlank_eq_false_of_isIdentRest {c : Char} (h : isIdentRest c = true) : Text.isBlank c = false := by
  by_contra hblank
  rw [Bool.not_eq_false] at hblank
  rw [isIdentRest_eq_false hblank] at h
  cases h

theorem isBlank_eq_false_of_isDigit {c : Char} (h : c.isDigit = true) : Text.isBlank c = false :=
  isBlank_eq_false_of_isIdentRest (by rw [isIdentRest, h, Bool.or_true])

theorem IsIdent.not_blank {name : List Char} (h : IsIdent name) : ∀ c ∈ name, Text.isBlank c = false :=
  fun c hc => isBlank_eq_false_of_isIdentRest (h.all_rest c hc)

theorem IsIdent.head?_not_blank {name : List Char} (h : IsIdent name) (rest : List Char) :
    ∀ c, (name ++ rest).head? = some c → Text.isBlank c = false := by
  intro c hc
  refine h.not_blank c ?_
  obtain ⟨d, more, rfl, _⟩ := h
  cases hc
  exact List.mem_cons_self

theorem IsIdent.trimLeft_append {name : List Char} (h : IsIdent name) (rest : List Char) :
    Text.trimLeft (name ++ rest) = name ++ rest :=
  Text.dropWhile_eq_self (h.head?_not_blank rest)

/-- There is nothing to cut off an identifier. -/
theorem IsIdent.trim_eq {name : List Char} (h : IsIdent name) : Text.trim name = name :=
  Text.trim_of_no_blank h.not_blank

/-! ## Brackets -/

theorem decimal?_eq_some_iff {digits : List Char} {n : Nat} :
    decimal? digits = some n ↔ Numeral digits n := by
  have hvalue : digits.foldl (fun n c => n * 10 + (c.toNat - '0'.toNat)) 0 =
      Nat.ofDigits 10 (digits.reverse.map digitValue) := by
    rw [Nat.ofDigits_eq_foldr, List.foldr_map, List.foldr_reverse]
    congr 1
    funext n c
    rw [digitValue, Nat.cast_id, Nat.mul_comm, Nat.add_comm]
  unfold decimal?
  rw [hvalue]
  constructor
  · intro h
    split at h
    · rename_i hdigits
      exact ⟨hdigits.1, List.all_eq_true.mp hdigits.2, Option.some.inj h⟩
    · cases h
  · rintro ⟨hne, hdigits, rfl⟩
    rw [if_pos ⟨hne, List.all_eq_true.mpr hdigits⟩]

/-- The place that digits spell must fit sixty-four bits. -/
theorem filter_decimal?_eq_some_iff {digits : List Char} {n : Nat} :
    (decimal? digits).filter (· < indexLimit) = some n ↔ Numeral digits n ∧ n < indexLimit := by
  rw [Option.filter_eq_some_iff, decimal?_eq_some_iff, decide_eq_true_eq]

theorem index?_eq_some_iff {inner : List Char} {n : Nat} :
    index? inner = some n ↔ Bracketed inner (.index n) := by
  constructor
  · intro h
    unfold index? at h
    dsimp only at h
    rw [filter_decimal?_eq_some_iff] at h
    split at h
    · exact .plus h.1 h.2
    · exact .place h.1 h.2
  · intro h
    unfold index?
    dsimp only
    rw [filter_decimal?_eq_some_iff]
    cases h with
    | place numeral small =>
        split
        · exact absurd (numeral.digit '+' List.mem_cons_self) (by decide)
        · exact ⟨numeral, small⟩
    | plus numeral small => exact ⟨numeral, small⟩

theorem between?_eq_some_iff {quote : Char} {inner name : List Char} :
    between? quote inner = some name ↔ inner = quote :: (name ++ [quote]) := by
  cases inner with
  | nil => simp [between?]
  | cons c rest =>
      simp only [between?, List.cons.injEq]
      constructor
      · intro h
        split at h
        · rename_i hquotes
          obtain ⟨hc, hlast⟩ := hquotes
          refine ⟨hc, ?_⟩
          rw [← Option.some.inj h]
          exact (List.dropLast_append_getLast? quote hlast).symm
        · cases h
      · rintro ⟨rfl, rfl⟩
        simp

theorem index?_of_quote {quote : Char} (isQuote : quote = '\'' ∨ quote = '"') (rest : List Char) :
    index? (quote :: rest) = none := by
  rw [Option.eq_none_iff_forall_ne_some]
  intro n hindex
  have hquote : quote.isDigit = false ∧ quote ≠ '+' := by
    rcases isQuote with rfl | rfl <;> decide
  cases index?_eq_some_iff.mp hindex with
  | place numeral small =>
      have := numeral.digit quote List.mem_cons_self
      rw [hquote.1] at this
      cases this
  | plus numeral small => exact hquote.2 rfl

theorem bracket?_eq_some_iff {inner : List Char} {step : Step} :
    bracket? inner = some step ↔ Bracketed inner step := by
  unfold bracket?
  constructor
  · intro h
    split at h
    · rename_i n hindex
      cases h
      exact index?_eq_some_iff.mp hindex
    · obtain ⟨name, hname, rfl⟩ := Option.map_eq_some_iff.mp h
      rcases Option.or_eq_some_iff.mp hname with hsingle | ⟨_, hdouble⟩
      · rw [between?_eq_some_iff.mp hsingle]
        exact .key (.inl rfl) name
      · rw [between?_eq_some_iff.mp hdouble]
        exact .key (.inr rfl) name
  · intro h
    cases step with
    | index n => rw [index?_eq_some_iff.mpr h]
    | key name =>
        cases h with
        | @key quote isQuote name =>
            rw [index?_of_quote isQuote]
            have hname : between? quote (quote :: (name ++ [quote])) = some name :=
              between?_eq_some_iff.mpr rfl
            rcases isQuote with rfl | rfl
            · rw [hname]
              rfl
            · have hother : between? '\'' ('"' :: (name ++ ['"'])) = none := by simp [between?]
              rw [hother, hname]
              rfl

/-! ## Steps -/

/-- What is read as a step is the text of one. -/
theorem step?_eq_some {text rest : List Char} {step : Step} (h : step? text = some (step, rest)) :
    ∃ front, text = front ++ rest ∧ StepText front step := by
  unfold step? at h
  split at h
  · obtain ⟨⟨name, after⟩, hident, heq⟩ := Option.map_eq_some_iff.mp h
    cases heq
    obtain ⟨hname, rfl⟩ := ident?_eq_some hident
    refine ⟨'.' :: name.toList, rfl, ?_⟩
    simpa using StepText.dot hname
  · rename_i tail
    split at h
    · rename_i c after hdrop
      obtain ⟨step', hstep, heq⟩ := Option.map_eq_some_iff.mp h
      cases heq
      have hclose : c = ']' := by
        have := List.head?_dropWhile_not (fun d : Char => decide (d ≠ ']')) tail
        rw [hdrop] at this
        simpa using this
      subst hclose
      have htail : tail = tail.takeWhile (fun d : Char => decide (d ≠ ']')) ++ ']' :: rest := by
        rw [← hdrop, List.takeWhile_append_dropWhile]
      refine ⟨'[' :: (tail.takeWhile (fun d : Char => decide (d ≠ ']')) ++ [']']), ?_, ?_⟩
      · rw [List.cons_append, List.append_assoc, List.singleton_append, ← htail]
      · refine .bracket ?_ (bracket?_eq_some_iff.mp hstep)
        intro hmem
        simpa using List.mem_takeWhile_imp hmem
    · cases h
  · cases h

/-- The text of a step is read as one, unless what follows goes on in its identifier. -/
theorem StepText.step? {text rest : List Char} {step : Step} (h : StepText text step)
    (hrest : ∀ d, rest.head? = some d → isIdentRest d = false) :
    step? (text ++ rest) = some (step, rest) := by
  cases h with
  | @dot name ident =>
      rw [List.cons_append, Lookup.step?, ident.ident? hrest]
      rfl
  | @bracket inner step noClose inside =>
      have hinner : ∀ d ∈ inner, decide (d ≠ ']') = true := by
        intro d hd
        rw [decide_eq_true_eq]
        rintro rfl
        exact noClose hd
      have hdrop : (inner ++ ']' :: rest).dropWhile (fun d : Char => decide (d ≠ ']')) =
          ']' :: rest := by
        rw [List.dropWhile_append_of_pos hinner]
        rfl
      have htake : (inner ++ ']' :: rest).takeWhile (fun d : Char => decide (d ≠ ']')) =
          inner := by
        rw [List.takeWhile_append_of_pos hinner]
        simp
      rw [List.cons_append, List.append_assoc, List.singleton_append, Lookup.step?, hdrop]
      dsimp only
      rw [htake, bracket?_eq_some_iff.mpr inside]
      rfl

theorem StepText.exists_cons {text : List Char} {step : Step} (h : StepText text step) :
    ∃ c tail, text = c :: tail ∧ isIdentRest c = false := by
  cases h with
  | dot ident => exact ⟨'.', _, rfl, by decide⟩
  | bracket noClose inside => exact ⟨'[', _, rfl, by decide⟩

/-- Steps do not go on in an identifier before them. -/
theorem StepsText.head {text : List Char} {steps : List Step} (h : StepsText text steps) :
    ∀ d, text.head? = some d → isIdentRest d = false := by
  intro d hd
  cases h with
  | nil => cases hd
  | cons first behind =>
      obtain ⟨c, tail, rfl, hc⟩ := first.exists_cons
      cases hd
      exact hc

theorem steps?_eq_some_iff {text : List Char} {steps : List Step} :
    steps? text = some steps ↔ StepsText text steps := by
  constructor
  · intro h
    fun_induction steps? text generalizing steps with
    | case1 =>
        cases h
        exact .nil
    | case2 c tail step rest hstep ih =>
        obtain ⟨others, hothers, rfl⟩ := Option.map_eq_some_iff.mp h
        obtain ⟨front, htext, hfront⟩ := step?_eq_some hstep
        rw [htext]
        exact .cons hfront (ih hothers)
    | case3 c tail hstep => cases h
  · intro h
    induction h with
    | nil => exact steps?_nil
    | @cons text more step steps first behind ih =>
        have hstep := first.step? behind.head
        obtain ⟨c, tail, rfl, _⟩ := first.exists_cons
        rw [List.cons_append] at hstep ⊢
        rw [steps?]
        split
        · rename_i step' rest heq
          rw [hstep] at heq
          cases heq
          rw [ih]
          rfl
        · rename_i heq
          rw [hstep] at heq
          cases heq

/-! ## Lookups -/

/-- A text is read as a lookup exactly when it spells it. -/
theorem parse?_eq_some_iff {text : List Char} {lookup : Lookup} :
    parse? text = some lookup ↔ Spells text lookup := by
  simp only [parse?, Option.bind_eq_bind, Option.bind_eq_some_iff, Option.pure_def,
    Option.some.injEq, Prod.exists]
  constructor
  · rintro ⟨name, rest, hident, steps, hsteps, rfl⟩
    obtain ⟨hname, htext⟩ := ident?_eq_some hident
    exact ⟨rfl, name.toList, rest, htext, hname, by simp, steps?_eq_some_iff.mp hsteps⟩
  · rintro ⟨hsource, name, more, htext, hname, hroot, hsteps⟩
    refine ⟨String.ofList name, more, ?_, lookup.steps, steps?_eq_some_iff.mpr hsteps, ?_⟩
    · rw [htext]
      exact hname.ident? hsteps.head
    · rw [← hsource, ← hroot]

/-- Blanks around a lookup do not matter. -/
theorem spells_congr {text other : List Char} (h : Text.trim text = Text.trim other)
    {lookup : Lookup} : Spells text lookup ↔ Spells other lookup := by
  rw [← parse?_eq_some_iff, ← parse?_eq_some_iff, parse?, parse?, h]

/-- A lookup is spelled by its source. -/
theorem Spells.source_spells {text : List Char} {lookup : Lookup} (h : Spells text lookup) :
    Spells lookup.source.toList lookup := by
  refine (spells_congr ?_).mp h
  rw [h.source, String.toList_ofList, Text.trim_trim]

end SiteServer.Template.Lookup
