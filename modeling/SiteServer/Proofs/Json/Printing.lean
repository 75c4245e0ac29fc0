import SiteServer.Proofs.Json.Reading

/-! # Printed values are read again.

A compact text lexes to the tokens of its value, as long as each number in the value is whole: such a number is
printed in decimal digits, with no zero before others, and has its value again. -/

namespace SiteServer

/-- A character of one kind is none of some marks of other kinds. -/
theorem Text.not_mem_of_all {p : Char → Bool} {marks : List Char} (h : marks.all (fun d => !p d) = true)
    {c : Char} (hc : p c = true) : c ∉ marks := by
  intro hmem
  have hmark := List.all_eq_true.mp h c hmem
  rw [hc] at hmark
  cases hmark

/-! ## Decimal digits -/

namespace Decimal

open Json (Digits digitValues natOfDigits)

theorem digits_digitsOf (n : Nat) : Digits (digitsOf n) where
  ne_nil := List.length_pos_iff.mp Nat.length_toDigits_pos
  digit := fun _ h => Nat.isDigit_of_mem_toDigits (by decide) (by decide) h

/-- The leading digit of a positive number is not zero. -/
theorem head?_digitsOf {n : Nat} (h : 0 < n) : (digitsOf n).head? ≠ some '0' := by
  induction n using Nat.strongRecOn with
  | ind n ih =>
      rw [digitsOf, Nat.toDigits_eq_if (by decide)]
      split
      · rename_i hlt
        intro hzero
        have hchar := congrArg Char.toNat (Option.some.inj hzero)
        rw [Nat.toNat_digitChar_of_lt_ten hlt, show '0'.toNat = 48 from rfl] at hchar
        omega
      · have hrest := ih (n / 10) (by omega) (by omega)
        obtain ⟨c, cs, hcs⟩ := List.exists_cons_of_ne_nil (digits_digitsOf (n / 10)).ne_nil
        rw [digitsOf] at hcs hrest
        rw [hcs] at hrest ⊢
        exact hrest

theorem noZero_digitsOf (n : Nat) : ¬ ∃ c rest, digitsOf n = '0' :: c :: rest := by
  rintro ⟨c, rest, h⟩
  cases n with
  | zero => cases h
  | succ n => exact head?_digitsOf n.succ_pos (by rw [h]; rfl)

theorem natOfDigits_digitsOf (n : Nat) : natOfDigits (digitValues (digitsOf n)) = n := by
  have hvalue : Nat.ofDigitChars 10 (digitsOf n) 0 = n := Nat.ofDigitChars_toDigits (by decide) (by decide)
  rw [Nat.ofDigitChars] at hvalue
  simpa only [natOfDigits, digitValues, List.foldl_map, Nat.mul_comm] using hvalue

end Decimal

namespace Json

variable {rest : List Char} {tokens : List Token}

/-! ## Whole numbers -/

/-- Digits do not make a number smaller. -/
theorem le_foldl_digits (n : Nat) (ds : List Nat) : n ≤ ds.foldl (fun n d => n * 10 + d) n := by
  induction ds generalizing n with
  | nil => exact Nat.le_refl n
  | cons d ds ih => exact Nat.le_trans (by omega) (ih (n * 10 + d))

theorem accumulate_eq {n : Nat} {ds : List Nat} (h : ds.foldl (fun n d => n * 10 + d) n < UInt64.size) :
    accumulate n ds = (ds.foldl (fun n d => n * 10 + d) n, []) := by
  induction ds generalizing n with
  | nil => rfl
  | cons d ds ih => rw [accumulate, if_pos (Nat.lt_of_le_of_lt (le_foldl_digits _ ds) h), ih h, List.foldl_cons]

/-- A whole number as it is printed. -/
theorem numberText_printInt (n : Int) :
    NumberText (printInt n) ⟨n < 0, digitValues (Decimal.digitsOf n.natAbs), none, none⟩ := by
  have h := @NumberText.intro (decide (n < 0)) (Decimal.digitsOf n.natAbs) none
    (Decimal.digits_digitsOf n.natAbs) (Decimal.noZero_digitsOf n.natAbs) (by simp)
  simpa [printInt] using h

/-- A printed whole number that fits sixty-four bits has its value again. -/
theorem value?_printInt {n : Int} (hlow : -(1 <<< 63 : Nat) ≤ n) (hhigh : n < UInt64.size) :
    (⟨n < 0, digitValues (Decimal.digitsOf n.natAbs), none, none⟩ : NumberLiteral).value? = some (.whole n) := by
  have hdigits := Decimal.natOfDigits_digitsOf n.natAbs
  rw [natOfDigits] at hdigits
  have haccumulate : accumulate 0 (digitValues (Decimal.digitsOf n.natAbs)) = (n.natAbs, []) := by
    have hlt : n.natAbs < UInt64.size := by
      rw [UInt64.size] at hhigh ⊢
      omega
    rw [accumulate_eq (hdigits.symm ▸ hlt), hdigits]
  simp only [NumberLiteral.value?, haccumulate]
  by_cases hn : n < 0
  · have hrange : ¬ (n.natAbs = 0 ∨ 1 <<< 63 < n.natAbs) := by
      simp only [Nat.shiftLeft_eq]
      omega
    have hvalue : -(n.natAbs : Int) = n := by omega
    simp only [hn, decide_true, Bool.not_true, if_neg hrange, hvalue]
    rfl
  · have hvalue : (n.natAbs : Int) = n := by omega
    simp only [hn, decide_false, Bool.not_false, if_true, hvalue]

/-! ## Whole values -/

mutual

/-- The numbers of a value are whole and fit sixty-four bits, with a sign or without. -/
def Whole : Json → Prop
  | .number (.whole n) => -(1 <<< 63 : Nat) ≤ n ∧ n < UInt64.size
  | .number (.double _) => False
  | .array items => WholeItems items
  | .object fields => WholeFields fields
  | _ => True

def WholeItems : List Json → Prop
  | [] => True
  | item :: rest => Whole item ∧ WholeItems rest

def WholeFields : List (String × Json) → Prop
  | [] => True
  | (_, value) :: rest => Whole value ∧ WholeFields rest

end

theorem wholeItems_iff (items : List Json) : WholeItems items ↔ ∀ item ∈ items, Whole item := by
  induction items with
  | nil => simp [WholeItems]
  | cons item items ih => rw [WholeItems, ih, List.forall_mem_cons]

theorem wholeFields_iff (fields : List (String × Json)) :
    WholeFields fields ↔ ∀ field ∈ fields, Whole field.2 := by
  induction fields with
  | nil => simp [WholeFields]
  | cons field fields ih => rw [WholeFields, ih, List.forall_mem_cons]

theorem endsNumber_cons {c : Char} (h : c = ',' ∨ c = ']' ∨ c = '\x7d') (rest : List Char) :
    EndsNumber (c :: rest) := by
  intro d hd
  obtain rfl := Option.some.inj hd
  rcases h with rfl | rfl | rfl <;> decide

theorem isSpace_eq_false_of_isDigit {c : Char} (h : c.isDigit = true) : isSpace c = false := by
  have hc : c ∉ [' ', '\n', '\t', '\r'] := Text.not_mem_of_all (by decide) h
  simpa [isSpace, and_assoc] using hc

theorem lexes_printInt {n : Int} (hlow : -(1 <<< 63 : Nat) ≤ n) (hhigh : n < UInt64.size)
    (hends : EndsNumber rest) (hrest : Lexes rest tokens) :
    Lexes (printInt n ++ rest) (.scalar (.number (some (.whole n))) :: tokens) := by
  have htext := numberText_printInt n
  have htoken := htext.token? hends
  rw [value?_printInt hlow hhigh] at htoken
  obtain ⟨c, more, hcons, hc⟩ := htext.exists_cons
  rw [hcons, List.cons_append] at htoken ⊢
  refine .token ?_ htoken hrest
  rcases hc with rfl | hc
  · decide
  · exact isSpace_eq_false_of_isDigit hc

/-- A key and the colon behind it. -/
theorem lexes_printKey (key : String) (hrest : Lexes rest tokens) :
    Lexes (printString key.toList ++ ':' :: rest) (.scalar (.string (some key)) :: .colon :: tokens) := by
  have hcolon : Lexes (':' :: rest) (.colon :: tokens) := .token (by decide) rfl hrest
  have hstring : Lexes (printString key.toList ++ ':' :: rest) _ := lexes_printString hcolon
  rwa [String.ofList_toList] at hstring

mutual

/-- The compact text of a value lexes to its tokens. -/
theorem lexes_print (value : Json) {rest : List Char} {tokens : List Token} (h : Whole value)
    (hends : EndsNumber rest) (hrest : Lexes rest tokens) :
    Lexes (print value ++ rest) (Json.tokens value ++ tokens) := by
  cases value with
  | null => exact .token (by decide) rfl hrest
  | bool b => cases b <;> exact .token (by decide) rfl hrest
  | number n =>
      cases n with
      | whole n => exact lexes_printInt h.1 h.2 hends hrest
      | double x => exact h.elim
  | string s =>
      have hstring : Lexes (printString s.toList ++ rest) _ := lexes_printString hrest
      rwa [String.ofList_toList] at hstring
  | array items =>
      have hitems := lexes_printItems items h hrest
      rw [print, Json.tokens, List.cons_append, List.append_assoc, List.cons_append, List.append_assoc]
      exact .token (by decide) rfl hitems
  | object fields =>
      have hfields := lexes_printFields fields h hrest
      rw [print, Json.tokens, List.cons_append, List.append_assoc, List.cons_append, List.append_assoc]
      exact .token (by decide) rfl hfields

theorem lexes_printItems (items : List Json) {rest : List Char} {tokens : List Token} (h : WholeItems items)
    (hrest : Lexes rest tokens) :
    Lexes (printItems items ++ ([']'] ++ rest)) (itemTokens items ++ ([.closeArray] ++ tokens)) := by
  have hclose : Lexes ([']'] ++ rest) ([.closeArray] ++ tokens) := .token (by decide) rfl hrest
  match items with
  | [] => exact hclose
  | [item] => exact lexes_print item h.1 (endsNumber_cons (by simp) rest) hclose
  | item :: next :: others =>
      have hothers := lexes_printItems (next :: others) h.2 hrest
      have hcomma : Lexes (',' :: (printItems (next :: others) ++ ([']'] ++ rest)))
          (.comma :: (itemTokens (next :: others) ++ ([.closeArray] ++ tokens))) :=
        .token (by decide) rfl hothers
      have hitem := lexes_print item h.1 (endsNumber_cons (by simp) _) hcomma
      have htokens : itemTokens (item :: next :: others) =
          Json.tokens item ++ .comma :: itemTokens (next :: others) := rfl
      have htext : printItems (item :: next :: others) =
          print item ++ ',' :: printItems (next :: others) := rfl
      rw [htext, htokens, List.append_assoc, List.append_assoc]
      exact hitem

theorem lexes_printFields (fields : List (String × Json)) {rest : List Char} {tokens : List Token}
    (h : WholeFields fields) (hrest : Lexes rest tokens) :
    Lexes (printFields fields ++ (['\x7d'] ++ rest)) (fieldTokens fields ++ ([.closeObject] ++ tokens)) := by
  have hclose : Lexes (['\x7d'] ++ rest) ([.closeObject] ++ tokens) := .token (by decide) rfl hrest
  match fields with
  | [] => exact hclose
  | [(key, value)] =>
      have hvalue := lexes_print value h.1 (endsNumber_cons (by simp) rest) hclose
      rw [printFields, fieldTokens, List.append_assoc]
      exact lexes_printKey key hvalue
  | (key, value) :: next :: others =>
      have hothers := lexes_printFields (next :: others) h.2 hrest
      have hcomma : Lexes (',' :: (printFields (next :: others) ++ (['\x7d'] ++ rest)))
          (.comma :: (fieldTokens (next :: others) ++ ([.closeObject] ++ tokens))) :=
        .token (by decide) rfl hothers
      have hvalue := lexes_print value h.1 (endsNumber_cons (by simp) _) hcomma
      have htokens : fieldTokens ((key, value) :: next :: others) =
          .scalar (.string (some key)) :: .colon ::
            (Json.tokens value ++ .comma :: fieldTokens (next :: others)) := rfl
      have htext : printFields ((key, value) :: next :: others) =
          printString key.toList ++ ':' :: (print value ++ ',' :: printFields (next :: others)) := by
        simp [printFields]
      rw [htext, htokens]
      simp only [List.append_assoc, List.cons_append]
      exact lexes_printKey key hvalue

end

end Json

end SiteServer
