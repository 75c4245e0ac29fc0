import SiteServer.Proofs.Json.Printing
import SiteServer.Proofs.Text.Split
import SiteServer.Toml.Scalar

/-! # Numbers as they are written in a document.

Decimal digits at the end of a line are read as their number. They look like the start of a date or a time, but
behind a year stands a minus sign and behind an hour a colon. -/

namespace SiteServer.Toml

open Json (digitValues natOfDigits)

variable {digits more : List Char} {c : Char}

/-! ## Digits -/

theorem digitValue?_of_isDigit (h : c.isDigit = true) : Text.digitValue? 10 c = some (c.toNat - '0'.toNat) := by
  have hc := Json.isDigit_iff.mp h
  have hlt : c.toNat - '0'.toNat < 10 := by
    have hzero : '0'.toNat = 48 := rfl
    have hnine : '9'.toNat = 57 := rfl
    omega
  rw [Text.digitValue?, Text.hexValue?, if_pos h, Option.filter_some, if_pos (decide_eq_true hlt)]

theorem foldlM_digits (h : ∀ c ∈ digits, c.isDigit = true) (n : Nat) :
    digits.foldlM (fun n c => (Text.digitValue? 10 c).map (n * 10 + ·)) n =
      some ((digitValues digits).foldl (fun n d => n * 10 + d) n) := by
  induction digits generalizing n with
  | nil => rfl
  | cons c digits ih =>
      rw [List.foldlM_cons, digitValue?_of_isDigit (h c List.mem_cons_self)]
      exact ih (fun d hd => h d (List.mem_cons_of_mem c hd)) _

theorem numberOf?_digits (h : ∀ c ∈ digits, c.isDigit = true) :
    Text.numberOf? 10 digits = some (natOfDigits (digitValues digits)) :=
  foldlM_digits h 0

/-- What is no digit stands in no number. -/
theorem foldlM_eq_none (hmem : c ∈ digits) (hc : Text.digitValue? 10 c = none) (n : Nat) :
    digits.foldlM (fun n c => (Text.digitValue? 10 c).map (n * 10 + ·)) n = none := by
  induction digits generalizing n with
  | nil => cases hmem
  | cons d digits ih =>
      rw [List.foldlM_cons]
      rcases List.mem_cons.mp hmem with rfl | hmem
      · rw [hc]
        rfl
      · cases Text.digitValue? 10 d with
        | none => rfl
        | some value => exact ih hmem _

/-! ## Neither dates nor times -/

/-- A part of a date or time lies within the digits. -/
theorem part?_digits {count low high n : Nat} {rest : List Char}
    (hread : part? count low high (digits ++ '\n' :: more) = some (n, rest)) :
    rest = digits.drop count ++ '\n' :: more := by
  simp only [part?, Option.bind_eq_bind, Option.bind_eq_some_iff] at hread
  obtain ⟨value, hvalue, hrest⟩ := hread
  have hle : count ≤ digits.length := by
    apply Nat.le_of_not_lt
    intro hlt
    have hmem : '\n' ∈ (digits ++ '\n' :: more).take count := by
      obtain ⟨left, rfl⟩ := Nat.exists_eq_add_of_lt hlt
      rw [List.take_append, Nat.add_assoc, Nat.add_sub_cancel_left, List.take_succ_cons]
      exact List.mem_append_right _ List.mem_cons_self
    rw [Text.numberOf?, foldlM_eq_none hmem (by decide)] at hvalue
    cases hvalue
  split at hrest
  · cases hrest
    rw [List.drop_append_of_le_length hle]
  · cases hrest

theorem mark?_digits {mark : Char} (h : ∀ c ∈ digits, c.isDigit = true) (hdigit : mark.isDigit = false)
    (hend : mark ≠ '\n') : mark? mark (digits ++ '\n' :: more) = none := by
  cases digits with
  | nil => exact if_neg hend
  | cons c digits =>
      refine if_neg ?_
      rintro rfl
      rw [h mark List.mem_cons_self] at hdigit
      cases hdigit

/-- Behind a part of digits stands no mark. -/
theorem mark?_of_part? {mark : Char} {count low high n : Nat} {rest : List Char}
    (h : ∀ c ∈ digits, c.isDigit = true) (hread : part? count low high (digits ++ '\n' :: more) = some (n, rest))
    (hdigit : mark.isDigit = false) (hend : mark ≠ '\n') : mark? mark rest = none := by
  rw [part?_digits hread]
  exact mark?_digits (fun c hc => h c (List.mem_of_mem_drop hc)) hdigit hend

theorem date?_digits (h : ∀ c ∈ digits, c.isDigit = true) : date? (digits ++ '\n' :: more) = none := by
  unfold date?
  cases hread : part? 4 0 9999 (digits ++ '\n' :: more) with
  | none => rfl
  | some found =>
      have hmark : mark? '-' found.2 = none := mark?_of_part? h hread (by decide) (by decide)
      simp only [Option.bind_eq_bind, Option.bind_some, hmark, Option.bind_none]

theorem time?_digits (h : ∀ c ∈ digits, c.isDigit = true) : time? (digits ++ '\n' :: more) = none := by
  unfold time?
  cases hread : part? 2 0 23 (digits ++ '\n' :: more) with
  | none => rfl
  | some found =>
      have hmark : mark? ':' found.2 = none := mark?_of_part? h hread (by decide) (by decide)
      simp only [Option.bind_eq_bind, Option.bind_some, hmark, Option.bind_none]

theorem dateTime?_digits (h : ∀ c ∈ digits, c.isDigit = true) : dateTime? (digits ++ '\n' :: more) = none := by
  rw [dateTime?, moment?, date?_digits h]
  exact congrArg (Option.map _) (time?_digits h)

/-! ## Numbers -/

theorem takeWhile_digits (h : ∀ c ∈ digits, c.isDigit = true) :
    ((digits ++ '\n' :: more).takeWhile fun c => (Text.digitValue? 10 c).isSome || c = '_') = digits := by
  rw [List.takeWhile_append_of_pos, Text.takeWhile_eq_nil, List.append_nil]
  · intro c hc
    obtain rfl := Option.some.inj hc
    decide
  · intro c hc
    rw [digitValue?_of_isDigit (h c hc)]
    rfl

theorem digitGroup?_digits (h : Json.Digits digits) :
    digitGroup? 10 (digits ++ '\n' :: more) = some (digits, '\n' :: more) := by
  have hsplit : digits.splitOnP (· == '_') = [digits] := by
    refine List.splitOnP_eq_singleton fun c hc => beq_eq_false_iff_ne.mpr ?_
    rintro rfl
    exact absurd (h.digit '_' hc) (by decide)
  rw [digitGroup?, takeWhile_digits h.digit]
  simp [hsplit, h.ne_nil]

theorem wholeDigits?_digits (h : Json.Digits digits) (hzero : ¬ ∃ c rest, digits = '0' :: c :: rest) :
    wholeDigits? (digits ++ '\n' :: more) = some (digits, '\n' :: more) := by
  unfold wholeDigits?
  rw [digitGroup?_digits h]
  simp only [Option.bind_eq_bind, Option.bind_some]
  split
  · exact absurd ⟨_, _, rfl⟩ hzero
  · rfl

theorem head_isDigit (h : Json.Digits digits) : ∃ c rest, digits = c :: rest ∧ c.isDigit = true := by
  obtain ⟨c, rest, rfl⟩ := List.exists_cons_of_ne_nil h.ne_nil
  exact ⟨c, rest, rfl, h.digit c List.mem_cons_self⟩

theorem sign_of_isDigit (h : c.isDigit = true) (rest : List Char) : sign (c :: rest) = (false, c :: rest) := by
  unfold sign
  split
  · rename_i heq
    rw [(List.cons.inj heq).1] at h
    cases h
  · rename_i heq
    rw [(List.cons.inj heq).1] at h
    cases h
  · rfl

/-- A number without a sign, in decimal digits. -/
theorem decimal?_digits (h : Json.Digits digits) (hzero : ¬ ∃ c rest, digits = '0' :: c :: rest) :
    decimal? (digits ++ '\n' :: more) =
      (fits? false (natOfDigits (digitValues digits))).map fun value => (value, '\n' :: more) := by
  have hsign : sign (digits ++ '\n' :: more) = (false, digits ++ '\n' :: more) := by
    obtain ⟨c, rest, rfl, hc⟩ := head_isDigit h
    exact sign_of_isDigit hc _
  have hfraction : fraction? ('\n' :: more) = some ([], '\n' :: more) := rfl
  have hexponent : exponent? ('\n' :: more) = some (0, '\n' :: more) := rfl
  simp only [decimal?, hsign, wholeDigits?_digits h hzero, hfraction, hexponent, numberOf?_digits h.digit,
    Option.bind_eq_bind, Option.bind_some, if_true]
  cases fits? false (natOfDigits (digitValues digits)) <;> rfl

theorem special?_of_isDigit (h : c.isDigit = true) (rest : List Char) : special? (c :: rest) = none := by
  have hword (name : String) (value : Json) (hname : ∀ d, name.toList.head? = some d → d.isDigit = false)
      (hne : name.toList ≠ []) : word? name value (c :: rest) = none := by
    obtain ⟨d, more, hcons⟩ := List.exists_cons_of_ne_nil hne
    have hd : (d == c) = false := by
      refine beq_eq_false_iff_ne.mpr ?_
      rintro rfl
      rw [hname d (by rw [hcons]; rfl)] at h
      cases h
    simp [word?, hcons, List.isPrefixOf, hd]
  simp only [special?, sign_of_isDigit h]
  have hinf : "inf".toList = ['i', 'n', 'f'] := rfl
  have hnan : "nan".toList = ['n', 'a', 'n'] := rfl
  rw [hword "inf" _ (by simp [hinf]) (by simp [hinf]), hword "nan" _ (by simp [hnan]) (by simp [hnan])]
  rfl

/-- Decimal digits at the end of a line are read as their number. -/
theorem numeric?_digitsOf {n : Nat} (h : n < 1 <<< 63) :
    numeric? (Decimal.digitsOf n ++ '\n' :: more) = some (.ofNat n, '\n' :: more) := by
  have hdigits := Decimal.digits_digitsOf n
  have hsecond {d e : Char} {rest : List Char} (heq : Decimal.digitsOf n ++ '\n' :: more = d :: e :: rest) :
      e.isDigit = true ∨ e = '\n' := by
    obtain ⟨c, tail, hcons, _⟩ := head_isDigit hdigits
    rw [hcons] at heq
    have htail := (List.cons.inj heq).2
    cases tail with
    | nil => exact .inr (List.cons.inj htail).1.symm
    | cons b tail =>
        obtain rfl := (List.cons.inj htail).1
        exact .inl (hdigits.digit b (by simp [hcons]))
  have hfits : fits? false n = some (.ofNat n) := by
    simp only [fits?, Bool.false_eq_true, if_false, h, if_true]
  unfold numeric?
  rw [dateTime?_digits hdigits.digit]
  dsimp only
  split
  · rename_i heq
    exact absurd (hsecond heq) (by decide)
  · rename_i heq
    exact absurd (hsecond heq) (by decide)
  · rename_i heq
    exact absurd (hsecond heq) (by decide)
  · have hspecial : special? (Decimal.digitsOf n ++ '\n' :: more) = none := by
      obtain ⟨c, rest, hcons, hc⟩ := head_isDigit hdigits
      rw [hcons]
      exact special?_of_isDigit hc _
    rw [hspecial, Option.none_or, decimal?_digits hdigits (Decimal.noZero_digitsOf n),
      Decimal.natOfDigits_digitsOf, hfits, Option.map_some]

end SiteServer.Toml
