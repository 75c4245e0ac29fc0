import Mathlib.Tactic.SplitIfs
import SiteServer.Json.Printer
import SiteServer.Json.Reader

/-! # Reading back a value from its tokens.

A value stands for a sequence of tokens, and its texts are those that lex to this sequence, with any blanks
between the tokens. The reader takes the tokens one at a time and ends with the tree of the value, which has
its value again as long as not too many containers are nested. -/

namespace SiteServer.Json

/-! ## The tokens of a value -/

mutual

def tokens : Json → List Token
  | .null => [.scalar .null]
  | .bool b => [.scalar (.bool b)]
  | .number n => [.scalar (.number (some n))]
  | .string s => [.scalar (.string (some s))]
  | .array items => .openArray :: itemTokens items ++ [.closeArray]
  | .object fields => .openObject :: fieldTokens fields ++ [.closeObject]

/-- The tokens of the items of an array, with commas between them. -/
def itemTokens : List Json → List Token
  | [] => []
  | [item] => tokens item
  | item :: rest => tokens item ++ .comma :: itemTokens rest

/-- The tokens of the fields of an object, with commas between them. -/
def fieldTokens : List (String × Json) → List Token
  | [] => []
  | [(key, value)] => .scalar (.string (some key)) :: .colon :: tokens value
  | (key, value) :: rest =>
    .scalar (.string (some key)) :: .colon :: tokens value ++ .comma :: fieldTokens rest

end

mutual

/-- How many containers of a value are nested in one another. -/
def depth : Json → Nat
  | .array items => itemDepth items + 1
  | .object fields => fieldDepth fields + 1
  | _ => 0

def itemDepth : List Json → Nat
  | [] => 0
  | item :: rest => max (depth item) (itemDepth rest)

def fieldDepth : List (String × Json) → Nat
  | [] => 0
  | (_, value) :: rest => max (depth value) (fieldDepth rest)

end

/-! ## From tokens to a tree -/

/-- The reader takes tokens, one after the other. -/
def steps? (frames : List Frame) (expected : Expected) : List Token → Option (List Frame × Expected)
  | [] => some (frames, expected)
  | token :: rest => (step? frames expected token).bind fun (frames', expected') =>
    steps? frames' expected' rest

theorem steps?_append {frames frames' : List Frame} {expected expected' : Expected}
    {first : List Token} (h : steps? frames expected first = some (frames', expected'))
    (second : List Token) :
    steps? frames expected (first ++ second) = steps? frames' expected' second := by
  induction first generalizing frames expected with
  | nil =>
      cases h
      rfl
  | cons token first ih =>
      rw [steps?, Option.bind_eq_some_iff] at h
      obtain ⟨⟨frames'', expected''⟩, hstep, hrest⟩ := h
      rw [List.cons_append, steps?, hstep]
      exact ih hrest

/-- A tree may start here. -/
inductive Starts : Expected → Prop where
  | value : Starts .value
  | valueOrClose : Starts .valueOrClose

theorem Starts.step? {expected : Expected} (h : Starts expected) (frames : List Frame) {token : Token}
    (htoken : token ≠ .closeArray) : step? frames expected token = start? frames token := by
  cases h with
  | value => rfl
  | valueOrClose =>
      cases token with
      | closeArray => exact absurd rfl htoken
      | _ => rfl

mutual

/-- The tokens of a value lead to its tree. -/
theorem steps?_tokens (value : Json) {expected : Expected} (h : Starts expected) (frames : List Frame) :
    steps? frames expected (tokens value) = some (frames, .separator (RawJson.ofJson value)) := by
  cases value with
  | null | bool | number | string =>
      rw [tokens, steps?, h.step? frames (by simp)]
      rfl
  | array items =>
      have hitems := steps?_itemTokens items .valueOrClose [] frames
      rw [tokens, List.cons_append, steps?, h.step? frames (by simp)]
      cases items with
      | nil => rfl
      | cons item rest => exact hitems (List.cons_ne_nil item rest)
  | object fields =>
      have hfields := steps?_fieldTokens fields [] frames
      rw [tokens, List.cons_append, steps?, h.step? frames (by simp)]
      match fields with
      | [] => rfl
      | [(key, value)] => exact hfields (List.cons_ne_nil _ _)
      | (key, value) :: next :: rest => exact hfields (List.cons_ne_nil _ _)

/-- The tokens of items, with the close behind them, complete the array that is open. -/
theorem steps?_itemTokens (items : List Json) {expected : Expected} (h : Starts expected)
    (before : List RawJson) (frames : List Frame) (hne : items ≠ []) :
    steps? (.array before :: frames) expected (itemTokens items ++ [.closeArray]) =
      some (frames, .separator (.array (before.reverse ++ RawJson.ofItems items))) := by
  match items with
  | [item] =>
      rw [itemTokens, steps?_append (steps?_tokens item h _)]
      simp [steps?, step?, RawJson.ofItems]
  | item :: next :: rest =>
      have hnext := steps?_itemTokens (next :: rest) .value (RawJson.ofJson item :: before) frames
        (List.cons_ne_nil next rest)
      have htokens : itemTokens (item :: next :: rest) =
          tokens item ++ .comma :: itemTokens (next :: rest) := rfl
      rw [htokens, List.append_assoc, steps?_append (steps?_tokens item h _), List.cons_append, steps?]
      refine hnext.trans ?_
      simp [RawJson.ofItems]

/-- The tokens of fields, with the close behind them, complete the object that is open. -/
theorem steps?_fieldTokens (fields : List (String × Json)) (before : List (Option String × RawJson))
    (frames : List Frame) (hne : fields ≠ []) :
    steps? frames (.key before) (fieldTokens fields ++ [.closeObject]) =
      some (frames, .separator (.object (before.reverse ++ RawJson.ofFields fields))) := by
  match fields with
  | [(key, value)] =>
      have hvalue := steps?_tokens value .value (.member before (some key) :: frames)
      rw [fieldTokens, List.cons_append, steps?]
      refine (steps?_append hvalue [.closeObject]).trans ?_
      simp [steps?, step?, RawJson.ofFields]
  | (key, value) :: next :: rest =>
      have hvalue := steps?_tokens value .value (.member before (some key) :: frames)
      have hnext := steps?_fieldTokens (next :: rest)
        ((some key, RawJson.ofJson value) :: before) frames (List.cons_ne_nil next rest)
      have htokens : fieldTokens ((key, value) :: next :: rest) ++ [.closeObject] =
          .scalar (.string (some key)) :: .colon ::
            (tokens value ++ .comma :: (fieldTokens (next :: rest) ++ [.closeObject])) := by
        simp [fieldTokens]
      rw [htokens, steps?]
      refine (steps?_append hvalue _).trans (hnext.trans ?_)
      simp [RawJson.ofFields]

end

mutual

/-- The tree of a value has the value again, when it is not nested too deep. -/
theorem value?_ofJson (value : Json) {limit : Nat} (h : depth value ≤ limit) :
    RawJson.value? limit (RawJson.ofJson value) = some value := by
  cases value with
  | null | bool | number | string => rfl
  | array items =>
      rw [depth] at h
      obtain ⟨inner, rfl⟩ := Nat.exists_eq_add_one_of_ne_zero (Nat.ne_zero_of_lt h)
      rw [RawJson.ofJson, RawJson.value?, values?_ofItems items (Nat.le_of_succ_le_succ h)]
      rfl
  | object fields =>
      rw [depth] at h
      obtain ⟨inner, rfl⟩ := Nat.exists_eq_add_one_of_ne_zero (Nat.ne_zero_of_lt h)
      rw [RawJson.ofJson, RawJson.value?, fieldValues?_ofFields fields (Nat.le_of_succ_le_succ h)]
      rfl

theorem values?_ofItems (items : List Json) {limit : Nat} (h : itemDepth items ≤ limit) :
    RawJson.values? limit (RawJson.ofItems items) = some items := by
  cases items with
  | nil => rfl
  | cons item rest =>
      rw [itemDepth, Nat.max_le] at h
      rw [RawJson.ofItems, RawJson.values?, value?_ofJson item h.1, values?_ofItems rest h.2]
      rfl

theorem fieldValues?_ofFields (fields : List (String × Json)) {limit : Nat}
    (h : fieldDepth fields ≤ limit) :
    RawJson.fieldValues? limit (RawJson.ofFields fields) = some fields := by
  cases fields with
  | nil => rfl
  | cons field rest =>
      obtain ⟨key, value⟩ := field
      rw [fieldDepth, Nat.max_le] at h
      rw [RawJson.ofFields, RawJson.fieldValues?, value?_ofJson value h.1, fieldValues?_ofFields rest h.2]
      rfl

end

/-! ## From texts to tokens -/

/-- The tokens of a text, with blanks around them. -/
inductive Lexes : List Char → List Token → Prop where
  | nil : Lexes [] []
  | space {c : Char} {rest : List Char} {tokens : List Token} (isSpace : isSpace c = true)
      (behind : Lexes rest tokens) : Lexes (c :: rest) tokens
  | token {c : Char} {rest after : List Char} {token : Token} {tokens : List Token}
      (noSpace : isSpace c = false) (read : token? (c :: rest) = some (token, after))
      (behind : Lexes after tokens) : Lexes (c :: rest) (token :: tokens)

/-- Where tokens lead, the reader gets on their texts. -/
theorem Lexes.run {text : List Char} {tokens : List Token} (h : Lexes text tokens)
    {frames : List Frame} {expected : Expected} {tree : RawJson}
    (hsteps : steps? frames expected tokens = some ([], .separator tree)) :
    run frames expected text = .ok tree := by
  induction h generalizing frames expected with
  | nil =>
      cases hsteps
      rw [Json.run]
  | space isSpace behind ih =>
      rw [Json.run, if_pos isSpace]
      exact ih hsteps
  | token noSpace read behind ih =>
      rw [steps?, Option.bind_eq_some_iff] at hsteps
      obtain ⟨⟨frames', expected'⟩, hstep, hrest⟩ := hsteps
      rw [Json.run, if_neg (by simp [noSpace])]
      split
      · rename_i hnone
        rw [read] at hnone
        cases hnone
      · rename_i found left hfound
        rw [read] at hfound
        cases hfound
        rw [hstep]
        exact ih hrest

/-- A text that lexes to the tokens of a value is read as the tree of this value. -/
theorem readRaw_eq_ok {text : List Char} {value : Json} (h : Lexes text (tokens value)) :
    readRaw text = .ok (RawJson.ofJson value) := by
  simp only [readRaw, h.run (steps?_tokens value .value [])]

/-- A text that lexes to the tokens of a value is read as this value, if it is not nested too deep. -/
theorem read_eq_ok {text : List Char} {value : Json} (h : Lexes text (tokens value))
    (hdepth : depth value ≤ depthLimit) : read text = .ok value.ordered := by
  have hwritten : readWritten text = .ok value := by
    simp only [readWritten, readRaw_eq_ok h, bind, Except.bind, value?_ofJson value hdepth]
  rw [read, hwritten, Except.map]

/-! ## Strings -/

theorem numberOf?_control : ∀ n < 0x20,
    Text.numberOf? 16 ['0', '0', hexDigit (n / 16), hexDigit n] = some n := by
  decide

theorem numbered?_control {n : Nat} (hn : n < 0x20) (more : List Char) :
    numbered? ('0' :: '0' :: hexDigit (n / 16) :: hexDigit n :: more) =
      some (.char (Char.ofNat n), more) := by
  have hunit : Piece.ofUnit n = .char (Char.ofNat n) := if_pos (Or.inl (by omega))
  rw [numbered?, numberOf?_control n hn, Option.map_some, hunit]

/-- A character as it is written inside a string is read as this character. -/
theorem stringPiece?_escapeChar (c : Char) (more : List Char) :
    stringPiece? (escapeChar c ++ more) = some (some (.char c), more) := by
  unfold escapeChar
  split_ifs with h₁ h₂ h₃ h₄ h₅ h₆ h₇
  · rcases h₁ with rfl | rfl <;> rfl
  · subst h₂
    rfl
  · subst h₃
    rfl
  · subst h₄
    rfl
  · subst h₅
    rfl
  · subst h₆
    rfl
  · have hpiece := numbered?_control h₇ more
    rw [Char.ofNat_toNat] at hpiece
    rw [List.cons_append, List.cons_append, stringPiece?]
    simp [hpiece]
  · rw [not_or] at h₁
    rw [List.singleton_append]
    unfold stringPiece?
    split <;> simp_all

theorem stringBody?_escaped (text more : List Char) :
    stringBody? (text.flatMap escapeChar ++ '"' :: more) = some (text.map .char, more) := by
  induction text with
  | nil =>
      rw [stringBody?]
      rfl
  | cons c text ih =>
      rw [List.flatMap_cons, List.append_assoc, stringBody?]
      split <;> rename_i hpiece <;> rw [stringPiece?_escapeChar] at hpiece <;> cases hpiece
      rw [ih]
      rfl

theorem characters?_chars (text : List Char) : characters? (text.map .char) = some text := by
  induction text with
  | nil => rfl
  | cons c text ih =>
      rw [List.map_cons, characters?, ih]
      rfl

/-- A printed string is one token. -/
theorem token?_printString (text more : List Char) :
    token? (printString text ++ more) =
      some (.scalar (.string (some (String.ofList text))), more) := by
  have hbody := stringBody?_escaped text more
  have htext : printString text ++ more = '"' :: (text.flatMap escapeChar ++ '"' :: more) := by
    simp [printString]
  rw [htext, token?, hbody, Option.map_some]
  dsimp only
  rw [characters?_chars]
  rfl

theorem lexes_printString {text rest : List Char} {tokens : List Token} (h : Lexes rest tokens) :
    Lexes (printString text ++ rest) (.scalar (.string (some (String.ofList text))) :: tokens) := by
  have htoken := token?_printString text rest
  rw [printString, List.cons_append, List.cons_append] at htoken ⊢
  exact .token (by decide) htoken h

/-! ## Numbers -/

def digitValues (digits : List Char) : List Nat :=
  digits.map fun c => c.toNat - '0'.toNat

structure Digits (text : List Char) : Prop where
  ne_nil : text ≠ []
  digit : ∀ c ∈ text, c.isDigit = true

/-- A number as it is written without an exponent: perhaps a sign, digits with no zero before others, and
perhaps a point and the digits behind it. -/
inductive NumberText : List Char → NumberLiteral → Prop where
  | intro {negative : Bool} {whole : List Char} {fraction : Option (List Char)} (hwhole : Digits whole)
      (noZero : ¬ ∃ c rest, whole = '0' :: c :: rest) (hfraction : ∀ ds ∈ fraction, Digits ds) :
      NumberText ((if negative then ['-'] else []) ++ (whole ++ fraction.elim [] ('.' :: ·)))
        ⟨negative, digitValues whole, fraction.map digitValues, none⟩

/-- Neither digits nor a point and digits go on here. -/
def EndsDigits (text : List Char) : Prop :=
  ∀ c, text.head? = some c → c.isDigit = false ∧ c ≠ '.'

/-- Nothing of a number starts here. -/
def EndsNumber (text : List Char) : Prop :=
  ∀ c, text.head? = some c → c.isDigit = false ∧ c ≠ '.' ∧ c ≠ 'e' ∧ c ≠ 'E'

theorem EndsNumber.endsDigits {text : List Char} (h : EndsNumber text) : EndsDigits text :=
  fun c hc => ⟨(h c hc).1, (h c hc).2.1⟩

theorem isDigit_iff {c : Char} : c.isDigit = true ↔ '0'.toNat ≤ c.toNat ∧ c.toNat ≤ '9'.toNat := by
  unfold Char.isDigit
  simp only [Bool.and_eq_true, decide_eq_true_eq, ge_iff_le, UInt32.le_iff_toNat_le]
  rfl

theorem digits_append {front more : List Char} (hfront : ∀ c ∈ front, c.isDigit = true)
    (hmore : ∀ c, more.head? = some c → c.isDigit = false) :
    digits (front ++ more) = (digitValues front, more) := by
  induction front with
  | nil =>
      cases more with
      | nil => rfl
      | cons c more =>
          rw [List.nil_append, digits, digit?, if_neg (by simp [hmore c rfl])]
          rfl
  | cons c front ih =>
      have hrest := ih fun d hd => hfront d (List.mem_cons_of_mem c hd)
      rw [List.cons_append, digits, digit?, if_pos (hfront c List.mem_cons_self)]
      simp [hrest, digitValues]

theorem fraction?_append {fraction : Option (List Char)} (hfraction : ∀ ds ∈ fraction, Digits ds)
    {more : List Char} (hmore : EndsDigits more) :
    fraction? (fraction.elim [] ('.' :: ·) ++ more) = some (fraction.map digitValues, more) := by
  cases fraction with
  | none =>
      rw [Option.elim_none, List.nil_append]
      unfold fraction?
      split
      · exact absurd rfl (hmore '.' rfl).2
      · rfl
  | some ds =>
      obtain ⟨hne, hdigit⟩ := hfraction ds rfl
      have hdigits := digits_append hdigit fun c hc => (hmore c hc).1
      obtain ⟨d, ds, rfl⟩ := List.exists_cons_of_ne_nil hne
      rw [Option.elim_some, List.cons_append, fraction?, hdigits]
      rfl

theorem exponent?_eq_none {more : List Char} (hmore : EndsNumber more) :
    exponent? more = some (none, more) := by
  cases more with
  | nil => rfl
  | cons c more =>
      have hc := hmore c rfl
      rw [exponent?, if_neg (by simp [hc.2.2])]

/-- Digits that start with a zero start with the value of one. -/
theorem digitValues_eq_zero_cons {whole : List Char} (hwhole : Digits whole) {values : List Nat}
    (h : digitValues whole = 0 :: values) : ∃ rest, whole = '0' :: rest ∧ digitValues rest = values := by
  obtain ⟨c, rest, rfl⟩ := List.exists_cons_of_ne_nil hwhole.ne_nil
  obtain ⟨hvalue, hrest⟩ := List.cons.inj h
  have hc := isDigit_iff.mp (hwhole.digit c List.mem_cons_self)
  have hchar : c = '0' := Char.toNat_inj.mp (Nat.le_antisymm (Nat.sub_eq_zero_iff_le.mp hvalue) hc.1)
  exact ⟨rest, by rw [hchar], hrest⟩

theorem minus_signed {negative : Bool} {whole : List Char} (hwhole : Digits whole) (more : List Char) :
    minus ((if negative then ['-'] else []) ++ (whole ++ more)) = (negative, whole ++ more) := by
  obtain ⟨c, rest, rfl⟩ := List.exists_cons_of_ne_nil hwhole.ne_nil
  have hc : c ≠ '-' := by
    rintro rfl
    exact absurd (hwhole.digit '-' List.mem_cons_self) (by decide)
  cases negative with
  | true => rfl
  | false => simp [minus, hc]

/-- Behind the digits of a number its exponent is read. -/
theorem NumberText.read_exponent {text : List Char} {literal : NumberLiteral} (h : NumberText text literal)
    {more : List Char} (hmore : EndsDigits more) :
    numberLiteral? (text ++ more) = (exponent? more).map fun (exponent, after) =>
      ({ literal with exponent := exponent }, after) := by
  cases h with
  | @intro negative whole fraction hwhole noZero hfraction =>
      have hbehind : ∀ d, (fraction.elim [] ('.' :: ·) ++ more).head? = some d → d.isDigit = false := by
        intro d hd
        cases fraction with
        | none => exact (hmore d hd).1
        | some ds =>
            cases hd
            decide
      have hdigits := digits_append hwhole.digit hbehind
      rw [List.append_assoc, List.append_assoc]
      unfold numberLiteral?
      rw [minus_signed hwhole]
      dsimp only
      rw [hdigits]
      split
      · rename_i heq
        exact absurd (List.map_eq_nil_iff.mp (congrArg Prod.fst heq)) hwhole.ne_nil
      · rename_i heq
        obtain ⟨rest, rfl, hrest⟩ := digitValues_eq_zero_cons hwhole (congrArg Prod.fst heq)
        cases rest with
        | nil => cases hrest
        | cons c rest => exact absurd ⟨c, rest, rfl⟩ noZero
      · rename_i heq
        obtain ⟨hvalues, rfl⟩ := Prod.mk.inj heq
        rw [fraction?_append hfraction hmore]
        simp only [Option.bind_eq_bind, Option.bind_some, hvalues]
        cases exponent? more <;> rfl

theorem NumberText.read {text : List Char} {literal : NumberLiteral} (h : NumberText text literal)
    {more : List Char} (hmore : EndsNumber more) :
    numberLiteral? (text ++ more) = some (literal, more) := by
  rw [h.read_exponent hmore.endsDigits, exponent?_eq_none hmore]
  cases h
  rfl

/-- What starts like a number is read as one. -/
theorem token?_numeric {c : Char} (h : c = '-' ∨ c.isDigit = true) (rest : List Char) :
    token? (c :: rest) = (numberLiteral? (c :: rest)).map fun (literal, after) =>
      (.scalar (.number literal.value?), after) := by
  have hnone : ∀ d ∈ ['[', ']', '\x7b', '\x7d', ':', ',', '"', 'n', 't', 'f'],
      ¬ (d = '-' ∨ d.isDigit = true) := by
    simp only [List.forall_mem_cons, List.not_mem_nil, false_implies, implies_true, and_true]
    decide
  have hc : c ∉ ['[', ']', '\x7b', '\x7d', ':', ',', '"', 'n', 't', 'f'] := fun hmem => hnone c hmem h
  simp only [List.mem_cons, not_or] at hc
  unfold token?
  split <;> simp_all

theorem NumberText.exists_cons {text : List Char} {literal : NumberLiteral}
    (h : NumberText text literal) : ∃ c rest, text = c :: rest ∧ (c = '-' ∨ c.isDigit = true) := by
  cases h with
  | @intro negative whole fraction hwhole noZero hfraction =>
      obtain ⟨c, rest, rfl⟩ := List.exists_cons_of_ne_nil hwhole.ne_nil
      cases negative with
      | true => exact ⟨_, _, rfl, Or.inl rfl⟩
      | false => exact ⟨_, _, rfl, Or.inr (hwhole.digit c List.mem_cons_self)⟩

/-- A number is written with a sign, a point and digits. -/
theorem NumberText.mem_cases {text : List Char} {literal : NumberLiteral} (h : NumberText text literal) :
    ∀ c ∈ text, c = '-' ∨ c = '.' ∨ c.isDigit = true := by
  cases h with
  | @intro negative whole fraction hwhole noZero hfraction =>
      intro c hc
      rcases List.mem_append.mp hc with hc | hc
      · cases negative with
        | true => exact .inl (List.mem_singleton.mp hc)
        | false => cases hc
      · rcases List.mem_append.mp hc with hc | hc
        · exact .inr (.inr (hwhole.digit c hc))
        · cases fraction with
          | none => cases hc
          | some ds =>
              rcases List.mem_cons.mp hc with rfl | hc
              · exact .inr (.inl rfl)
              · exact .inr (.inr ((hfraction ds rfl).digit c hc))

/-- A written number is one token. -/
theorem NumberText.token? {text : List Char} {literal : NumberLiteral} (h : NumberText text literal)
    {more : List Char} (hmore : EndsNumber more) :
    token? (text ++ more) = some (.scalar (.number literal.value?), more) := by
  have hread := h.read hmore
  obtain ⟨c, rest, rfl, hc⟩ := h.exists_cons
  rw [List.cons_append] at hread ⊢
  rw [token?_numeric hc, hread]
  rfl

end SiteServer.Json
