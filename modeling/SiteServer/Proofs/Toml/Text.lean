import SiteServer.Proofs.Json.Printing
import SiteServer.Proofs.Text.Split
import SiteServer.Toml.Reader

/-! # Texts and keys as they are written in a document.

A text stands in quotes, with escapes for what a string cannot hold, and a key stands without quotes where it
can. What is written is read again, if nothing behind it goes on with it. -/

namespace SiteServer.Toml

variable {more : List Char}

/-! ## Texts -/

/-- A character inside a string: as in JSON, where only the last control character may stand for itself. -/
def escapeChar (c : Char) : List Char :=
  if c = '\x7f' then ['\\', 'u', '0', '0', '7', 'f'] else Json.escapeChar c

def quoted (text : List Char) : List Char :=
  '"' :: (text.flatMap escapeChar ++ ['"'])

theorem basic?_escape {rest after : List Char} {c : Char} (h : escape? rest = some (c, after)) :
    basic? ('\\' :: rest) = (basic? after).map fun (cs, left) => (c :: cs, left) := by
  rw [basic?]
  split
  · rename_i hnone
    rw [h] at hnone
    cases hnone
  · rename_i hsome
    rw [h] at hsome
    cases hsome
    rfl

theorem basic?_shown {c : Char} (hquote : c ≠ '"') (hescape : c ≠ '\\') (hshown : isShown c = true)
    (rest : List Char) :
    basic? (c :: rest) = (basic? rest).map fun (cs, left) => (c :: cs, left) := by
  rw [basic?]
  · rw [if_pos hshown]
  · exact hquote
  · exact hescape

theorem escape?_control {n : Nat} (h : n < 0x20) (more : List Char) :
    escape? ('u' :: '0' :: '0' :: Json.hexDigit (n / 16) :: Json.hexDigit n :: more) =
      some (Char.ofNat n, more) := by
  have hscalar : scalar? n = some (Char.ofNat n) := if_pos (.inl (by omega))
  simp [escape?, numbered?, Json.numberOf?_control n h, hscalar]

/-- A character as it is written inside a string is read as this character. -/
theorem basic?_escapeChar (c : Char) (more : List Char) :
    basic? (escapeChar c ++ more) = (basic? more).map fun (cs, left) => (c :: cs, left) := by
  unfold escapeChar Json.escapeChar
  split_ifs with h₀ h₁ h₂ h₃ h₄ h₅ h₆ h₇
  · subst h₀
    exact basic?_escape rfl
  · rcases h₁ with rfl | rfl <;> exact basic?_escape rfl
  · subst h₂
    exact basic?_escape rfl
  · subst h₃
    exact basic?_escape rfl
  · subst h₄
    exact basic?_escape rfl
  · subst h₅
    exact basic?_escape rfl
  · subst h₆
    exact basic?_escape rfl
  · have hescape := escape?_control h₇ more
    rw [Char.ofNat_toNat] at hescape
    exact basic?_escape hescape
  · rw [not_or] at h₁
    have hspace : ' ' ≤ c := by
      rw [Char.le_def, UInt32.le_iff_toNat_le]
      exact Nat.le_of_not_lt h₇
    exact basic?_shown h₁.1 h₁.2 (by simp [isShown, hspace, h₀]) more

theorem basic?_escaped (text more : List Char) :
    basic? (text.flatMap escapeChar ++ '"' :: more) = some (text, more) := by
  induction text with
  | nil => rw [List.flatMap_nil, List.nil_append, basic?]
  | cons c text ih => rw [List.flatMap_cons, List.append_assoc, basic?_escapeChar, ih, Option.map_some]

theorem string?_basic {rest : List Char} (h : ∀ more, rest ≠ '"' :: '"' :: more) :
    string? ('"' :: rest) = basic? rest := by
  unfold string?
  split
  · rename_i heq
    exact absurd (List.cons.inj heq).2 (h _)
  · rename_i heq
    cases (List.cons.inj heq).1
  · rename_i heq
    rw [(List.cons.inj heq).2]
  · rename_i heq
    cases (List.cons.inj heq).1
  · rename_i hno _
    exact absurd rfl (hno rest)

/-- Inside a string no quote stands for itself. -/
theorem escapeChar_eq_cons (c : Char) : ∃ d rest, escapeChar c = d :: rest ∧ d ≠ '"' := by
  unfold escapeChar Json.escapeChar
  split_ifs with h₀ h₁
  all_goals refine ⟨_, _, rfl, ?_⟩
  all_goals first | decide | exact fun h => h₁ (.inl h)

theorem string?_quoted (text : List Char) (h : more.head? ≠ some '"') :
    string? (quoted text ++ more) = some (text, more) := by
  have htext : quoted text ++ more = '"' :: (text.flatMap escapeChar ++ '"' :: more) := by
    simp [quoted]
  rw [htext, string?_basic, basic?_escaped]
  intro behind heq
  cases text with
  | nil => exact h (by rw [(List.cons.inj heq).2]; rfl)
  | cons c text =>
      obtain ⟨d, rest, hescape, hd⟩ := escapeChar_eq_cons c
      rw [List.flatMap_cons, hescape] at heq
      exact hd (List.cons.inj heq).1

/-! ## Blanks -/

/-- Nothing is left out before this text. -/
def Begins (text : List Char) : Prop :=
  ∀ c, text.head? = some c → c ∉ [' ', '\t', '#', '\n', '\r']

theorem skipBlanks_begins (h : Begins more) : skipBlanks more = more := by
  refine Text.dropWhile_eq_self fun c hc => ?_
  have hne := h c hc
  simp only [List.mem_cons, not_or] at hne
  simp [isBlank, hne]

theorem skipSpace_begins (h : Begins more) : skipSpace more = more := by
  have hcomment : skipComment (skipBlanks more) = more := by
    rw [skipBlanks_begins h]
    unfold skipComment
    split
    · exact absurd (h '#' rfl) (by decide)
    · rfl
  have hend : lineEnd? more = none := by
    unfold lineEnd?
    split
    · exact absurd (h '\n' rfl) (by decide)
    · exact absurd (h '\r' rfl) (by decide)
    · rfl
  rw [skipSpace]
  split
  · rename_i hsome
    rw [hcomment, hend] at hsome
    cases hsome
  · exact hcomment

/-! ## Keys -/

/-- A key stands without quotes where it can. -/
def writtenKey (key : String) : List Char :=
  if key.toList ≠ [] ∧ key.toList.all isBareKeyChar then key.toList else quoted key.toList

/-- A key begins with a quote or with a character of a key without quotes. -/
theorem writtenKey_eq_cons (key : String) :
    ∃ c rest, writtenKey key = c :: rest ∧ (c = '"' ∨ isBareKeyChar c = true) := by
  unfold writtenKey
  split
  · rename_i h
    obtain ⟨c, rest, hcons⟩ := List.exists_cons_of_ne_nil h.1
    rw [hcons, List.all_cons, Bool.and_eq_true] at h
    exact ⟨c, rest, hcons, .inr h.2.1⟩
  · exact ⟨_, _, rfl, .inl rfl⟩

theorem keyPart?_bare {key : List Char} (hne : key ≠ []) (hbare : ∀ c ∈ key, isBareKeyChar c = true)
    {mark : Char} (h : isBareKeyChar mark = false) (more : List Char) :
    keyPart? (key ++ mark :: more) = some (String.ofList key, mark :: more) := by
  have htake : (key ++ mark :: more).takeWhile isBareKeyChar = key := by
    rw [List.takeWhile_append_of_pos hbare, List.takeWhile_cons_of_neg (by simp [h]), List.append_nil]
  have hdrop : (key ++ mark :: more).dropWhile isBareKeyChar = mark :: more := by
    rw [List.dropWhile_append_of_pos hbare, List.dropWhile_cons_of_neg (by simp [h])]
  obtain ⟨c, rest, rfl⟩ := List.exists_cons_of_ne_nil hne
  have hc := hbare c List.mem_cons_self
  unfold keyPart?
  split
  · rename_i heq
    rw [(List.cons.inj heq).1] at hc
    exact absurd hc (by decide)
  · rename_i heq
    rw [(List.cons.inj heq).1] at hc
    exact absurd hc (by decide)
  · rw [htake, hdrop]

theorem keyPart?_writtenKey (key : String) {mark : Char} (h : isBareKeyChar mark = false) (more : List Char) :
    keyPart? (writtenKey key ++ mark :: more) = some (key, mark :: more) := by
  unfold writtenKey
  split
  · rename_i hbare
    rw [keyPart?_bare hbare.1 (List.all_eq_true.mp hbare.2) h, String.ofList_toList]
  · have htext : quoted key.toList ++ mark :: more =
        '"' :: (key.toList.flatMap escapeChar ++ '"' :: mark :: more) := by
      simp [quoted]
    rw [htext, keyPart?, basic?_escaped]
    exact congrArg (fun part => some (part, mark :: more)) String.ofList_toList

theorem begins_writtenKey (key : String) (more : List Char) : Begins (writtenKey key ++ more) := by
  obtain ⟨c, rest, hkey, hc⟩ := writtenKey_eq_cons key
  rw [hkey]
  intro d hd
  obtain rfl : c = d := Option.some.inj hd
  rcases hc with rfl | hc
  · decide
  · exact Text.not_mem_of_all (by decide) hc

/-- No key begins like a header. -/
theorem writtenKey_ne_header (key : String) (more rest : List Char) : writtenKey key ++ more ≠ '[' :: rest := by
  intro heq
  obtain ⟨c, tail, hcons, hc⟩ := writtenKey_eq_cons key
  rw [hcons] at heq
  rw [(List.cons.inj heq).1] at hc
  exact absurd hc (by decide)

/-- A key of one part, when what is behind it goes on with no further part. -/
theorem key?_writtenKey (fuel : Nat) (key : String) {mark : Char} (h : isBareKeyChar mark = false)
    {behind : List Char} (hskip : skipBlanks (mark :: more) = behind) (hdot : behind.head? ≠ some '.') :
    key? (fuel + 1) (writtenKey key ++ mark :: more) = some ([key], behind) := by
  rw [key?, skipBlanks_begins (begins_writtenKey key _), keyPart?_writtenKey key h]
  simp only [Option.bind_eq_bind, Option.bind_some, hskip]
  split
  · exact absurd rfl hdot
  · rfl

end SiteServer.Toml
