/-! # Searching a text for a pattern: leftmost occurrences that do not overlap.

Splitting keeps every character outside the occurrences in place, so that a text can be put
together again from its pieces. -/

namespace SiteServer.Text

/-- A part of a searched text: a character outside every occurrence, or an occurrence. -/
inductive Piece (α : Type) where
  | char (c : Char)
  | found (a : α)
  deriving Repr, DecidableEq

/-- A pattern reads one occurrence at the start of a text and leaves a shorter rest. -/
structure Pattern (α : Type) where
  read? : List Char → Option (α × List Char)
  read?_shorter : ∀ {text a rest}, read? text = some (a, rest) → rest.length < text.length

namespace Pattern

variable {α : Type}

/-- The pieces of a text: at each place the pattern is tried first, and a character is passed over
only where the pattern does not occur. -/
def split (p : Pattern α) : List Char → List (Piece α)
  | [] => []
  | c :: rest =>
    match _h : p.read? (c :: rest) with
    | some (a, tail) => .found a :: p.split tail
    | none => .char c :: p.split rest
termination_by text => text.length
decreasing_by
  · exact p.read?_shorter _h
  · simp

@[simp] theorem split_nil (p : Pattern α) : p.split [] = [] := by rw [split]

theorem split_found {p : Pattern α} {text rest : List Char} {a : α}
    (h : p.read? text = some (a, rest)) : p.split text = .found a :: p.split rest := by
  cases text with
  | nil => exact absurd (p.read?_shorter h) (by simp)
  | cons c tail =>
    rw [split]
    split
    · rename_i b r hb
      rw [h] at hb
      cases hb
      rfl
    · rename_i hn
      rw [h] at hn
      cases hn

theorem split_char {p : Pattern α} {c : Char} {rest : List Char}
    (h : p.read? (c :: rest) = none) : p.split (c :: rest) = .char c :: p.split rest := by
  rw [split]
  split
  · rename_i b r hb
    rw [h] at hb
    cases hb
  · rfl

end Pattern

/-- Drops `lead` from the start of a text, if it is there. -/
def dropLead? : List Char → List Char → Option (List Char)
  | [], text => some text
  | _ :: _, [] => none
  | l :: lead, c :: text => if l = c then dropLead? lead text else none

theorem dropLead?_eq_some_iff {lead text rest : List Char} :
    dropLead? lead text = some rest ↔ text = lead ++ rest := by
  induction lead generalizing text with
  | nil => simp [dropLead?, eq_comm]
  | cons l lead ih =>
    cases text with
    | nil => simp [dropLead?]
    | cons c text =>
      by_cases h : l = c
      · simp [dropLead?, h, ih]
      · simp [dropLead?, h, Ne.symm h]

/-- The part of a text before the first `close`, and the part after it. -/
def splitAt? (close : List Char) : List Char → Option (List Char × List Char)
  | [] => (dropLead? close []).map ([], ·)
  | c :: rest =>
    match dropLead? close (c :: rest) with
    | some after => some ([], after)
    | none => (splitAt? close rest).map fun (before, after) => (c :: before, after)

theorem eq_append_of_splitAt? {close text before after : List Char}
    (h : splitAt? close text = some (before, after)) : text = before ++ close ++ after := by
  induction text generalizing before with
  | nil =>
    simp only [splitAt?, Option.map_eq_some_iff] at h
    obtain ⟨rest, hrest, he⟩ := h
    rw [dropLead?_eq_some_iff] at hrest
    cases he
    simpa using hrest
  | cons c rest ih =>
    simp only [splitAt?] at h
    split at h
    · rename_i tail ht
      cases h
      simpa using dropLead?_eq_some_iff.1 ht
    · rw [Option.map_eq_some_iff] at h
      obtain ⟨⟨b, a⟩, hb, he⟩ := h
      cases he
      simp [ih hb]

/-- Leaves out one line end, `\r\n` or `\n`, at the start. -/
def dropLineEnd : List Char → List Char
  | '\r' :: '\n' :: rest => rest
  | '\n' :: rest => rest
  | text => text

/-- The line end that `dropLineEnd` leaves out. -/
def lineEnd : List Char → List Char
  | '\r' :: '\n' :: _ => ['\r', '\n']
  | '\n' :: _ => ['\n']
  | _ => []

theorem lineEnd_append_dropLineEnd (text : List Char) : lineEnd text ++ dropLineEnd text = text := by
  unfold lineEnd dropLineEnd
  split <;> simp_all

theorem dropLineEnd_length_le (text : List Char) : (dropLineEnd text).length ≤ text.length := by
  have h := congrArg List.length (lineEnd_append_dropLineEnd text)
  rw [List.length_append] at h
  omega

end SiteServer.Text
