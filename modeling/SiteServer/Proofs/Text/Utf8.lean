import Mathlib.Tactic.SplitIfs
import SiteServer.Text.Utf8

/-! # Texts as bytes and back.

The first byte of a character tells how many follow, and in which range the second one lies, so that the
bytes of a text are cut into those of its characters again. -/

namespace SiteServer

namespace Text.Utf8

/-! ## The bytes of one character -/

theorem characters_cons {b : UInt8} {bits : Nat} {ranges : List (UInt8 × UInt8)}
    (h : lead? b = some (bits, ranges)) (rest : Bytes) :
    characters (b :: rest) =
      (follow bits ranges rest).1.map Char.ofNat :: characters (follow bits ranges rest).2 := by
  rw [characters]
  split
  · rename_i hnone
    rw [h] at hnone
    cases hnone
  · rename_i hsome
    rw [h] at hsome
    cases hsome
    rfl

/-- A byte in the range that is expected carries six bits. -/
theorem follow_cons {low high : UInt8} {n : Nat} (hlow : low.toNat ≤ 0x80 + n) (hhigh : 0x80 + n ≤ high.toNat)
    (bits : Nat) (ranges : List (UInt8 × UInt8)) (rest : Bytes) :
    follow bits ((low, high) :: ranges) ((0x80 + n).toUInt8 :: rest) =
      follow (bits * 0x40 + n) ranges rest := by
  have hb : (0x80 + n).toUInt8.toNat = 0x80 + n := by
    have := high.toNat_lt
    simp [Nat.toUInt8, Nat.mod_eq_of_lt (show 0x80 + n < 256 by omega)]
  rw [follow, if_pos]
  · rw [hb, Nat.add_sub_cancel_left]
  · rw [UInt8.le_iff_toNat_le, UInt8.le_iff_toNat_le, hb]
    exact ⟨hlow, hhigh⟩

/-- The bits of a first byte, and the ranges of the bytes that follow it. -/
theorem lead?_encoded :
    (∀ n < 0x80, lead? n.toUInt8 = some (n, [])) ∧
    (∀ n < 0x20, n < 2 ∨ lead? (0xC0 + n).toUInt8 = some (n, [(0x80, 0xBF)])) ∧
    (∀ n < 0x10, lead? (0xE0 + n).toUInt8 =
      some (n, [(if n = 0 then 0xA0 else 0x80, if n = 0xD then 0x9F else 0xBF), (0x80, 0xBF)])) ∧
    ∀ n < 5, lead? (0xF0 + n).toUInt8 = some (n,
      [(if n = 0 then 0x90 else 0x80, if n = 4 then 0x8F else 0xBF), (0x80, 0xBF), (0x80, 0xBF)]) :=
  ⟨by decide, by decide, by decide, by decide⟩

/-- The bytes of a character are read as the character, whatever bytes are behind them. -/
theorem characters_encodeChar (c : Char) (rest : Bytes) :
    characters (encodeChar c ++ rest) = some c :: characters rest := by
  obtain ⟨hone, htwo, hthree, hfour⟩ := lead?_encoded
  have hvalid : c.toNat < 0xD800 ∨ 0xDFFF < c.toNat ∧ c.toNat < 0x110000 := c.valid
  have hchar {n : Nat} (h : n = c.toNat) : (some n).map Char.ofNat = some c := by
    rw [h, Option.map_some, Char.ofNat_toNat]
  unfold encodeChar
  dsimp only
  split_ifs with h₁ h₂ h₃
  · rw [List.singleton_append, characters_cons (hone _ h₁), follow, hchar rfl]
  · rw [List.cons_append, List.singleton_append, characters_cons ((htwo _ (by omega)).resolve_left (by omega)),
      follow_cons (by simp) (by simp; omega), follow, hchar (by omega)]
  · rw [List.cons_append, List.cons_append, List.singleton_append, characters_cons (hthree _ (by omega)),
      follow_cons (by split_ifs <;> simp; omega) (by split_ifs <;> simp <;> omega),
      follow_cons (by simp) (by simp; omega), follow, hchar (by omega)]
  · rw [List.cons_append, List.cons_append, List.cons_append, List.singleton_append,
      characters_cons (hfour _ (by omega)),
      follow_cons (by split_ifs <;> simp; omega) (by split_ifs <;> simp <;> omega),
      follow_cons (by simp) (by simp; omega), follow_cons (by simp) (by simp; omega), follow,
      hchar (by omega)]

/-! ## The bytes of a text -/

theorem characters_encode (text : List Char) : characters (encode text) = text.map some := by
  induction text with
  | nil => rw [encode, List.flatMap_nil, characters, List.map_nil]
  | cons c text ih => rw [encode, List.flatMap_cons, characters_encodeChar, ← encode, ih, List.map_cons]

theorem decode?_encode (text : List Char) : decode? (encode text) = some text := by
  rw [decode?, characters_encode]
  induction text with
  | nil => rfl
  | cons c text ih => simp [ih]

end Text.Utf8

/-- What was written as a text is read as the same text. -/
theorem stringOf?_bytesOf (text : String) : stringOf? (bytesOf text) = some text := by
  rw [stringOf?, bytesOf, Text.Utf8.decode?_encode, Option.map_some, String.ofList_toList]

end SiteServer
