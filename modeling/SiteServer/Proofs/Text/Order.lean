import Mathlib.Tactic.SplitIfs
import SiteServer.Text.Utf8

/-! # The order of texts and of their bytes.

Characters with more bytes have greater first bytes, and among those with equally many the bytes are digits,
leading digit first. So texts that are in order have bytes that are in order. -/

namespace SiteServer

namespace Text.Utf8

/-- A byte decides, or else the bytes behind it do. -/
theorem cons_lt_cons {m n : Nat} (hle : m ≤ n) (hn : n < 0x100) {front behind : Bytes}
    (h : m = n → front < behind) : m.toUInt8 :: front < n.toUInt8 :: behind := by
  have hbyte {k : Nat} (hk : k < 0x100) : k.toUInt8.toNat = k := by
    simp [Nat.toUInt8, Nat.mod_eq_of_lt hk]
  rcases Nat.lt_or_eq_of_le hle with hlt | rfl
  · refine List.cons_lt_cons_iff.mpr (.inl ?_)
    rwa [UInt8.lt_iff_toNat_lt, hbyte (Nat.lt_trans hlt hn), hbyte hn]
  · exact List.cons_lt_cons_iff.mpr (.inr ⟨rfl, h rfl⟩)

/-- Of two characters the first bytes that differ decide, whatever is behind the characters. -/
theorem encodeChar_lt {c d : Char} (h : c < d) (front behind : Bytes) :
    encodeChar c ++ front < encodeChar d ++ behind := by
  have hlt : c.toNat < d.toNat := h
  have hbound : d.toNat < 0x110000 := by
    have hvalid : d.toNat < 0xD800 ∨ 0xDFFF < d.toNat ∧ d.toNat < 0x110000 := d.valid
    omega
  -- One case for each pair of lengths; bytes are compared until the quotients cannot be equal any more.
  unfold encodeChar
  dsimp only
  split_ifs
  all_goals
    repeat refine cons_lt_cons (by omega) (by omega) fun _ => ?_
  all_goals omega

theorem encodeChar_ne_nil (c : Char) : encodeChar c ≠ [] := by
  unfold encodeChar
  dsimp only
  split_ifs <;> exact List.cons_ne_nil _ _

theorem encode_lt {text other : List Char} (h : text < other) : encode text < encode other := by
  induction text generalizing other with
  | nil =>
      cases other with
      | nil => exact absurd h (List.lt_irrefl [])
      | cons d other =>
          obtain ⟨b, bytes, hbytes⟩ := List.exists_cons_of_ne_nil (encodeChar_ne_nil d)
          rw [encode, encode, List.flatMap_nil, List.flatMap_cons, hbytes, List.cons_append]
          exact List.nil_lt_cons b _
  | cons c text ih =>
      cases other with
      | nil => exact absurd h (List.not_lt_nil _)
      | cons d other =>
          rw [encode, encode, List.flatMap_cons, List.flatMap_cons, ← encode, ← encode]
          rcases List.cons_lt_cons_iff.mp h with hlt | ⟨rfl, hrest⟩
          · exact encodeChar_lt hlt _ _
          · exact List.append_left_lt (ih hrest)

end Text.Utf8

/-- Texts in order have bytes in order. -/
theorem bytesOf_lt {text other : String} (h : text < other) : bytesOf text < bytesOf other :=
  Text.Utf8.encode_lt (String.lt_iff.mp h)

end SiteServer
