import Mathlib.Data.List.Infix
import Mathlib.Tactic.SplitIfs
import SiteServer.Proofs.Text.Slice
import SiteServer.Proofs.Text.Utf8
import SiteServer.Text.Boundary

/-! # Where the bytes of a text can be cut.

The places where no character is cut are the sizes of the starts of the text. The search back from a place
ends at the last of them that is not behind it, after three bytes at most. -/

namespace SiteServer

namespace Text.Utf8

variable {text front : List Char} {bytes : Bytes} {place limit : Nat}

/-! ## The bytes of a character -/

theorem goesOn_toUInt8 {n : Nat} (h : n < 0x100) :
    goesOn n.toUInt8 = decide (0x80 ≤ n ∧ n < 0xC0) := by
  have hn : n.toUInt8.toNat = n := by simp [Nat.toUInt8, Nat.mod_eq_of_lt h]
  simp [goesOn, UInt8.le_iff_toNat_le, UInt8.lt_iff_toNat_lt, hn]

/-- A character starts with a byte that goes on with nothing, and goes on for three bytes at most. -/
theorem exists_encodeChar_eq (c : Char) : ∃ b more, encodeChar c = b :: more ∧ goesOn b = false ∧
    (∀ d ∈ more, goesOn d = true) ∧ more.length ≤ 3 := by
  have hvalid : c.toNat < 0xD800 ∨ 0xDFFF < c.toNat ∧ c.toNat < 0x110000 := c.valid
  have hnext (n : Nat) : goesOn (0x80 + n % 0x40).toUInt8 = true := by
    rw [goesOn_toUInt8 (by omega), decide_eq_true_eq]
    omega
  unfold encodeChar
  dsimp only
  split_ifs with h₁ h₂ h₃
  all_goals
    refine ⟨_, _, rfl, ?_, ?_, by simp⟩
    · rw [goesOn_toUInt8 (by omega), decide_eq_false_iff_not]
      omega
    · simp only [List.mem_cons, List.not_mem_nil, or_false, forall_eq_or_imp, forall_eq,
        false_imp_iff, implies_true, hnext, and_self]

/-! ## Sizes -/

theorem encode_cons (c : Char) (text : List Char) :
    encode (c :: text) = encodeChar c ++ encode text := by
  simp [encode]

theorem encode_append (front behind : List Char) :
    encode (front ++ behind) = encode front ++ encode behind := by
  simp [encode]

theorem length_encode (text : List Char) : (encode text).length = byteSize text := by
  induction text with
  | nil => rfl
  | cons c text ih => simp [encode_cons, ih]

/-- Of two starts of a text the one that takes no more bytes is a start of the other. -/
theorem prefix_of_byteSize_le {other : List Char} (hfront : front <+: text) (hother : other <+: text)
    (h : byteSize other ≤ byteSize front) : other <+: front := by
  rcases List.prefix_or_prefix_of_prefix hother hfront with hprefix | ⟨more, rfl⟩
  · exact hprefix
  · rw [byteSize_append] at h
    have hnil : more = [] := byteSize_eq_zero_iff.mp (by omega)
    simp [hnil]

/-! ## Places where no character is cut -/

theorem isBoundary_append {before after : Bytes} (h : ∀ b, after.head? = some b → goesOn b = false) :
    isBoundary (before ++ after) before.length = true := by
  cases after with
  | nil => simp [isBoundary]
  | cons b after => simp [isBoundary, h b rfl]

/-- A byte that goes on with a character is no place to cut at. -/
theorem isBoundary_goesOn {before after : Bytes} {b : UInt8} (hbefore : before ≠ [])
    (hb : goesOn b = true) : isBoundary (before ++ b :: after) before.length = false := by
  simp [isBoundary, hbefore, hb]

theorem isBoundary_of_length_lt (h : bytes.length < place) : isBoundary bytes place = false := by
  have hzero : place ≠ 0 := by omega
  have hend : place ≠ bytes.length := by omega
  simp [isBoundary, List.getElem?_eq_none (Nat.le_of_lt h), hzero, hend]

theorem goesOn_of_head?_encode (text : List Char) :
    ∀ b, (encode text).head? = some b → goesOn b = false := by
  intro b hb
  cases text with
  | nil => cases hb
  | cons c text =>
      obtain ⟨d, more, hc, hd, _⟩ := exists_encodeChar_eq c
      rw [encode_cons, hc] at hb
      cases hb
      exact hd

/-- A place in the bytes of a text is the size of a start of it, or there stands a byte that goes on with a
character. -/
theorem start_or_goesOn (h : place ≤ byteSize text) :
    (∃ front, front <+: text ∧ byteSize front = place) ∨
      ∃ before b after, encode text = before ++ b :: after ∧ before ≠ [] ∧ before.length = place ∧
        goesOn b = true := by
  induction text generalizing place with
  | nil => exact .inl ⟨[], List.prefix_rfl, (Nat.le_zero.mp h).symm⟩
  | cons c text ih =>
      by_cases hzero : place = 0
      · exact .inl ⟨[], List.nil_prefix, hzero.symm⟩
      obtain ⟨d, more, hc, _, hmore, _⟩ := exists_encodeChar_eq c
      have hsize : (encodeChar c).length = more.length + 1 := by simp [hc]
      by_cases hinside : place < (encodeChar c).length
      · obtain ⟨n, rfl⟩ := Nat.exists_eq_succ_of_ne_zero hzero
        have hn : n < more.length := by omega
        refine .inr ⟨d :: more.take n, more[n], more.drop (n + 1) ++ encode text, ?_, by simp, ?_,
          hmore _ (List.getElem_mem hn)⟩
        · rw [encode_cons, hc, ← List.cons_append, ← List.append_assoc]
          simp
        · simp
          omega
      · rw [byteSize_cons] at h
        rcases @ih (place - (encodeChar c).length) (by omega) with
          ⟨front, hfront, hlength⟩ | ⟨before, b, after, htext, hbefore, hlength, hb⟩
        · refine .inl ⟨c :: front, List.cons_prefix_cons.mpr ⟨rfl, hfront⟩, ?_⟩
          rw [byteSize_cons]
          omega
        · refine .inr ⟨encodeChar c ++ before, b, after, ?_, by simp [hbefore], ?_, hb⟩
          · rw [encode_cons, htext, List.append_assoc]
          · rw [List.length_append]
            omega

theorem isBoundary_encode_iff :
    isBoundary (encode text) place = true ↔ ∃ front, front <+: text ∧ byteSize front = place := by
  constructor
  · intro h
    by_cases hplace : place ≤ byteSize text
    · rcases start_or_goesOn hplace with hfront | ⟨before, b, after, htext, hbefore, rfl, hb⟩
      · exact hfront
      · rw [htext, isBoundary_goesOn hbefore hb] at h
        cases h
    · rw [isBoundary_of_length_lt (by rw [length_encode]; omega)] at h
      cases h
  · rintro ⟨front, ⟨behind, rfl⟩, rfl⟩
    rw [encode_append, ← length_encode]
    exact isBoundary_append (goesOn_of_head?_encode behind)

/-- A place in the bytes of a text is at most three bytes behind one where no character is cut. -/
theorem exists_start_near (h : limit ≤ byteSize text) :
    ∃ front, front <+: text ∧ byteSize front ≤ limit ∧ limit ≤ byteSize front + 3 := by
  induction text generalizing limit with
  | nil => exact ⟨[], List.prefix_rfl, Nat.zero_le _, Nat.le_trans h (Nat.zero_le _)⟩
  | cons c text ih =>
      obtain ⟨d, more, hc, _, _, hmore⟩ := exists_encodeChar_eq c
      have hsize : (encodeChar c).length = more.length + 1 := by simp [hc]
      by_cases hinside : limit < (encodeChar c).length
      · refine ⟨[], List.nil_prefix, Nat.zero_le _, ?_⟩
        rw [byteSize_nil]
        omega
      · rw [byteSize_cons] at h
        obtain ⟨front, hfront, hle, hnear⟩ := @ih (limit - (encodeChar c).length) (by omega)
        refine ⟨c :: front, List.cons_prefix_cons.mpr ⟨rfl, hfront⟩, ?_, ?_⟩
        · rw [byteSize_cons]
          omega
        · rw [byteSize_cons]
          omega

/-! ## The search back -/

/-- The search never goes on below the start, and ends at the last place, not behind the given one, where no
character is cut. -/
theorem boundaryBefore?_spec (bytes : Bytes) (limit : Nat) : ∃ place ≤ limit,
    boundaryBefore? bytes limit = some place ∧ isBoundary bytes place = true ∧
      ∀ other ≤ limit, isBoundary bytes other = true → other ≤ place := by
  induction limit with
  | zero => exact ⟨0, Nat.le_refl 0, rfl, rfl, fun _ hother _ => hother⟩
  | succ limit ih =>
      rw [boundaryBefore?]
      by_cases hlimit : isBoundary bytes (limit + 1) = true
      · rw [if_pos hlimit]
        exact ⟨limit + 1, Nat.le_refl _, rfl, hlimit, fun _ hother _ => hother⟩
      · rw [if_neg hlimit]
        obtain ⟨place, hplace, hfound, hboundary, hlast⟩ := ih
        refine ⟨place, Nat.le_succ_of_le hplace, hfound, hboundary, ?_⟩
        intro other hother hcut
        rcases Nat.le_succ_iff.mp hother with hle | rfl
        · exact hlast other hle hcut
        · exact absurd hcut hlimit

/-- In a text the search ends at the size of the longest start that takes no more bytes than are given. -/
theorem exists_boundaryBefore?_eq (h : limit ≤ byteSize text) : ∃ front, front <+: text ∧
    boundaryBefore? (encode text) limit = some (byteSize front) ∧ byteSize front ≤ limit ∧
      limit ≤ byteSize front + 3 ∧
      ∀ other, other <+: text → byteSize other ≤ limit → other <+: front := by
  obtain ⟨place, hplace, hfound, hboundary, hlast⟩ := boundaryBefore?_spec (encode text) limit
  obtain ⟨front, hfront, rfl⟩ := isBoundary_encode_iff.mp hboundary
  refine ⟨front, hfront, hfound, hplace, ?_, ?_⟩
  · obtain ⟨near, hnear, hle, hlimit⟩ := exists_start_near h
    have := hlast _ hle (isBoundary_encode_iff.mpr ⟨near, hnear, rfl⟩)
    omega
  · intro other hother hle
    exact prefix_of_byteSize_le hfront hother
      (hlast _ hle (isBoundary_encode_iff.mpr ⟨other, hother, rfl⟩))

/-- The text before the place at the size of a start is that start. -/
theorem textBefore?_start (h : front <+: text) :
    textBefore? (encode text) (byteSize front) = some (String.ofList front) := by
  have hboundary := isBoundary_encode_iff.mpr ⟨front, h, rfl⟩
  obtain ⟨behind, rfl⟩ := h
  rw [textBefore?, if_pos hboundary, encode_append, ← length_encode, List.take_left, stringOf?,
    decode?_encode, Option.map_some]

end Text.Utf8

theorem length_bytesOf (text : String) : (bytesOf text).length = Text.Utf8.byteSize text.toList :=
  Text.Utf8.length_encode text.toList

end SiteServer
