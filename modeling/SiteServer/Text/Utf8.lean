/-! # UTF-8: characters as bytes, and bytes as characters.

Reading is strict (`decode?`, every byte belongs to a character) or lossy (`decodeLossy`, every
longest prefix of a character that is cut off counts as one replacement character). -/

namespace SiteServer

/-- The content of a file or of a message body. -/
abbrev Bytes := List UInt8

namespace Text.Utf8

def encodeChar (c : Char) : Bytes :=
  let n := c.toNat
  if n < 0x80 then [n.toUInt8]
  else if n < 0x800 then [(0xC0 + n / 0x40).toUInt8, (0x80 + n % 0x40).toUInt8]
  else if n < 0x10000 then
    [(0xE0 + n / 0x1000).toUInt8, (0x80 + n / 0x40 % 0x40).toUInt8, (0x80 + n % 0x40).toUInt8]
  else
    [(0xF0 + n / 0x40000).toUInt8, (0x80 + n / 0x1000 % 0x40).toUInt8,
     (0x80 + n / 0x40 % 0x40).toUInt8, (0x80 + n % 0x40).toUInt8]

def encode (text : List Char) : Bytes :=
  text.flatMap encodeChar

def byteSize (text : List Char) : Nat :=
  (text.map fun c => (encodeChar c).length).foldr (· + ·) 0

/-- What a first byte announces: the bits it carries, and the range of each byte that must follow.
Bytes that start no character announce nothing. -/
def lead? (b : UInt8) : Option (Nat × List (UInt8 × UInt8)) :=
  if b < 0x80 then some (b.toNat, [])
  else if b < 0xC2 then none
  else if b < 0xE0 then some (b.toNat - 0xC0, [(0x80, 0xBF)])
  else if b = 0xE0 then some (0, [(0xA0, 0xBF), (0x80, 0xBF)])
  else if b = 0xED then some (0xD, [(0x80, 0x9F), (0x80, 0xBF)])
  else if b < 0xF0 then some (b.toNat - 0xE0, [(0x80, 0xBF), (0x80, 0xBF)])
  else if b = 0xF0 then some (0, [(0x90, 0xBF), (0x80, 0xBF), (0x80, 0xBF)])
  else if b < 0xF4 then some (b.toNat - 0xF0, [(0x80, 0xBF), (0x80, 0xBF), (0x80, 0xBF)])
  else if b = 0xF4 then some (4, [(0x80, 0x8F), (0x80, 0xBF), (0x80, 0xBF)])
  else none

/-- Reads the bytes that a first byte announced; `none` when one is missing, with the rest from that
place on. -/
def follow (bits : Nat) : List (UInt8 × UInt8) → Bytes → Option Nat × Bytes
  | [], rest => (some bits, rest)
  | _ :: _, [] => (none, [])
  | (low, high) :: ranges, b :: rest =>
    if low ≤ b ∧ b ≤ high then follow (bits * 0x40 + (b.toNat - 0x80)) ranges rest
    else (none, b :: rest)

theorem follow_length_le (bits : Nat) (ranges : List (UInt8 × UInt8)) (bytes : Bytes) :
    (follow bits ranges bytes).2.length ≤ bytes.length := by
  induction ranges generalizing bits bytes with
  | nil => simp [follow]
  | cons range ranges ih =>
    cases bytes with
    | nil => simp [follow]
    | cons b rest =>
      simp only [follow]
      split
      · exact Nat.le_trans (ih _ _) (by simp)
      · simp

/-- The characters of a byte sequence, with `none` for each stretch that is no character. -/
def characters : Bytes → List (Option Char)
  | [] => []
  | b :: rest =>
    match lead? b with
    | none => none :: characters rest
    | some (bits, ranges) =>
      (follow bits ranges rest).1.map Char.ofNat :: characters (follow bits ranges rest).2
termination_by bytes => bytes.length
decreasing_by
  · simp
  · have := follow_length_le bits ranges rest
    simp only [List.length_cons]
    omega

/-- The text of a byte sequence, if every byte belongs to a character. -/
def decode? (bytes : Bytes) : Option (List Char) :=
  (characters bytes).mapM id

/-- The text of a byte sequence, with U+FFFD for each stretch that is no character. -/
def decodeLossy (bytes : Bytes) : List Char :=
  (characters bytes).map (·.getD '\uFFFD')

/-- A text takes at least one byte for each character. -/
theorem length_le_byteSize (text : List Char) : text.length ≤ byteSize text := by
  induction text with
  | nil => simp [byteSize]
  | cons c rest ih =>
    have hc : 1 ≤ (encodeChar c).length := by
      unfold encodeChar
      dsimp only
      split
      · simp
      · split
        · simp
        · split <;> simp
    simp only [byteSize, List.map_cons, List.foldr_cons, List.length_cons] at ih ⊢
    omega

end Text.Utf8

def bytesOf (text : String) : Bytes :=
  Text.Utf8.encode text.toList

/-- The string that a byte sequence spells, if it spells one. -/
def stringOf? (bytes : Bytes) : Option String :=
  (Text.Utf8.decode? bytes).map String.ofList

/-- The string that a byte sequence spells, with U+FFFD where it spells nothing. -/
def stringOfLossy (bytes : Bytes) : String :=
  String.ofList (Text.Utf8.decodeLossy bytes)

end SiteServer
