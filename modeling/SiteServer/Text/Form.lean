import SiteServer.Text.Utf8

/-! # Urlencoded pairs: query strings and form bodies. -/

namespace SiteServer.Text.Form

/-- The value of a hexadecimal digit in either case. -/
def hexDigit? (b : UInt8) : Option UInt8 :=
  if 0x30 ≤ b ∧ b ≤ 0x39 then some (b - 0x30)
  else if 0x41 ≤ b ∧ b ≤ 0x46 then some (b - 0x37)
  else if 0x61 ≤ b ∧ b ≤ 0x66 then some (b - 0x57)
  else none

/-- Writes `+` as a space and `%` with two hexadecimal digits as the byte they name; any other `%`
stands for itself. -/
def decodeBytes : Bytes → Bytes
  | 0x25 :: a :: b :: rest =>
    match hexDigit? a, hexDigit? b with
    | some high, some low => (high * 16 + low) :: decodeBytes rest
    | _, _ => 0x25 :: decodeBytes (a :: b :: rest)
  | 0x2B :: rest => 0x20 :: decodeBytes rest
  | c :: rest => c :: decodeBytes rest
  | [] => []
termination_by bytes => bytes.length

def decode (bytes : Bytes) : String :=
  stringOfLossy (decodeBytes bytes)

/-- One pair: the name ends at the first `=`, and without one the value is empty. -/
def pair (piece : Bytes) : String × String :=
  (decode (piece.takeWhile (· ≠ 0x3D)), decode ((piece.dropWhile (· ≠ 0x3D)).drop 1))

/-- The pairs of a query string or form body, in order; pieces between `&` that are empty are no
pairs. -/
def pairs (bytes : Bytes) : List (String × String) :=
  ((bytes.splitOnP (· == 0x26)).filter (· ≠ [])).map pair

end SiteServer.Text.Form
