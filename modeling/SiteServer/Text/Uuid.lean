import SiteServer.Text.Digits

/-! # Request identifiers: thirty-two hexadecimal digits in groups of 8, 4, 4, 4 and 12. -/

namespace SiteServer.Text.Uuid

def groups : List Nat := [8, 4, 4, 4, 12]

def cut : List Nat → List Char → List (List Char)
  | [], _ => []
  | n :: rest, text => text.take n :: cut rest (text.drop n)

/-- An identifier in its usual form: digits in lower case, hyphens between the groups. -/
def written (digits : List Char) : String :=
  String.ofList (List.intercalate ['-'] (cut groups (digits.map Char.toLower)))

def ofNat (n : Nat) : String :=
  let digits := Nat.toDigits 16 (n % (1 <<< 128))
  written (List.replicate (32 - digits.length) '0' ++ digits)

/-- The digits of an identifier that is written with hyphens. -/
def hyphenated? (text : List Char) : Option (List Char) :=
  let parts := text.splitOnP (· == '-')
  if parts.map List.length = groups then some parts.flatten else none

/-- What an identifier that is written as a URN starts with, in any case. -/
def urn : List Char := "urn:uuid:".toList

/-- The usual form of an identifier, which may be written with hyphens, bare, in braces or as a URN;
without hyphens only digits stand there. -/
def normal? (text : String) : Option String := do
  let chars := text.toList
  let digits ←
    if chars.length = 32 then some chars
    else if chars.head? = some '\x7b' ∧ chars.getLast? = some '\x7d' then
      hyphenated? (chars.drop 1).dropLast
    else if urn.isPrefixOf (chars.map Char.toLower) then hyphenated? (chars.drop urn.length)
    else hyphenated? chars
  if digits.all (hexValue? · |>.isSome) then some (written digits) else none

end SiteServer.Text.Uuid
