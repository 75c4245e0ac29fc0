import SiteServer.Decimal.Shortest

/-! # Writing doubles: which ones are spelled out in full, how exponents look, and where ties go. -/

namespace SiteServer.Decimal

/-- How doubles are written: positionally from `10 ^ lowest` up to below `10 ^ beyond`, otherwise
with an exponent, which carries a plus sign where `plus` says so; `tie` decides between two texts of
one length that are equally near. -/
structure Style where
  lowest : Int
  beyond : Int
  plus : Bool
  tie : Tie
  deriving DecidableEq, Repr

def Style.json : Style := ⟨-5, 16, true, .even⟩

def Style.debug : Style := ⟨-4, 16, false, .up⟩

/-- The decimal digits of a number, leading digit first. -/
def digitsOf (n : Nat) : List Char :=
  Nat.toDigits 10 n

/-- Digits that end in zeros, as the other digits and how many zeros there were. -/
def dropZeros (digits : List Char) : List Char × Nat :=
  let kept := (digits.reverse.dropWhile (· == '0')).reverse
  (kept, digits.length - kept.length)

/-- Digits written in full, `leading` being the power of ten of the first one; at least one place
follows the point. -/
def positional (digits : List Char) (leading : Int) : List Char :=
  if leading < 0 then
    ['0', '.'] ++ List.replicate (-leading - 1).toNat '0' ++ digits
  else
    let whole := leading.toNat + 1
    let places := digits.drop whole
    digits.take whole ++ List.replicate (whole - digits.length) '0' ++ ['.'] ++
      if places.isEmpty then ['0'] else places

def scientific (plus : Bool) (digits : List Char) (leading : Int) : List Char :=
  digits.take 1 ++ (if digits.length ≤ 1 then [] else '.' :: digits.drop 1) ++ ['e'] ++
    (if leading < 0 then ['-'] else if plus then ['+'] else []) ++ digitsOf leading.natAbs

def Style.write (style : Style) (x : Binary64) : List Char :=
  let sign := if x.isNegative then ['-'] else []
  if x.isZero then sign ++ ['0', '.', '0']
  else
    let point := shortest style.tie x
    let (digits, zeros) := dropZeros (digitsOf point.digits)
    let leading := point.exponent + zeros + digits.length - 1
    sign ++ if style.lowest ≤ leading ∧ leading < style.beyond then positional digits leading
      else scientific style.plus digits leading

end SiteServer.Decimal
