import SiteServer.Json.Basic

/-! # Number literals of JSON and the numbers they stand for. -/

namespace SiteServer.Json

/-- A number as it is written: digits before the point, after it, and those of the exponent. -/
structure NumberLiteral where
  negative : Bool
  whole : List Nat
  fraction : Option (List Nat)
  exponent : Option (Bool × List Nat)
  deriving DecidableEq, Repr

def digit? (c : Char) : Option Nat :=
  if c.isDigit then some (c.toNat - '0'.toNat) else none

/-- The digits at the start of a text, and what follows them. -/
def digits : List Char → List Nat × List Char
  | [] => ([], [])
  | c :: rest =>
    match digit? c with
    | some d => (d :: (digits rest).1, (digits rest).2)
    | none => ([], c :: rest)

theorem digits_length (text : List Char) :
    (digits text).1.length + (digits text).2.length = text.length := by
  induction text with
  | nil => rfl
  | cons c rest ih =>
    simp only [digits]
    split
    · simp only [List.length_cons]
      omega
    · simp

/-- The digits after a point, at least one. -/
def fraction? : List Char → Option (Option (List Nat) × List Char)
  | '.' :: rest =>
    match digits rest with
    | ([], _) => none
    | (ds, after) => some (some ds, after)
  | text => some (none, text)

/-- A minus sign, if one is there. -/
def minus : List Char → Bool × List Char
  | '-' :: rest => (true, rest)
  | text => (false, text)

/-- A sign of either kind, if one is there. -/
def sign : List Char → Bool × List Char
  | '+' :: rest => (false, rest)
  | text => minus text

theorem minus_length_le (text : List Char) : (minus text).2.length ≤ text.length := by
  unfold minus
  split <;> simp

theorem sign_length_le (text : List Char) : (sign text).2.length ≤ text.length := by
  unfold sign
  split
  · simp
  · exact minus_length_le _

/-- An exponent with its optional sign and at least one digit. -/
def exponent? : List Char → Option (Option (Bool × List Nat) × List Char)
  | [] => some (none, [])
  | c :: rest =>
    if c = 'e' ∨ c = 'E' then
      match digits (sign rest).2 with
      | ([], _) => none
      | (ds, after) => some (some ((sign rest).1, ds), after)
    else some (none, c :: rest)

theorem fraction?_length {text rest : List Char} {ds : Option (List Nat)}
    (h : fraction? text = some (ds, rest)) : rest.length ≤ text.length := by
  unfold fraction? at h
  split at h
  · rename_i tail
    have hd := digits_length tail
    split at h
    · cases h
    · rename_i heq
      cases h
      rw [heq] at hd
      simp only [List.length_cons] at hd ⊢
      omega
  · cases h
    exact Nat.le_refl _

theorem exponent?_length {text rest : List Char} {ds : Option (Bool × List Nat)}
    (h : exponent? text = some (ds, rest)) : rest.length ≤ text.length := by
  unfold exponent? at h
  split at h
  · cases h
    exact Nat.le_refl _
  · rename_i c tail
    split at h
    · have hd := digits_length (sign tail).2
      have hs := sign_length_le tail
      split at h
      · cases h
      · rename_i heq
        cases h
        rw [heq] at hd
        simp only [List.length_cons] at hd ⊢
        omega
    · cases h
      exact Nat.le_refl _

/-- A number literal at the start of a text. A zero is followed by no further digit before the
point. -/
def numberLiteral? (text : List Char) : Option (NumberLiteral × List Char) :=
  match digits (minus text).2 with
  | ([], _) => none
  | (0 :: _ :: _, _) => none
  | (d :: ds, after) => do
    let (fraction, after) ← fraction? after
    let (exponent, after) ← exponent? after
    return (⟨(minus text).1, d :: ds, fraction, exponent⟩, after)

theorem numberLiteral?_length {text rest : List Char} {literal : NumberLiteral}
    (h : numberLiteral? text = some (literal, rest)) : rest.length < text.length := by
  have hd := digits_length (minus text).2
  have hs := minus_length_le text
  unfold numberLiteral? at h
  split at h
  · cases h
  · cases h
  · rename_i heq
    rw [heq] at hd
    simp only [Option.bind_eq_bind, Option.bind_eq_some_iff, Option.pure_def, Option.some.injEq,
      Prod.mk.injEq, Prod.exists] at h
    obtain ⟨f, r₁, hf, e, r₂, he, _, rfl⟩ := h
    have h₁ := fraction?_length hf
    have h₂ := exponent?_length he
    simp only [List.length_cons] at hd
    omega

/-- Takes digits into a number while it stays below `2 ^ 64`; the digits not taken are left. -/
def accumulate (n : Nat) : List Nat → Nat × List Nat
  | [] => (n, [])
  | d :: rest => if n * 10 + d < UInt64.size then accumulate (n * 10 + d) rest else (n, d :: rest)

/-- Divides by a power of ten, at most `10 ^ 308` at a time, and stops early at zero. -/
def scaleDown (x : Float) (places : Nat) : Float :=
  if places ≤ 308 then x / Float.ofScientific 1 false places
  else if x == 0 then x
  else scaleDown (x / Float.ofScientific 1 false 308) (places - 308)
termination_by places

/-- The double `significand * 10 ^ exponent`, rounded once when the significand is read and once
when it is scaled; none beyond the largest double. -/
def scaled? (significand : Nat) (exponent : Int) : Option Float :=
  let x := Float.ofNat significand
  if exponent < 0 then some (scaleDown x exponent.natAbs)
  else if 308 < exponent then if significand = 0 then some x else none
  else
    let y := x * Float.ofScientific 1 false exponent.toNat
    if y.isInf then none else some y

def natOfDigits (ds : List Nat) : Nat :=
  ds.foldl (fun n d => n * 10 + d) 0

/-- The number that a literal stands for. Without point and exponent it is whole where the range
allows it, except for a negative zero. Of a double the digits that fit sixty-four bits count: further
digits before the point raise the exponent, further ones after it are left out. -/
def NumberLiteral.value? (literal : NumberLiteral) : Option JsonNumber :=
  let (whole, left) := accumulate 0 literal.whole
  match literal.fraction, literal.exponent, left with
  | none, none, [] =>
    if !literal.negative then some (.whole whole)
    else if whole = 0 ∨ 1 <<< 63 < whole then some (.double (.ofFloat (-(Float.ofNat whole))))
    else some (.whole (-whole))
  | fraction, exponent, left => do
    let places := fraction.getD []
    let (significand, dropped) := accumulate whole places
    let written : Int := match exponent with
      | none => 0
      | some (true, ds) => -(natOfDigits ds : Int)
      | some (false, ds) => natOfDigits ds
    let x ← scaled? significand (written + left.length - (places.length - dropped.length : Nat))
    return .double (.ofFloat (if literal.negative then -x else x))

end SiteServer.Json
