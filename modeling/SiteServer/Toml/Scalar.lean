import SiteServer.Toml.Text

/-! # Numbers, dates and times of TOML documents. -/

namespace SiteServer.Toml

/-! ## Digits -/

/-- Digits of a base with single underscores between them. -/
def digitGroup? (base : Nat) (text : List Char) : Option (List Char × List Char) :=
  let run := text.takeWhile fun c => (Text.digitValue? base c).isSome || c = '_'
  let pieces := run.splitOnP (· == '_')
  if pieces.all (· ≠ []) then some (pieces.flatten, text.drop run.length) else none

/-- The sign at the start of a text, negative or not. -/
def sign (text : List Char) : Bool × List Char :=
  match text with
  | '-' :: rest => (true, rest)
  | '+' :: rest => (false, rest)
  | _ => (false, text)

/-- A number fits sixty-four bits with a sign. -/
def fits? (negative : Bool) (n : Nat) : Option Json :=
  if negative then if n ≤ 1 <<< 63 then some (.ofInt (-n)) else none
  else if n < 1 <<< 63 then some (.ofNat n) else none

/-! ## Whole numbers -/

def based? (base : Nat) (text : List Char) : Option (Json × List Char) := do
  let (digits, after) ← digitGroup? base text
  let value ← (Text.numberOf? base digits).bind (fits? false)
  return (value, after)

/-- The digits before a point: none of several is a zero at the start. -/
def wholeDigits? (text : List Char) : Option (List Char × List Char) := do
  let (digits, after) ← digitGroup? 10 text
  match digits with
  | '0' :: _ :: _ => none
  | _ => return (digits, after)

/-! ## Numbers with a point or an exponent -/

def fraction? : List Char → Option (List Char × List Char)
  | '.' :: rest => digitGroup? 10 rest
  | text => some ([], text)

def exponent? : List Char → Option (Int × List Char)
  | [] => some (0, [])
  | c :: rest =>
    if c = 'e' ∨ c = 'E' then do
      let (negative, digits) := sign rest
      let (digits, after) ← digitGroup? 10 digits
      let n ← Text.numberOf? 10 digits
      return (if negative then -n else n, after)
    else some (0, c :: rest)

/-- The double nearest to `significand * 10 ^ exponent`; far out it is infinite or zero. -/
def nearest (significand : Nat) (exponent : Int) : Float :=
  let size : Int := (Nat.toDigits 10 significand).length + exponent
  if significand = 0 ∨ size < -400 then 0.0
  else if 400 < size then Float.ofScientific 1 false 400
  else if exponent < 0 then Float.ofScientific significand true exponent.natAbs
  else Float.ofScientific significand false exponent.natAbs

def double? (negative : Bool) (x : Float) : Option Json :=
  if negative then some (.number (.double (.ofFloat (-x))))
  else if x.isInf then none
  else some (.number (.double (.ofFloat x)))

/-- A number in base ten, with or without point and exponent. -/
def decimal? (text : List Char) : Option (Json × List Char) := do
  let (negative, unsigned) := sign text
  let (whole, after) ← wholeDigits? unsigned
  let (places, behind) ← fraction? after
  let (exponent, rest) ← exponent? behind
  if rest.length = after.length then
    let value ← (Text.numberOf? 10 whole).bind (fits? negative)
    return (value, rest)
  else
    let significand ← Text.numberOf? 10 (whole ++ places)
    let value ← double? negative (nearest significand (exponent - places.length))
    return (value, rest)

def word? (name : String) (value : Json) (text : List Char) : Option (Json × List Char) :=
  if name.toList.isPrefixOf text then some (value, text.drop name.length) else none

/-- An infinite double, or one that is no number. -/
def special? (text : List Char) : Option (Json × List Char) :=
  let (negative, unsigned) := sign text
  let value (x : Float) : Json := .number (.double (.ofFloat (if negative then -x else x)))
  (word? "inf" (value (1.0 / 0.0)) unsigned).or (word? "nan" (value (0.0 / 0.0)) unsigned)

/-! ## Dates and times -/

/-- So many digits, as a number within bounds. -/
def part? (count low high : Nat) (text : List Char) : Option (Nat × List Char) := do
  let digits := text.take count
  let n ← Text.numberOf? 10 digits
  if digits.length = count ∧ low ≤ n ∧ n ≤ high then some (n, text.drop count) else none

def mark? (c : Char) : List Char → Option (List Char)
  | d :: rest => if c = d then some rest else none
  | [] => none

def daysIn (year month : Nat) : Nat :=
  if month = 2 then
    if year % 4 = 0 ∧ (year % 100 ≠ 0 ∨ year % 400 = 0) then 29 else 28
  else if month = 4 ∨ month = 6 ∨ month = 9 ∨ month = 11 then 30
  else 31

/-- The text after a date. -/
def date? (text : List Char) : Option (List Char) := do
  let (year, text) ← part? 4 0 9999 text
  let (month, text) ← part? 2 1 12 (← mark? '-' text)
  let (_, text) ← part? 2 1 (daysIn year month) (← mark? '-' text)
  return text

/-- The text after a part of a second. -/
def secondPart? : List Char → Option (List Char)
  | '.' :: rest => if (rest.head?.map Char.isDigit) = some true then some (rest.dropWhile Char.isDigit)
    else none
  | text => some text

/-- The text after a time of day. -/
def time? (text : List Char) : Option (List Char) := do
  let (_, text) ← part? 2 0 23 text
  let (_, text) ← part? 2 0 59 (← mark? ':' text)
  let (_, text) ← part? 2 0 60 (← mark? ':' text)
  secondPart? text

/-- The text after a distance from universal time, if one is there. -/
def offset? (text : List Char) : Option (List Char) :=
  match text with
  | [] => some []
  | c :: rest =>
    if c = 'Z' ∨ c = 'z' then some rest
    else if c = '+' ∨ c = '-' then do
      let (_, text) ← part? 2 0 23 rest
      let (_, text) ← part? 2 0 59 (← mark? ':' text)
      return text
    else some text

/-- The text after a date with an optional time, or after a time. -/
def moment? (text : List Char) : Option (List Char) :=
  match date? text with
  | none => time? text
  | some rest =>
    match rest with
    | c :: after =>
      if c = 'T' ∨ c = 't' then (time? after).bind offset?
      else if c = ' ' then
        match time? after with
        | some after => offset? after
        | none => some rest
      else some rest
    | [] => some []

/-- A date or time, as an object that holds its text. -/
def dateTime? (text : List Char) : Option (Json × List Char) :=
  (moment? text).map fun rest =>
    (.object [("datetime", .string (.ofList (text.take (text.length - rest.length))))], rest)

/-! ## All of them -/

/-- A value that starts with a digit or a sign: dates and times look like numbers at first. -/
def numeric? (text : List Char) : Option (Json × List Char) :=
  match dateTime? text with
  | some found => some found
  | none =>
    match text with
    | '0' :: 'x' :: rest => based? 16 rest
    | '0' :: 'o' :: rest => based? 8 rest
    | '0' :: 'b' :: rest => based? 2 rest
    | _ => (special? text).or (decimal? text)

end SiteServer.Toml
