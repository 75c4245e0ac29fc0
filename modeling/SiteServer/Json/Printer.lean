import SiteServer.Decimal.Style
import SiteServer.Json.Basic

/-! # Writing JSON: compact texts, fields in the order in which the value holds them. -/

namespace SiteServer.Json

def hexDigit (n : Nat) : Char :=
  Nat.digitChar (n % 16)

/-- A character inside a string: the quote, the backslash and control characters are escaped. -/
def escapeChar (c : Char) : List Char :=
  if c = '"' ∨ c = '\\' then ['\\', c]
  else if c = '\n' then ['\\', 'n']
  else if c = '\r' then ['\\', 'r']
  else if c = '\t' then ['\\', 't']
  else if c = '\x08' then ['\\', 'b']
  else if c = '\x0c' then ['\\', 'f']
  else if c.toNat < 0x20 then
    ['\\', 'u', '0', '0', hexDigit (c.toNat / 16), hexDigit c.toNat]
  else [c]

def printString (text : List Char) : List Char :=
  '"' :: text.flatMap escapeChar ++ ['"']

def printInt (n : Int) : List Char :=
  (if n < 0 then ['-'] else []) ++ Decimal.digitsOf n.natAbs

/-- A number as JSON text; what is not finite has none and is written as `null`. -/
def printNumber : JsonNumber → List Char
  | .whole n => printInt n
  | .double x => if x.isFinite then Decimal.Style.json.write x else ['n', 'u', 'l', 'l']

mutual

def print : Json → List Char
  | .null => ['n', 'u', 'l', 'l']
  | .bool true => ['t', 'r', 'u', 'e']
  | .bool false => ['f', 'a', 'l', 's', 'e']
  | .number n => printNumber n
  | .string s => printString s.toList
  | .array items => '[' :: printItems items ++ [']']
  | .object fields => '\x7b' :: printFields fields ++ ['\x7d']

def printItems : List Json → List Char
  | [] => []
  | [item] => print item
  | item :: rest => print item ++ ',' :: printItems rest

def printFields : List (String × Json) → List Char
  | [] => []
  | [(key, value)] => printString key.toList ++ ':' :: print value
  | (key, value) :: rest => printString key.toList ++ ':' :: print value ++ ',' :: printFields rest

end

def text (value : Json) : String :=
  String.ofList (print value)

end SiteServer.Json
