import SiteServer.Text.Utf8

/-! # Tokens and header fields of messages. -/

namespace SiteServer.Message

/-- The characters of tokens, which name methods and header fields. -/
def isTokenChar (c : Char) : Bool :=
  c.isAlphanum || "!#$%&'*+-.^_`|~".toList.contains c

def isToken (text : String) : Bool :=
  text ≠ "" && text.toList.all isTokenChar

/-- A byte that may stand in the value of a header field: no control character other than the tab. -/
def isValueByte (b : UInt8) : Bool :=
  (0x20 ≤ b && b ≠ 0x7F) || b = 0x09

def isValue (bytes : Bytes) : Bool :=
  bytes.all isValueByte

/-- A byte of a header value that can be read as text without further agreement. -/
def isPlainByte (b : UInt8) : Bool :=
  (0x20 ≤ b && b < 0x7F) || b = 0x09

/-- Header fields in the order in which they were given, with names in lower case. -/
abbrev Headers := List (String × Bytes)

namespace Headers

def get? (headers : Headers) (name : String) : Option Bytes :=
  headers.lookup name.toLower

/-- The value of the first field with a name as text; a value with other than plain characters
counts as missing. -/
def text? (headers : Headers) (name : String) : Option String :=
  match headers.get? name with
  | some bytes => if bytes.all isPlainByte then some (stringOfLossy bytes) else none
  | none => none

/-- Adds a field, after others with its name. -/
def append? (headers : Headers) (name : String) (value : Bytes) : Option Headers :=
  if isToken name && isValue value then some (headers ++ [(name.toLower, value)]) else none

/-- Sets a field, in place of all with its name. -/
def set (headers : Headers) (name : String) (value : Bytes) : Headers :=
  headers.filter (·.1 ≠ name.toLower) ++ [(name.toLower, value)]

/-- Sets a field, if its name and value are legal. -/
def set? (headers : Headers) (name : String) (value : Bytes) : Option Headers :=
  if isToken name && isValue value then some (headers.set name value) else none

end Headers

end SiteServer.Message
