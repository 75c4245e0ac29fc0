import SiteServer.Text.Utf8

/-! # Request targets.

A target is a path with an optional query, the same after a scheme and an authority, an authority
alone, or `*`. -/

namespace SiteServer.Message

/-- A request target, taken apart. A path that is empty stands for none. -/
structure Uri where
  scheme : Option String
  authority : Option String
  path : String
  query : Option String
  deriving DecidableEq, Repr

namespace Uri

def text (uri : Uri) : String :=
  uri.scheme.elim "" (· ++ "://") ++ uri.authority.getD "" ++ uri.path ++ uri.query.elim "" ("?" ++ ·)

/-! ## Characters -/

/-- A text of more bytes than this is no target. -/
def sizeLimit : Nat := 65534

/-- A character that may stand in a path: a visible one other than the marks that end a path and those
that are never sent as they are, or one beyond the basic ones. -/
def isPathChar (c : Char) : Bool :=
  let n := c.toNat
  0x21 ≤ n && n ≠ 0x7F && !("#<>?`".toList.contains c)

def isQueryChar (c : Char) : Bool :=
  let n := c.toNat
  0x21 ≤ n && n ≠ 0x7F && !("\"#<>".toList.contains c)

/-- A character that may stand in an authority, apart from `%`. -/
def isAuthorityChar (c : Char) : Bool :=
  c.isAlphanum || "!$&'()*+,-.:;=@[]_~".toList.contains c

def isSchemeChar (c : Char) : Bool :=
  c.isAlphanum || "+-.~".toList.contains c

/-! ## Paths and queries -/

/-- Path and query of a text; what follows a `#` is left out. -/
def pathAndQuery? (chars : List Char) : Option (String × Option String) :=
  let path := chars.takeWhile isPathChar
  match chars.dropWhile isPathChar with
  | [] => some (String.ofList path, none)
  | '#' :: _ => some (String.ofList path, none)
  | '?' :: rest =>
    let query := String.ofList (rest.takeWhile isQueryChar)
    match rest.dropWhile isQueryChar with
    | [] => some (String.ofList path, some query)
    | '#' :: _ => some (String.ofList path, some query)
    | _ => none
  | _ => none

/-! ## Authorities -/

/-- What has been seen of an authority: colons and `%` since the last `@` or bracket, and brackets. -/
structure AuthorityScan where
  colons : Nat
  openBracket : Bool
  closeBracket : Bool
  percent : Bool
  afterAt : Bool
  deriving DecidableEq, Repr

/-- More colons than this never stand together. -/
def colonLimit : Nat := 8

def AuthorityScan.step? (s : AuthorityScan) (c : Char) : Option AuthorityScan :=
  if c = ':' then
    if colonLimit ≤ s.colons then none
    else some ⟨s.colons + 1, s.openBracket, s.closeBracket, s.percent, false⟩
  else if c = '[' then
    if s.percent || s.openBracket then none
    else some ⟨s.colons, true, s.closeBracket, s.percent, false⟩
  else if c = ']' then
    if !s.openBracket || s.closeBracket then none else some ⟨0, s.openBracket, true, false, false⟩
  else if c = '@' then some ⟨0, s.openBracket, s.closeBracket, false, true⟩
  else if c = '%' then some ⟨s.colons, s.openBracket, s.closeBracket, true, false⟩
  else if isAuthorityChar c then
    some ⟨s.colons, s.openBracket, s.closeBracket, s.percent, false⟩
  else none

/-- The marks that end an authority. -/
def endsAuthority (c : Char) : Bool :=
  c = '/' || c = '?' || c = '#'

/-- An authority is legal when its brackets pair up, at most one colon and no `%` are left outside
them and after the user, and something follows the user. -/
def isAuthority (chars : List Char) : Bool :=
  match chars.foldlM AuthorityScan.step? ⟨0, false, false, false, false⟩ with
  | none => false
  | some s => s.openBracket == s.closeBracket && s.colons ≤ 1 && !s.percent && !s.afterAt

/-! ## Whole targets -/

/-- A scheme has at most this many characters. -/
def schemeLimit : Nat := 64

/-- The scheme before a `://` and the text after that; too long a scheme is refused. -/
def scheme? (chars : List Char) : Option (Option (String × List Char)) :=
  let name := chars.takeWhile isSchemeChar
  match chars.dropWhile isSchemeChar with
  | ':' :: '/' :: '/' :: rest =>
    if schemeLimit < name.length then none
    else
      let lower := (String.ofList name).toLower
      some (some (if lower = "http" ∨ lower = "https" then lower else String.ofList name, rest))
  | _ => some none

def parse? (text : String) : Option Uri :=
  let chars := text.toList
  if sizeLimit < Text.Utf8.byteSize chars then none
  else match chars with
  | [] => none
  | ['*'] => some ⟨none, none, "*", none⟩
  | '/' :: _ => (pathAndQuery? chars).map fun (path, query) => ⟨none, none, path, query⟩
  | _ =>
    match scheme? chars with
    | none => none
    | some none => if isAuthority chars then some ⟨none, some text, "", none⟩ else none
    | some (some (scheme, rest)) =>
      let authority := rest.takeWhile (!endsAuthority ·)
      if authority = [] ∨ !isAuthority authority then none
      else (pathAndQuery? (rest.dropWhile (!endsAuthority ·))).map fun (path, query) =>
        ⟨some scheme, some (String.ofList authority), if path = "" then "/" else path, query⟩

end Uri

end SiteServer.Message
