import SiteServer.Json.Printer
import SiteServer.Json.Reader
import SiteServer.Text.Blank
import SiteServer.Template.Lookup

/-! # Argument literals of include directives.

A literal is an object in the way of a script: keys may be bare identifiers, and strings stand in either
kind of quotes. It is read by writing it as JSON first. -/

namespace SiteServer.Template

/-- Why a literal is refused. -/
inductive ArgumentsFault where
  | unterminatedString
  | json (fault : JsonFault)
  deriving DecidableEq, Repr

def ArgumentsFault.message : ArgumentsFault → String
  | .unterminatedString => "unterminated string"
  | .json fault => fault.message

namespace Arguments

/-- The character that a backslash and another one stand for. -/
def escaped : Char → Char
  | 'n' => '\n'
  | 't' => '\t'
  | 'r' => '\r'
  | c => c

/-- The characters of a string after its opening quote, and the text after its closing quote. -/
def string? (quote : Char) : List Char → Option (List Char × List Char)
  | [] => none
  | '\\' :: rest =>
    match rest with
    | [] => none
    | c :: after => (string? quote after).map fun (cs, left) => (escaped c :: cs, left)
  | c :: rest =>
    if c = quote then some ([], rest)
    else (string? quote rest).map fun (cs, left) => (c :: cs, left)

theorem string?_length {quote : Char} {text rest cs : List Char}
    (h : string? quote text = some (cs, rest)) : rest.length < text.length := by
  fun_induction string? quote text generalizing cs with
  | case1 => cases h
  | case2 => cases h
  | case3 c after ih =>
    simp only [Option.map_eq_some_iff, Prod.mk.injEq, Prod.exists] at h
    obtain ⟨ds, r, hr, _, rfl⟩ := h
    have := ih hr
    simp only [List.length_cons]
    omega
  | case4 =>
    cases h
    simp
  | case5 c rest _ _ ih =>
    simp only [Option.map_eq_some_iff, Prod.mk.injEq, Prod.exists] at h
    obtain ⟨ds, r, hr, _, rfl⟩ := h
    have := ih hr
    simp only [List.length_cons]
    omega

/-- The JSON text of a literal: strings in JSON's quotes, and an identifier before a colon as a string.
What is neither is kept as it is. -/
def toJsonText? : List Char → Option (List Char)
  | [] => some []
  | c :: rest =>
    if c = '\'' ∨ c = '"' then
      match _h : string? c rest with
      | none => none
      | some (cs, after) => (toJsonText? after).map (Json.printString cs ++ ·)
    else
      match _h : Lookup.ident? (c :: rest) with
      | some (name, after) =>
        let after' := Text.trimLeft after
        (toJsonText? after').map fun out =>
          if after'.head? = some ':' then Json.printString name.toList ++ out
          else name.toList ++ ' ' :: out
      | none => (toJsonText? rest).map (c :: ·)
termination_by text => text.length
decreasing_by
  · have := string?_length _h
    simp only [List.length_cons]
    omega
  · have h₁ := Lookup.ident?_length _h
    have h₂ := Text.trimLeft_length_le after
    simp only [List.length_cons] at h₁ ⊢
    omega
  · simp

def parse (literal : List Char) : Except ArgumentsFault JsonFields :=
  match toJsonText? literal with
  | none => .error .unterminatedString
  | some text =>
    match Json.read text with
    | .ok (.object fields) => .ok fields
    | .ok _ => .error (.json (Json.faultAfter []))
    | .error fault => .error (.json fault)

end Arguments

end SiteServer.Template
