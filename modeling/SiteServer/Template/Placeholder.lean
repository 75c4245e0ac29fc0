import SiteServer.Json.Printer
import SiteServer.Template.Lookup
import SiteServer.Text.Split

/-! # Placeholders: escaped tags with a bare identifier, which arguments may fill. -/

namespace SiteServer.Template

/-- A placeholder: its identifier, and the blanks before and behind it. -/
structure Placeholder where
  before : List Char
  name : String
  behind : List Char
  deriving DecidableEq, Repr

namespace Placeholder

def source (p : Placeholder) : List Char :=
  ['<', '%', '='] ++ p.before ++ p.name.toList ++ p.behind ++ ['%', '>']

/-- The placeholder at the start of a text, and the text after it. -/
def read? (text : List Char) : Option (Placeholder × List Char) := do
  let rest ← Text.dropLead? ['<', '%', '='] text
  let (name, tail) ← Lookup.ident? (Text.trimLeft rest)
  let after ← Text.dropLead? ['%', '>'] (Text.trimLeft tail)
  return (⟨Text.blanksLeft rest, name, Text.blanksLeft tail⟩, after)

theorem eq_append_of_read? {text rest : List Char} {p : Placeholder}
    (h : read? text = some (p, rest)) : text = p.source ++ rest := by
  simp only [read?, Option.bind_eq_bind, Option.bind_eq_some_iff, Option.pure_def,
    Option.some.injEq, Prod.mk.injEq, Prod.exists, Text.dropLead?_eq_some_iff] at h
  obtain ⟨r₁, rfl, name, r₂, h₂, r₃, h₃, rfl, rfl⟩ := h
  have e₁ := Text.blanksLeft_append_trimLeft r₁
  have e₂ := Text.blanksLeft_append_trimLeft r₂
  rw [Lookup.eq_append_of_ident? h₂] at e₁
  rw [h₃] at e₂
  conv => lhs; rw [← e₁, ← e₂]
  simp [source]

theorem read?_length {text rest : List Char} {p : Placeholder} (h : read? text = some (p, rest)) :
    rest.length < text.length := by
  rw [eq_append_of_read? h]
  simp only [source, List.length_append, List.length_cons]
  omega

def pattern : Text.Pattern Placeholder where
  read? := read?
  read?_shorter := read?_length

/-- What an argument puts in the place of a placeholder: text as it is, anything else as JSON. -/
def inserted : Json → List Char
  | .string s => s.toList
  | value => value.print

/-- A piece of a text with its placeholder filled, if the arguments have its name. -/
def fill (arguments : JsonFields) : Text.Piece Placeholder → List Char
  | .char c => [c]
  | .found p => (arguments.get? p.name).elim p.source inserted

/-- The text with every placeholder filled that the arguments have the name of, in one pass. -/
def substitute (arguments : JsonFields) (text : List Char) : List Char :=
  (pattern.split text).flatMap (fill arguments)

end Placeholder

end SiteServer.Template
