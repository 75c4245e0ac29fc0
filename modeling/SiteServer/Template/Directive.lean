import SiteServer.Template.Arguments
import SiteServer.Text.Split

/-! # Include directives.

`<%- include('part') %>` and `<%- include('part', {name: 'x'}) -%>` are directives, with blanks allowed
between their parts. The argument literal ends at the first `}` that the close of the directive follows,
and a `-%>` close takes the line end after it along. -/

namespace SiteServer.Template

/-- A directive: its text together with the line end it takes along, the file it refers to, and its
argument literal. -/
structure Directive where
  source : List Char
  reference : String
  literal : Option (List Char)
  deriving DecidableEq, Repr

namespace Directive

/-- The text between quotes of either kind, and the text after it. -/
def quoted? : List Char → Option (List Char × List Char)
  | [] => none
  | q :: rest =>
    if q = '\'' ∨ q = '"' then
      match rest.dropWhile (· ≠ q) with
      | _ :: after => some (rest.takeWhile (· ≠ q), after)
      | [] => none
    else none

/-- The close of a directive, `)` and `%>` or `-%>`: whether it takes a line end along, and the text
after it. -/
def close? (text : List Char) : Option (Bool × List Char) :=
  match Text.trimLeft text with
  | ')' :: rest =>
    match Text.trimLeft rest with
    | '-' :: '%' :: '>' :: after => some (true, after)
    | '%' :: '>' :: after => some (false, after)
    | _ => none
  | _ => none

/-- The rest of an argument literal up to the first `}` that a close follows, and that close. -/
def literalBody? : List Char → Option (List Char × Bool × List Char)
  | [] => none
  | c :: rest =>
    match if c = '\x7d' then close? rest else none with
    | some (trims, after) => some ([c], trims, after)
    | none => (literalBody? rest).map fun (body, trims, after) => (c :: body, trims, after)

/-- What follows the reference: an argument literal after a comma, or nothing, and the close. -/
def ending? (text : List Char) : Option (Option (List Char) × Bool × List Char) :=
  match Text.trimLeft text with
  | ',' :: rest =>
    match Text.trimLeft rest with
    | '\x7b' :: body =>
      (literalBody? body).map fun (content, trims, after) => (some ('\x7b' :: content), trims, after)
    | _ => none
  | rest => (close? rest).map fun (trims, after) => (none, trims, after)

/-- What comes before the reference: the text after `<%- include(`, with blanks between the parts. -/
def opening? (text : List Char) : Option (List Char) := do
  let rest ← Text.dropLead? ['<', '%', '-'] text
  let rest ← Text.dropLead? "include".toList (Text.trimLeft rest)
  let rest ← Text.dropLead? ['('] (Text.trimLeft rest)
  return Text.trimLeft rest

/-- The directive at the start of a text, and the text after it. -/
def read? (text : List Char) : Option (Directive × List Char) := do
  let rest ← opening? text
  let (reference, rest) ← quoted? rest
  let (literal, trims, after) ← ending? rest
  let left := if trims then Text.dropLineEnd after else after
  return (⟨text.take (text.length - left.length), String.ofList reference, literal⟩, left)

theorem close?_length {text after : List Char} {trims : Bool}
    (h : close? text = some (trims, after)) : after.length < text.length := by
  unfold close? at h
  have ht := Text.trimLeft_length_le text
  split at h
  · rename_i rest heq
    rw [heq] at ht
    have hr := Text.trimLeft_length_le rest
    split at h
    · rename_i heq'
      cases h
      rw [heq'] at hr
      simp only [List.length_cons] at ht hr
      omega
    · rename_i heq'
      cases h
      rw [heq'] at hr
      simp only [List.length_cons] at ht hr
      omega
    · cases h
  · cases h

theorem literalBody?_length {text body after : List Char} {trims : Bool}
    (h : literalBody? text = some (body, trims, after)) : after.length < text.length := by
  induction text generalizing body with
  | nil => simp [literalBody?] at h
  | cons c rest ih =>
    simp only [literalBody?] at h
    split at h
    · rename_i hc
      split at hc
      · cases h
        exact Nat.lt_succ_of_lt (close?_length hc)
      · cases hc
    · simp only [Option.map_eq_some_iff, Prod.mk.injEq, Prod.exists] at h
      obtain ⟨b, t, a, hb, _, rfl, rfl⟩ := h
      exact Nat.lt_succ_of_lt (ih hb)

theorem ending?_length {text after : List Char} {literal : Option (List Char)} {trims : Bool}
    (h : ending? text = some (literal, trims, after)) : after.length < text.length := by
  unfold ending? at h
  have ht := Text.trimLeft_length_le text
  split at h
  · rename_i rest heq
    rw [heq] at ht
    have hr := Text.trimLeft_length_le rest
    split at h
    · rename_i body heq'
      simp only [Option.map_eq_some_iff, Prod.mk.injEq, Prod.exists] at h
      obtain ⟨b, t, a, hb, _, rfl, rfl⟩ := h
      have := literalBody?_length hb
      rw [heq'] at hr
      simp only [List.length_cons] at ht hr
      omega
    · cases h
  · simp only [Option.map_eq_some_iff, Prod.mk.injEq, Prod.exists] at h
    obtain ⟨t, a, ha, _, rfl, rfl⟩ := h
    have := close?_length ha
    omega

theorem quoted?_length {text content after : List Char} (h : quoted? text = some (content, after)) :
    after.length < text.length := by
  unfold quoted? at h
  split at h
  · cases h
  · rename_i q rest
    split at h
    · split at h
      · rename_i c tail heq
        cases h
        have hl := (List.dropWhile_sublist (fun d : Char => decide (d ≠ q)) (l := rest)).length_le
        rw [heq] at hl
        simp only [List.length_cons] at hl ⊢
        omega
      · cases h
    · cases h

theorem opening?_length {text rest : List Char} (h : opening? text = some rest) :
    rest.length < text.length := by
  simp only [opening?, Option.bind_eq_bind, Option.bind_eq_some_iff, Option.pure_def,
    Option.some.injEq, Text.dropLead?_eq_some_iff] at h
  obtain ⟨r₁, h₁, r₂, h₂, r₃, h₃, rfl⟩ := h
  have l₁ := congrArg List.length h₁
  have l₂ := congrArg List.length h₂
  have l₃ := congrArg List.length h₃
  have t₁ := Text.trimLeft_length_le r₁
  have t₂ := Text.trimLeft_length_le r₂
  have t₃ := Text.trimLeft_length_le r₃
  simp only [List.length_append, List.length_cons] at l₁ l₂ l₃
  omega

theorem read?_length {text rest : List Char} {d : Directive} (h : read? text = some (d, rest)) :
    rest.length < text.length := by
  simp only [read?, Option.bind_eq_bind, Option.bind_eq_some_iff, Option.pure_def,
    Option.some.injEq, Prod.mk.injEq, Prod.exists] at h
  obtain ⟨r₁, h₁, c, r₂, h₂, l, t, a, h₃, _, rfl⟩ := h
  have l₁ := opening?_length h₁
  have l₂ := quoted?_length h₂
  have l₃ := ending?_length h₃
  split
  · have := Text.dropLineEnd_length_le a
    omega
  · omega

def pattern : Text.Pattern Directive where
  read? := read?
  read?_shorter := read?_length

/-- The fields of the argument literal, if the directive has one. -/
def arguments (d : Directive) : Except ArgumentsFault (Option JsonFields) :=
  match d.literal with
  | none => .ok none
  | some literal => (Arguments.parse literal).map some

end Directive

/-! ## Pages -/

/-- A text as characters and directives, in order. -/
abbrev Page := List (Text.Piece Directive)

namespace Page

/-- The page of a text. -/
def ofText (text : List Char) : Page :=
  Directive.pattern.split text

def directives : Page → List Directive
  | [] => []
  | .char _ :: rest => directives rest
  | .found d :: rest => d :: directives rest

def source : Page → List Char
  | [] => []
  | .char c :: rest => c :: source rest
  | .found d :: rest => d.source ++ source rest

/-- The places of the directives of a page that starts at `offset`, each with its end. -/
def ranges (offset : Nat) : Page → List (Nat × Nat)
  | [] => []
  | .char _ :: rest => ranges (offset + 1) rest
  | .found d :: rest =>
    (offset, offset + d.source.length) :: ranges (offset + d.source.length) rest

/-- The page with an expansion in the place of each directive, in order. -/
def splice : Page → List (List Char) → List Char
  | [], _ => []
  | .char c :: rest, expansions => c :: splice rest expansions
  | .found _ :: rest, expansion :: expansions => expansion ++ splice rest expansions
  | .found _ :: rest, [] => splice rest []

end Page

end SiteServer.Template
