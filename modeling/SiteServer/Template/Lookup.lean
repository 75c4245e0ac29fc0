import SiteServer.Text.Blank

/-! # Lookup expressions: a name and the steps into its value.

`user.tags[0]` and `user['name']` are lookups; anything with another meaning in a programming language
is none. -/

namespace SiteServer.Template

/-- A step into a value: to a property of an object, or to an item of an array. -/
inductive Step where
  | key (name : String)
  | index (place : Nat)
  deriving DecidableEq, Repr

/-- A lookup with the text it was written as, which messages show. -/
structure Lookup where
  source : String
  root : String
  steps : List Step
  deriving DecidableEq, Repr

namespace Lookup

/-! ## Identifiers -/

/-- Starts an identifier: a letter without accent, `_` or `$`. -/
def isIdentStart (c : Char) : Bool :=
  c = '_' || c = '$' || c.isAlpha

/-- Goes on in an identifier: what can start one, or a digit. -/
def isIdentRest (c : Char) : Bool :=
  isIdentStart c || c.isDigit

/-- The identifier at the start of a text, if there is one, and the rest. -/
def ident? : List Char → Option (String × List Char)
  | [] => none
  | c :: rest =>
    if isIdentStart c then
      some (String.ofList (c :: rest.takeWhile isIdentRest), rest.dropWhile isIdentRest)
    else none

theorem eq_append_of_ident? {text rest : List Char} {name : String}
    (h : ident? text = some (name, rest)) : text = name.toList ++ rest := by
  unfold ident? at h
  split at h
  · cases h
  · split at h
    · cases h
      simp
    · cases h

theorem ident?_length {text rest : List Char} {name : String}
    (h : ident? text = some (name, rest)) : rest.length < text.length := by
  unfold ident? at h
  split at h
  · cases h
  · split at h
    · cases h
      exact Nat.lt_succ_of_le (List.dropWhile_sublist _).length_le
    · cases h

/-! ## Steps -/

/-- Array places are below this bound. -/
def indexLimit : Nat := UInt64.size

/-- The number that decimal digits spell, at least one of them. -/
def decimal? (digits : List Char) : Option Nat :=
  if digits ≠ [] ∧ digits.all Char.isDigit then
    some (digits.foldl (fun n c => n * 10 + (c.toNat - '0'.toNat)) 0)
  else none

/-- The array place between brackets, which may have a plus sign. -/
def index? (inner : List Char) : Option Nat :=
  let digits := match inner with
    | '+' :: rest => rest
    | rest => rest
  (decimal? digits).filter (· < indexLimit)

/-- The text between two equal quotes. -/
def between? (quote : Char) : List Char → Option (List Char)
  | c :: rest =>
    if c = quote ∧ rest.getLast? = some quote then some rest.dropLast else none
  | [] => none

def bracket? (inner : List Char) : Option Step :=
  match index? inner with
  | some place => some (.index place)
  | none =>
    ((between? '\'' inner).or (between? '"' inner)).map fun name => .key (String.ofList name)

def step? : List Char → Option (Step × List Char)
  | '.' :: rest => (ident? rest).map fun (name, after) => (.key name, after)
  | '[' :: rest =>
    match rest.dropWhile (· ≠ ']') with
    | _ :: after => (bracket? (Text.trim (rest.takeWhile (· ≠ ']')))).map (·, after)
    | [] => none
  | _ => none

theorem step?_length {text rest : List Char} {step : Step} (h : step? text = some (step, rest)) :
    rest.length < text.length := by
  unfold step? at h
  split at h
  · simp only [Option.map_eq_some_iff, Prod.mk.injEq, Prod.exists] at h
    obtain ⟨name, after, hn, _, rfl⟩ := h
    exact Nat.lt_succ_of_lt (ident?_length hn)
  · rename_i tail
    split at h
    · rename_i c after hd
      simp only [Option.map_eq_some_iff, Prod.mk.injEq] at h
      obtain ⟨_, _, _, rfl⟩ := h
      have hl := (List.dropWhile_sublist (fun c : Char => decide (c ≠ ']')) (l := tail)).length_le
      rw [hd] at hl
      simp only [List.length_cons] at hl ⊢
      omega
    · cases h
  · cases h

def steps? (text : List Char) : Option (List Step) :=
  match text with
  | [] => some []
  | c :: tail =>
    match _h : step? (c :: tail) with
    | some (step, rest) => (steps? rest).map (step :: ·)
    | none => none
termination_by text.length
decreasing_by exact step?_length _h

/-- The lookup that a text between tag marks spells; blanks around it do not matter. -/
def parse? (text : List Char) : Option Lookup := do
  let source := Text.trim text
  let (root, rest) ← ident? source
  let steps ← steps? rest
  return ⟨String.ofList source, root, steps⟩

/-! ## Printing -/

/-- A step as text: a property by its name where that is an identifier, otherwise in quotes. -/
def printStep : Step → List Char
  | .key name =>
    match ident? name.toList with
    | some (_, []) => '.' :: name.toList
    | _ => ['[', '\''] ++ name.toList ++ ['\'', ']']
  | .index place => '[' :: Nat.toDigits 10 place ++ [']']

def print (root : String) (steps : List Step) : List Char :=
  root.toList ++ steps.flatMap printStep

end Lookup

end SiteServer.Template
