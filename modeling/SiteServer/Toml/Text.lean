import SiteServer.Json.Basic
import SiteServer.Text.Digits

/-! # Blanks, keys and strings of TOML documents. -/

namespace SiteServer.Toml

/-! ## Blanks -/

def isBlank (c : Char) : Bool :=
  c = ' ' || c = '\t'

def skipBlanks (text : List Char) : List Char :=
  text.dropWhile isBlank

/-- A character of comments and strings: no control character other than the tab. -/
def isShown (c : Char) : Bool :=
  c = '\t' || (' ' ≤ c && c ≠ '\x7f')

/-- The text after a line end at the start. -/
def lineEnd? : List Char → Option (List Char)
  | '\n' :: rest => some rest
  | '\r' :: '\n' :: rest => some rest
  | _ => none

/-- The text after a comment, if one is there: it reaches to the end of its line. -/
def skipComment : List Char → List Char
  | '#' :: rest => rest.dropWhile isShown
  | text => text

theorem skipBlanks_length_le (text : List Char) : (skipBlanks text).length ≤ text.length :=
  (List.dropWhile_sublist _).length_le

theorem skipComment_length_le (text : List Char) : (skipComment text).length ≤ text.length := by
  unfold skipComment
  split
  · exact Nat.le_succ_of_le (List.dropWhile_sublist _).length_le
  · exact Nat.le_refl _

theorem lineEnd?_length {text rest : List Char} (h : lineEnd? text = some rest) :
    rest.length < text.length := by
  unfold lineEnd? at h
  split at h
  · cases h
    simp
  · cases h
    simp only [List.length_cons]
    omega
  · cases h

/-- The text after blanks, comments and line ends. -/
def skipSpace (text : List Char) : List Char :=
  match _h : lineEnd? (skipComment (skipBlanks text)) with
  | some rest => skipSpace rest
  | none => skipComment (skipBlanks text)
termination_by text.length
decreasing_by
  have := lineEnd?_length _h
  have := skipComment_length_le (skipBlanks text)
  have := skipBlanks_length_le text
  omega

/-- The text of the next line, when nothing but blanks and a comment is left of this one. -/
def endLine? (text : List Char) : Option (List Char) :=
  match skipComment (skipBlanks text) with
  | [] => some []
  | rest => lineEnd? rest

/-! ## Strings -/

def scalar? (n : Nat) : Option Char :=
  if n < 0xD800 ∨ (0xE000 ≤ n ∧ n < 0x110000) then some (Char.ofNat n) else none

/-- The character of an escape by so many hexadecimal digits. -/
def numbered? (count : Nat) (text : List Char) : Option (Char × List Char) :=
  let digits := text.take count
  if digits.length < count then none
  else ((Text.numberOf? 16 digits).bind scalar?).map fun c => (c, text.drop count)

/-- The character of an escape after its backslash. -/
def escape? : List Char → Option (Char × List Char)
  | 'u' :: rest => numbered? 4 rest
  | 'U' :: rest => numbered? 8 rest
  | c :: rest =>
    match c with
    | '"' => some ('"', rest)
    | '\\' => some ('\\', rest)
    | 'b' => some ('\x08', rest)
    | 'f' => some ('\x0c', rest)
    | 'n' => some ('\n', rest)
    | 'r' => some ('\r', rest)
    | 't' => some ('\t', rest)
    | _ => none
  | [] => none

theorem numbered?_length_le {count : Nat} {text rest : List Char} {c : Char}
    (h : numbered? count text = some (c, rest)) : rest.length ≤ text.length := by
  simp only [numbered?] at h
  split at h
  · cases h
  · simp only [Option.map_eq_some_iff, Prod.mk.injEq] at h
    obtain ⟨_, _, _, rfl⟩ := h
    simp

theorem escape?_length {text rest : List Char} {c : Char} (h : escape? text = some (c, rest)) :
    rest.length < text.length := by
  unfold escape? at h
  split at h
  · exact Nat.lt_succ_of_le (numbered?_length_le h)
  · exact Nat.lt_succ_of_le (numbered?_length_le h)
  · split at h <;> first | (cases h; done) | (cases h; simp)
  · cases h

/-- A string after its opening quote, with escapes. -/
def basic? (text : List Char) : Option (List Char × List Char) :=
  match text with
  | [] => none
  | '"' :: rest => some ([], rest)
  | '\\' :: rest =>
    match _h : escape? rest with
    | none => none
    | some (c, after) => (basic? after).map fun (cs, left) => (c :: cs, left)
  | c :: rest =>
    if isShown c then (basic? rest).map fun (cs, left) => (c :: cs, left) else none
termination_by text.length
decreasing_by
  · exact Nat.lt_succ_of_lt (escape?_length _h)
  · exact Nat.lt_succ_self _

/-- A string after its opening apostrophe, without escapes. -/
def literal? (text : List Char) : Option (List Char × List Char) :=
  match text.dropWhile fun c => isShown c && c ≠ '\'' with
  | '\'' :: rest => some (text.takeWhile fun c => isShown c && c ≠ '\'', rest)
  | _ => none

/-- The text after a line end right behind an opening delimiter, which does not count. -/
def skipFirstLineEnd (text : List Char) : List Char :=
  (lineEnd? text).getD text

/-- Closes a text of several lines: of three to five quotes the last three are the delimiter. -/
def closing? (quote : Char) (text : List Char) : Option (List Char × List Char) :=
  let run := (text.takeWhile (· = quote)).length
  if run < 3 then none
  else
    let kept := min run 5 - 3
    some (List.replicate kept quote, text.drop (kept + 3))

/-- The text after blanks and line ends. -/
def skipBreaks : List Char → List Char
  | ' ' :: rest => skipBreaks rest
  | '\t' :: rest => skipBreaks rest
  | '\n' :: rest => skipBreaks rest
  | '\r' :: '\n' :: rest => skipBreaks rest
  | text => text

/-- The text after a backslash that ends its line, and after the blanks and line ends behind it. -/
def continued? (text : List Char) : Option (List Char) :=
  (lineEnd? (skipBlanks text)).map skipBreaks

theorem skipBreaks_length_le (text : List Char) : (skipBreaks text).length ≤ text.length := by
  fun_induction skipBreaks text with
  | case1 rest ih => exact Nat.le_succ_of_le ih
  | case2 rest ih => exact Nat.le_succ_of_le ih
  | case3 rest ih => exact Nat.le_succ_of_le ih
  | case4 rest ih => exact Nat.le_succ_of_le (Nat.le_succ_of_le ih)
  | case5 => exact Nat.le_refl _

theorem continued?_length {text rest : List Char} (h : continued? text = some rest) :
    rest.length < text.length := by
  simp only [continued?, Option.map_eq_some_iff] at h
  obtain ⟨after, ha, rfl⟩ := h
  have := lineEnd?_length ha
  have := skipBlanks_length_le text
  have := skipBreaks_length_le after
  omega

/-- A text of several lines after its opening delimiter; escapes only where the quote is `"`. -/
def lines? (quote : Char) (text : List Char) : Option (List Char × List Char) :=
  match text with
  | [] => none
  | c :: rest =>
    if c = quote then
      match closing? quote (c :: rest) with
      | some closed => some closed
      | none => (lines? quote rest).map fun (cs, left) => (c :: cs, left)
    else if c = '\\' ∧ quote = '"' then
      match _hc : continued? rest with
      | some after => lines? quote after
      | none =>
        match _he : escape? rest with
        | none => none
        | some (e, after) => (lines? quote after).map fun (cs, left) => (e :: cs, left)
    else
      match _hl : lineEnd? (c :: rest) with
      | some after => (lines? quote after).map fun (cs, left) => ('\n' :: cs, left)
      | none =>
        if isShown c then (lines? quote rest).map fun (cs, left) => (c :: cs, left) else none
termination_by text.length
decreasing_by
  · exact Nat.lt_succ_self _
  · exact Nat.lt_succ_of_lt (continued?_length _hc)
  · exact Nat.lt_succ_of_lt (escape?_length _he)
  · exact lineEnd?_length _hl
  · exact Nat.lt_succ_self _

def string? : List Char → Option (List Char × List Char)
  | '"' :: '"' :: '"' :: rest => lines? '"' (skipFirstLineEnd rest)
  | '\'' :: '\'' :: '\'' :: rest => lines? '\'' (skipFirstLineEnd rest)
  | '"' :: rest => basic? rest
  | '\'' :: rest => literal? rest
  | _ => none

/-! ## Keys -/

/-- A character of a key that stands without quotes. -/
def isBareKeyChar (c : Char) : Bool :=
  c.isAlphanum || c = '_' || c = '-'

def keyPart? : List Char → Option (String × List Char)
  | '"' :: rest => (basic? rest).map fun (cs, after) => (.ofList cs, after)
  | '\'' :: rest => (literal? rest).map fun (cs, after) => (.ofList cs, after)
  | text =>
    match text.takeWhile isBareKeyChar with
    | [] => none
    | cs => some (.ofList cs, text.dropWhile isBareKeyChar)

/-- A key has less parts than this, and less arrays and tables than this stand in each other. -/
def depthLimit : Nat := 80

/-- The parts of a key, separated by dots, of which there are at most `fuel`; and the text after the
blanks behind it. -/
def key? : Nat → List Char → Option (List String × List Char)
  | 0, _ => none
  | fuel + 1, text => do
    let (part, after) ← keyPart? (skipBlanks text)
    match skipBlanks after with
    | '.' :: rest =>
      let (parts, after) ← key? fuel rest
      return (part :: parts, after)
    | after => return ([part], after)

end SiteServer.Toml
