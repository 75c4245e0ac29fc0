import SiteServer.Json.Number
import SiteServer.Json.Raw
import SiteServer.Text.Digits
import SiteServer.Text.Utf8

/-! # Reading JSON.

The reader goes through the text once. Between tokens it holds the containers that are open and what
may come next, so that no text, however deep, makes it do more than one step for each token. What it
reads is the tree of the text; a value has at most 127 containers nested in one another. -/

namespace SiteServer

/-- Why a text is no JSON value: the reader stopped at a place, counted in lines and columns. -/
structure JsonFault where
  line : Nat
  column : Nat
  deriving DecidableEq, Repr

def JsonFault.message (fault : JsonFault) : String :=
  s!"unexpected text at line {fault.line} column {fault.column}"

namespace Json

/-! ## Tokens -/

/-- A token: punctuation, or what is no container. -/
inductive Token where
  | openArray
  | closeArray
  | openObject
  | closeObject
  | colon
  | comma
  | scalar (value : RawJson)
  deriving Repr

def isSpace (c : Char) : Bool :=
  c = ' ' || c = '\n' || c = '\t' || c = '\r'

/-- The character that a backslash and a letter stand for. -/
def escape? : Char → Option Char
  | '"' => some '"'
  | '\\' => some '\\'
  | '/' => some '/'
  | 'b' => some '\x08'
  | 'f' => some '\x0c'
  | 'n' => some '\n'
  | 'r' => some '\r'
  | 't' => some '\t'
  | _ => none

/-- One piece of a string: a character, or half of a pair of surrogates, which is no character. -/
inductive Piece where
  | char (c : Char)
  | half (unit : Nat)
  deriving DecidableEq, Repr

/-- The piece with a number of sixteen bits. -/
def Piece.ofUnit (n : Nat) : Piece :=
  if n < 0xD800 ∨ 0xE000 ≤ n then .char (Char.ofNat n) else .half n

/-- The character of a pair of surrogates. -/
def pair? (high low : Nat) : Option Char :=
  if 0xD800 ≤ high ∧ high < 0xDC00 ∧ 0xDC00 ≤ low ∧ low < 0xE000 then
    some (Char.ofNat (0x10000 + (high - 0xD800) * 0x400 + (low - 0xDC00)))
  else none

/-- The characters of a string: two halves of a pair that stand side by side are one character, and a
half without its partner is none. -/
def characters? : List Piece → Option (List Char)
  | [] => some []
  | .char c :: rest => (characters? rest).map (c :: ·)
  | .half high :: .half low :: rest =>
    (pair? high low).bind fun c => (characters? rest).map (c :: ·)
  | .half _ :: _ => none

/-- The piece of an escape by number: four hexadecimal digits. -/
def numbered? : List Char → Option (Piece × List Char)
  | a :: b :: c :: d :: rest => (Text.numberOf? 16 [a, b, c, d]).map fun n => (.ofUnit n, rest)
  | _ => none

/-- The next piece of a string after its opening quote: none at the closing quote. Control characters
stand in no string. -/
def stringPiece? : List Char → Option (Option Piece × List Char)
  | [] => none
  | '"' :: rest => some (none, rest)
  | '\\' :: 'u' :: rest => (numbered? rest).map fun (piece, after) => (some piece, after)
  | '\\' :: c :: rest => (escape? c).map fun e => (some (.char e), rest)
  | c :: rest => if c.toNat < 0x20 ∨ c = '\\' then none else some (some (.char c), rest)

theorem numbered?_length {text rest : List Char} {piece : Piece}
    (h : numbered? text = some (piece, rest)) : rest.length < text.length := by
  unfold numbered? at h
  split at h
  · simp only [Option.map_eq_some_iff, Prod.mk.injEq] at h
    obtain ⟨n, _, _, rfl⟩ := h
    simp only [List.length_cons]
    omega
  · cases h

theorem stringPiece?_length {text rest : List Char} {piece : Option Piece}
    (h : stringPiece? text = some (piece, rest)) : rest.length < text.length := by
  unfold stringPiece? at h
  split at h
  · cases h
  · cases h
    simp
  · simp only [Option.map_eq_some_iff, Prod.mk.injEq, Prod.exists] at h
    obtain ⟨a, b, hb, _, rfl⟩ := h
    have := numbered?_length hb
    simp only [List.length_cons]
    omega
  · simp only [Option.map_eq_some_iff, Prod.mk.injEq] at h
    obtain ⟨e, _, _, rfl⟩ := h
    simp only [List.length_cons]
    omega
  · split at h
    · cases h
    · cases h
      simp

/-- The pieces of a string after its opening quote, and the text after its closing quote. -/
def stringBody? (text : List Char) : Option (List Piece × List Char) :=
  match _h : stringPiece? text with
  | none => none
  | some (none, rest) => some ([], rest)
  | some (some piece, rest) =>
    (stringBody? rest).map fun (pieces, after) => (piece :: pieces, after)
termination_by text.length
decreasing_by exact stringPiece?_length _h

theorem stringBody?_length {text rest : List Char} {pieces : List Piece}
    (h : stringBody? text = some (pieces, rest)) : rest.length < text.length := by
  fun_induction stringBody? text generalizing pieces with
  | case1 => cases h
  | case2 text after hc =>
    cases h
    exact stringPiece?_length hc
  | case3 text piece after hc ih =>
    simp only [Option.map_eq_some_iff, Prod.mk.injEq, Prod.exists] at h
    obtain ⟨ds, r, hr, _, rfl⟩ := h
    exact Nat.lt_trans (ih hr) (stringPiece?_length hc)

/-- A name at the start of a text, and the text after it. -/
def word? (name : List Char) (value : RawJson) (text : List Char) : Option (Token × List Char) :=
  if name.isPrefixOf text then some (.scalar value, text.drop name.length) else none

def token? : List Char → Option (Token × List Char)
  | [] => none
  | '[' :: rest => some (.openArray, rest)
  | ']' :: rest => some (.closeArray, rest)
  | '\x7b' :: rest => some (.openObject, rest)
  | '\x7d' :: rest => some (.closeObject, rest)
  | ':' :: rest => some (.colon, rest)
  | ',' :: rest => some (.comma, rest)
  | '"' :: rest => (stringBody? rest).map fun (pieces, after) =>
    (.scalar (.string ((characters? pieces).map String.ofList)), after)
  | 'n' :: rest => word? ['u', 'l', 'l'] .null rest
  | 't' :: rest => word? ['r', 'u', 'e'] (.bool true) rest
  | 'f' :: rest => word? ['a', 'l', 's', 'e'] (.bool false) rest
  | text => (numberLiteral? text).map fun (literal, after) =>
    (.scalar (.number literal.value?), after)

theorem token?_length {text rest : List Char} {token : Token} (h : token? text = some (token, rest)) :
    rest.length < text.length := by
  have word {name text rest : List Char} {value : RawJson} {token : Token}
      (h : word? name value text = some (token, rest)) : rest.length ≤ text.length := by
    unfold word? at h
    split at h
    · cases h
      simp
    · cases h
  unfold token? at h
  split at h
  · cases h
  all_goals try (cases h; simp)
  · simp only [Option.map_eq_some_iff, Prod.mk.injEq, Prod.exists] at h
    obtain ⟨cs, r, hr, _, rfl⟩ := h
    have := stringBody?_length hr
    simp only [List.length_cons]
    omega
  · exact Nat.lt_succ_of_le (word h)
  · exact Nat.lt_succ_of_le (word h)
  · exact Nat.lt_succ_of_le (word h)
  · simp only [Option.map_eq_some_iff, Prod.mk.injEq, Prod.exists] at h
    obtain ⟨n, r, hr, _, rfl⟩ := h
    exact numberLiteral?_length hr

/-! ## Trees -/

/-- A container that is open around the place where a tree is read, with what it holds so far, newest
first. -/
inductive Frame where
  | array (items : List RawJson)
  | member (fields : List (Option String × RawJson)) (key : Option String)
  deriving Repr

/-- What may come next. -/
inductive Expected where
  | value
  | valueOrClose
  | keyOrClose
  | key (fields : List (Option String × RawJson))
  | colon (fields : List (Option String × RawJson)) (key : Option String)
  | separator (value : RawJson)
  deriving Repr

/-- A tree starts: a container is opened, and anything else is complete. -/
def start? (frames : List Frame) : Token → Option (List Frame × Expected)
  | .openArray => some (.array [] :: frames, .valueOrClose)
  | .openObject => some (frames, .keyOrClose)
  | .scalar value => some (frames, .separator value)
  | _ => none

def step? (frames : List Frame) : Expected → Token → Option (List Frame × Expected)
  | .value, token => start? frames token
  | .valueOrClose, .closeArray =>
    match frames with
    | .array [] :: outer => some (outer, .separator (.array []))
    | _ => none
  | .valueOrClose, token => start? frames token
  | .keyOrClose, .closeObject => some (frames, .separator (.object []))
  | .keyOrClose, .scalar (.string key) => some (frames, .colon [] key)
  | .key fields, .scalar (.string key) => some (frames, .colon fields key)
  | .colon fields key, .colon => some (.member fields key :: frames, .value)
  | .separator value, .comma =>
    match frames with
    | .array items :: outer => some (.array (value :: items) :: outer, .value)
    | .member fields key :: outer => some (outer, .key ((key, value) :: fields))
    | [] => none
  | .separator value, .closeArray =>
    match frames with
    | .array items :: outer => some (outer, .separator (.array (value :: items).reverse))
    | _ => none
  | .separator value, .closeObject =>
    match frames with
    | .member fields key :: outer =>
      some (outer, .separator (.object ((key, value) :: fields).reverse))
    | _ => none
  | _, _ => none

/-- Reads on from between two tokens; a failure gives the text that was left. -/
def run (frames : List Frame) (expected : Expected) : List Char → Except (List Char) RawJson
  | [] =>
    match frames, expected with
    | [], .separator value => .ok value
    | _, _ => .error []
  | c :: rest =>
    if isSpace c then run frames expected rest
    else match _h : token? (c :: rest) with
      | none => .error (c :: rest)
      | some (token, after) =>
        match step? frames expected token with
        | none => .error (c :: rest)
        | some (frames', expected') => run frames' expected' after
termination_by text => text.length
decreasing_by
  · simp
  · exact token?_length _h

/-- The place of the end of a text, in lines and columns. -/
def faultAfter (text : List Char) : JsonFault :=
  ⟨text.count '\n' + 1, (text.reverse.takeWhile (· ≠ '\n')).length + 1⟩

def readRaw (text : List Char) : Except JsonFault RawJson :=
  match run [] .value text with
  | .ok tree => .ok tree
  | .error left => .error (faultAfter (text.take (text.length - left.length)))

/-! ## Values -/

/-- How many containers of a value may be nested in one another. -/
def depthLimit : Nat := 127

/-- Reads a text as it is written: fields keep their order, and a key may occur again. Of a text that
stands for no value the fault is found at its end. -/
def readWritten (text : List Char) : Except JsonFault Json := do
  let tree ← readRaw text
  match tree.value? depthLimit with
  | some value => .ok value
  | none => .error (faultAfter text)

/-- Reads a text as a value for lookups: of several fields with one key the last counts. -/
def read (text : List Char) : Except JsonFault Json :=
  (readWritten text).map ordered

/-- Reads bytes as a value for lookups; bytes that are no text are no value either. -/
def readBytes (bytes : Bytes) : Except JsonFault Json :=
  match Text.Utf8.decode? bytes with
  | some text => read text
  | none => .error (faultAfter ((Text.Utf8.characters bytes).takeWhile Option.isSome).reduceOption)

end Json

end SiteServer
