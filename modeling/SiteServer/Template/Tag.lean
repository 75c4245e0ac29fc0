import SiteServer.Template.Lookup
import SiteServer.Text.Split

/-! # Tags of a template text and the segments they make.

`<%= e %>` prints the value of a lookup escaped, `<%- e %>` as it is, `<%# … %>` prints nothing, and
`<%%` stands for `<%`. A tag runs to the first `%>`; one that closes with `-%>` takes the line end after
it along. -/

namespace SiteServer.Template

/-- A part of a template: text, or a lookup printed escaped or as it is. -/
inductive Segment where
  | text (content : String)
  | escaped (lookup : Lookup)
  | raw (lookup : Lookup)
  deriving DecidableEq, Repr

/-- Why a text is no template. -/
inductive TagFault where
  | unclosed
  | unsupportedTag (body : String)
  | unsupportedExpression (source : String)
  deriving DecidableEq, Repr

def TagFault.message : TagFault → String
  | .unclosed => "could not find matching close tag for \"<%\""
  | .unsupportedTag body => s!"unsupported tag \"<%{body}%>\""
  | .unsupportedExpression source => s!"unsupported expression '{source}'"

/-! ## Tags -/

/-- What starts with `<%`: the written form of `<%` itself, a tag with the text between its marks, or
an opening mark that is never closed. -/
inductive Tag where
  | literal
  | body (content : List Char)
  | unclosed
  deriving DecidableEq, Repr

namespace Tag

/-- The text between the marks of a tag closes it with `-`. -/
def trims (content : List Char) : Bool :=
  content.getLast? == some '-' && 1 < content.length

/-- A tag by the text between its marks and the text after it: a `-` at the close is no part of it,
and takes one line end along. -/
def closed (content rest : List Char) : Tag × List Char :=
  if trims content then (.body content.dropLast, Text.dropLineEnd rest) else (.body content, rest)

/-- The tag at the start of a text, and the text after it. -/
def read? : List Char → Option (Tag × List Char)
  | '<' :: '%' :: '%' :: rest => some (.literal, rest)
  | '<' :: '%' :: rest =>
    match Text.splitAt? ['%', '>'] rest with
    | some (content, after) => some (closed content after)
    | none => some (.unclosed, [])
  | _ => none

theorem closed_length_le (content rest : List Char) : (closed content rest).2.length ≤ rest.length := by
  unfold closed
  split
  · exact Text.dropLineEnd_length_le rest
  · exact Nat.le_refl _

theorem read?_length {text rest : List Char} {tag : Tag} (h : read? text = some (tag, rest)) :
    rest.length < text.length := by
  unfold read? at h
  split at h
  · cases h
    simp
    omega
  · split at h
    · rename_i tail _ content after hs
      have ht := congrArg List.length (Text.eq_append_of_splitAt? hs)
      have hc := closed_length_le content after
      rw [Option.some.inj h] at hc
      simp only [List.length_append, List.length_cons] at ht ⊢
      dsimp only at hc
      omega
    · cases h
      simp
  · cases h

def pattern : Text.Pattern Tag where
  read? := read?
  read?_shorter := read?_length

end Tag

/-! ## Segments -/

/-- The segment that a tag makes; a comment makes none. -/
def Segment.ofBody? : List Char → Except TagFault (Option Segment)
  | '#' :: _ => .ok none
  | '=' :: rest =>
    match Lookup.parse? rest with
    | some lookup => .ok (some (.escaped lookup))
    | none => .error (.unsupportedExpression (String.ofList (Text.trim rest)))
  | '-' :: rest =>
    match Lookup.parse? rest with
    | some lookup => .ok (some (.raw lookup))
    | none => .error (.unsupportedExpression (String.ofList (Text.trim rest)))
  | content => .error (.unsupportedTag (String.ofList content))

/-- The segments of the pieces of a text; `literal` holds the text since the last segment, newest
character first. The first fault ends the work. -/
def Segment.ofPieces (literal : List Char) :
    List (Text.Piece Tag) → Except TagFault (List Segment)
  | [] => .ok (if literal = [] then [] else [.text (String.ofList literal.reverse)])
  | .char c :: rest => ofPieces (c :: literal) rest
  | .found .literal :: rest => ofPieces ('%' :: '<' :: literal) rest
  | .found .unclosed :: _ => .error .unclosed
  | .found (.body content) :: rest =>
    match ofBody? content with
    | .error fault => .error fault
    | .ok none => ofPieces literal rest
    | .ok (some segment) =>
      (ofPieces [] rest).map fun segments =>
        if literal = [] then segment :: segments
        else .text (String.ofList literal.reverse) :: segment :: segments

def segmentsOf (text : List Char) : Except TagFault (List Segment) :=
  Segment.ofPieces [] (Tag.pattern.split text)

end SiteServer.Template
