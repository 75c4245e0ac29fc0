import SiteServer.Text.Utf8

/-! # Places in the bytes of a text where no character is cut.

A text can be cut at a place only where a character starts or the text ends. From any other place such a one
is found by going back, byte by byte. -/

namespace SiteServer.Text.Utf8

/-- A byte that goes on with a character which an earlier byte started. -/
def goesOn (b : UInt8) : Bool :=
  0x80 ≤ b && b < 0xC0

/-- A place where no character is cut: the start, the end, or a byte that starts a character. -/
def isBoundary (bytes : Bytes) (place : Nat) : Bool :=
  place == 0 ||
    match bytes[place]? with
    | some b => !goesOn b
    | none => place == bytes.length

/-- The last place, from the given one back, where no character is cut; `none` where the search would have to
go on below the start. -/
def boundaryBefore? (bytes : Bytes) : Nat → Option Nat
  | 0 => if isBoundary bytes 0 then some 0 else none
  | place + 1 =>
    if isBoundary bytes (place + 1) then some (place + 1) else boundaryBefore? bytes place

/-- The text before a place; `none` where a character would be cut. -/
def textBefore? (bytes : Bytes) (place : Nat) : Option String :=
  if isBoundary bytes place then stringOf? (bytes.take place) else none

end SiteServer.Text.Utf8
