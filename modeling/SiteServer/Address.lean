import SiteServer.Config.Options
import SiteServer.FileTree
import SiteServer.Text.Digits

/-! # Addresses at which a listener waits.

A host is a number or a name. A short number has one to four parts between dots, each of them decimal,
octal after a `0` or hexadecimal after a `0x`; all parts but the last are one byte, and the last one fills
the bytes that are left. A long number has eight groups of hexadecimal digits between colons; two colons
stand for as many zero groups as are missing, and a short number of four bytes may stand for the last two
groups.

The machine has no network: any short number is an address to wait at, of the long ones only the one
without a bit set, and there is nobody to ask for names. -/

namespace SiteServer

/-- Where a listener waits. -/
structure SocketAddress where
  ip : String
  port : UInt16
  deriving DecidableEq, Repr

namespace SocketAddress

/-- The address in one text; a number with colons stands in brackets. -/
def text (address : SocketAddress) : String :=
  if address.ip.toList.contains ':' then s!"[{address.ip}]:{address.port.toNat}"
  else s!"{address.ip}:{address.port.toNat}"

/-! ## Short numbers -/

def part? : List Char → Option Nat
  | [] => none
  | '0' :: 'x' :: d :: digits => Text.numberOf? 16 (d :: digits)
  | '0' :: 'X' :: d :: digits => Text.numberOf? 16 (d :: digits)
  | '0' :: digits => Text.numberOf? 8 digits
  | digits => Text.numberOf? 10 digits

/-- The lowest bytes of a number, highest first. -/
def octets (count n : Nat) : List Nat :=
  (List.range count).reverse.map fun i => (n >>> (8 * i)) % 256

/-- The bytes that the parts of a host stand for, `room` in number. -/
def fill? : Nat → List Nat → Option (List Nat)
  | 0, _ => none
  | _, [] => none
  | room, [n] => if n < 1 <<< (8 * room) then some (octets room n) else none
  | room + 1, n :: rest => if n < 256 then (fill? room rest).map (n :: ·) else none

def short? (host : List Char) : Option (List Nat) :=
  ((host.splitOnP (· == '.')).mapM part?).bind (fill? 4)

def dotted (bytes : List Nat) : String :=
  String.intercalate "." (bytes.map toString)

/-! ## Long numbers -/

/-- The number of a group of one to four hexadecimal digits. -/
def group? (digits : List Char) : Option Nat :=
  if 1 ≤ digits.length ∧ digits.length ≤ 4 then Text.numberOf? 16 digits else none

/-- The two groups of four decimal bytes between dots, written without a zero in front. -/
def quad? (text : List Char) : Option (List Nat) := do
  let bytes ← (text.splitOnP (· == '.')).mapM (Text.numberOf? 10)
  match bytes with
  | [a, b, c, d] =>
    if (dotted bytes).toList = text ∧ bytes.all (· < 256) then some [a * 256 + b, c * 256 + d] else none
  | _ => none

def groups? : List (List Char) → Option (List Nat)
  | [] => some []
  | [last] => ((group? last).map fun n => [n]).or (quad? last)
  | digits :: rest => do return (← group? digits) :: (← groups? rest)

/-- The texts before and after the first two colons in a row. -/
def gap? : List Char → Option (List Char × List Char)
  | ':' :: ':' :: rest => some ([], rest)
  | c :: rest => (gap? rest).map fun (before, after) => (c :: before, after)
  | [] => none

def side? : List Char → Option (List Nat)
  | [] => some []
  | text => groups? (text.splitOnP (· == ':'))

def long? (host : List Char) : Option (List Nat) := do
  match gap? host with
  | none =>
    let groups ← side? host
    if groups.length = 8 then some groups else none
  | some (before, after) =>
    let first ← if before.contains '.' then none else side? before
    let last ← side? after
    if first.length + last.length < 8 then
      some (first ++ List.replicate (8 - first.length - last.length) 0 ++ last)
    else none

/-! ## Names -/

/-- A name of at most 253 characters: parts of one to 63 letters, digits, hyphens and underscores between
dots, with no hyphen in front. -/
def isName (host : List Char) : Bool :=
  host.length ≤ 253 && host.head? != some '-'
    && (host.splitOnP (· == '.')).all fun part =>
      1 ≤ part.length && part.length ≤ 63 && part.all fun c => c.isAlphanum || c = '-' || c = '_'

/-- A name without the dot that may end it. -/
def withoutLastDot (host : List Char) : List Char :=
  if host.getLast? = some '.' then host.dropLast else host

/-! ## Addresses of this machine -/

/-- Nobody can wait at an address of another machine. -/
def notOwn : IoFault :=
  .other "Cannot assign requested address (os error 99)"

/-- A name that cannot be one, or that nobody is there to explain. -/
def unknownName (host : List Char) : IoFault :=
  .other (if isName (withoutLastDot host) then
    "failed to lookup address information: Temporary failure in name resolution"
  else "failed to lookup address information: Name or service not known")

/-- A host without the brackets that may stand around a long number. -/
def unbracketed (host : List Char) : List Char :=
  match host with
  | '[' :: rest =>
    if rest.getLast? = some ']' ∧ (long? rest.dropLast).isSome then rest.dropLast else host
  | _ => host

def ofOptions (options : ListenOptions) : Except IoFault SocketAddress :=
  let host := options.host.toList
  if host.map Char.toLower = "localhost".toList then .ok ⟨"127.0.0.1", options.port⟩
  else if host.contains '\x00' then .error .nulInName
  else match short? host, long? (unbracketed host) with
    | some bytes, _ => .ok ⟨dotted bytes, options.port⟩
    | none, some groups =>
      if groups.all (· = 0) then .ok ⟨"::", options.port⟩ else .error notOwn
    | none, none => .error (unknownName host)

end SocketAddress

end SiteServer
