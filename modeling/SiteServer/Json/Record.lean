import SiteServer.Json.Raw

/-! # Reading JSON as records.

A record is written as an object, or as an array of its members in their order. An object may have
fields that are no members, whose values need not stand for anything, but no member twice; a member
that is left out may have a value that stands in for it. -/

namespace SiteServer.RawJson

/-- What is found for the members of a record. -/
abbrev Members := String → Option RawJson

def occursOnce (fields : List (Option String × RawJson)) (key : String) : Bool :=
  (fields.filter fun field => field.1 = some key).length ≤ 1

/-- What is found for the members with the given keys. Every field of the object has a key. A `closed`
record is not written as an array with more items than it has members. -/
def members? (closed : Bool) (keys : List String) : RawJson → Option Members
  | .object fields =>
    if fields.all (·.1.isSome) && keys.all (occursOnce fields) then
      some fun key => fields.lookup (some key)
    else none
  | .array items =>
    if closed && keys.length < items.length then none
    else some fun key => (keys.zip items).lookup key
  | _ => none

/-- A member with a value that stands in for it. -/
def memberOr {α : Type} (standIn : α) (decode : RawJson → Option α) : Option RawJson → Option α
  | none => some standIn
  | some value => decode value

/-- A member that has to be there. -/
def memberOf {α : Type} (decode : RawJson → Option α) : Option RawJson → Option α
  | none => none
  | some value => decode value

/-! ## Members -/

def text? : RawJson → Option String
  | .string text => text
  | _ => none

def texts? : RawJson → Option (List String)
  | .array items => items.mapM text?
  | _ => none

/-- A whole number that is neither negative nor above a limit. -/
def natUpTo? (limit : Nat) : RawJson → Option Nat
  | .number (some (.whole n)) => if 0 ≤ n ∧ n.toNat ≤ limit then some n.toNat else none
  | _ => none

/-- A value, or `null` for none. -/
def nullable? {α : Type} (decode : RawJson → Option α) : RawJson → Option (Option α)
  | .null => some none
  | value => (decode value).map some

/-- A value that is given; `null` is no value. -/
def given? {α : Type} (decode : RawJson → Option α) (value : RawJson) : Option (Option α) :=
  (decode value).map some

/-- A name of one of several choices: a text, or an object with that name as its only key and `null` for
its value. -/
def choice? {α : Type} (ofName? : String → Option α) : RawJson → Option α
  | .string (some name) => ofName? name
  | .object [(some name, .null)] => ofName? name
  | _ => none

end SiteServer.RawJson
