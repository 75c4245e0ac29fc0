import SiteServer.Decimal.Binary64

/-! # JSON values. -/

namespace SiteServer

/-- A number is whole, within the range of sixty-four bits with or without sign, or a double. -/
inductive JsonNumber where
  | whole (value : Int)
  | double (value : Binary64)
  deriving DecidableEq, Repr

/-- A JSON value. An object keeps its fields in a list, so that a text can be kept as it was written;
in a value for lookups they are in increasing order of their keys, each key once (`Json.ordered`). -/
inductive Json where
  | null
  | bool (value : Bool)
  | number (value : JsonNumber)
  | string (value : String)
  | array (items : List Json)
  | object (fields : List (String × Json))
  deriving Repr, Inhabited

abbrev JsonFields := List (String × Json)

namespace JsonFields

def get? (fields : JsonFields) (key : String) : Option Json :=
  fields.lookup key

/-- Puts a field at its place in the order of keys, over an earlier one with the same key. -/
def insert (key : String) (value : Json) : JsonFields → JsonFields
  | [] => [(key, value)]
  | (k, v) :: rest =>
    if key < k then (key, value) :: (k, v) :: rest
    else if key = k then (key, value) :: rest
    else (k, v) :: insert key value rest

/-- The fields in increasing order of their keys; of several with one key the last counts. -/
def ofList (fields : List (String × Json)) : JsonFields :=
  fields.foldl (fun sorted (key, value) => insert key value sorted) []

end JsonFields

namespace Json

def ofInt (n : Int) : Json :=
  .number (.whole n)

def ofNat (n : Nat) : Json :=
  .number (.whole n)

/-- An object with its fields in increasing order of their keys. -/
def ofFields (fields : List (String × Json)) : Json :=
  .object (JsonFields.ofList fields)

mutual

/-- The value for lookups: every object has its fields in increasing order of their keys, and of
several with one key only the last. -/
def ordered : Json → Json
  | .array items => .array (orderedItems items)
  | .object fields => .object (JsonFields.ofList (orderedFields fields))
  | value => value

def orderedItems : List Json → List Json
  | [] => []
  | item :: rest => ordered item :: orderedItems rest

/-- The fields of an object, each value for lookups. -/
def orderedFields : List (String × Json) → List (String × Json)
  | [] => []
  | (key, value) :: rest => (key, ordered value) :: orderedFields rest

end

/-- The field of an object; a value of another kind has none. -/
def get? (value : Json) (key : String) : Option Json :=
  match value with
  | .object fields => JsonFields.get? fields key
  | _ => none

/-- The item of an array, counted from zero; a value of another kind has none. -/
def item? (value : Json) (index : Nat) : Option Json :=
  match value with
  | .array items => items[index]?
  | _ => none

end Json

end SiteServer
