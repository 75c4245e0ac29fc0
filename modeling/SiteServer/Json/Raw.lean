import SiteServer.Json.Basic

/-! # JSON texts taken apart.

A text can be well written and still stand for no value: a number may lie beyond the largest double, a
string may hold half of a pair of surrogates, and containers may be nested too deep. Its tree is kept
all the same, because a record asks only for the values of its own members. -/

namespace SiteServer

/-- The tree of a JSON text. A number or a string that stands for nothing is there without its value;
the fields of an object are in the order in which they are written. -/
inductive RawJson where
  | null
  | bool (value : Bool)
  | number (value : Option JsonNumber)
  | string (value : Option String)
  | array (items : List RawJson)
  | object (fields : List (Option String × RawJson))
  deriving Repr, Inhabited

namespace RawJson

mutual

def ofJson : Json → RawJson
  | .null => .null
  | .bool b => .bool b
  | .number n => .number (some n)
  | .string s => .string (some s)
  | .array items => .array (ofItems items)
  | .object fields => .object (ofFields fields)

def ofItems : List Json → List RawJson
  | [] => []
  | item :: rest => ofJson item :: ofItems rest

def ofFields : List (String × Json) → List (Option String × RawJson)
  | [] => []
  | (key, value) :: rest => (some key, ofJson value) :: ofFields rest

end

mutual

/-- The value that a tree stands for, if all its parts stand for something and at most so many of its
containers are nested in one another. -/
def value? (depth : Nat) : RawJson → Option Json
  | .null => some .null
  | .bool b => some (.bool b)
  | .number n => n.map .number
  | .string s => s.map .string
  | .array items =>
    match depth with
    | 0 => none
    | inner + 1 => (values? inner items).map .array
  | .object fields =>
    match depth with
    | 0 => none
    | inner + 1 => (fieldValues? inner fields).map .object

def values? (depth : Nat) : List RawJson → Option (List Json)
  | [] => some []
  | item :: rest => do return (← value? depth item) :: (← values? depth rest)

def fieldValues? (depth : Nat) : List (Option String × RawJson) → Option (List (String × Json))
  | [] => some []
  | (key, item) :: rest => do return (← key, ← value? depth item) :: (← fieldValues? depth rest)

end

end RawJson

end SiteServer
