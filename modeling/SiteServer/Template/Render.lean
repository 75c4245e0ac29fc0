import SiteServer.Json.Printer
import SiteServer.Template.Tag
import SiteServer.Text.Markup

/-! # Rendering segments on data.

A lookup starts at a field of the data and goes on step by step. A missing property prints nothing, but
no step leads further from it. -/

namespace SiteServer.Template

/-- What a step was taken from in vain. -/
inductive Obstacle where
  | undefined
  | null
  | boolean
  | number
  | string
  deriving DecidableEq, Repr

def Obstacle.message : Obstacle → String
  | .undefined => "undefined"
  | .null => "null"
  | .boolean => "a boolean"
  | .number => "a number"
  | .string => "a string"

def Step.message : Step → String
  | .key name => s!"property '{name}'"
  | .index place => s!"index {place}"

/-- Why a template cannot be rendered on some data. -/
inductive LookupFault where
  | undefinedRoot (root : String)
  | unreadable (step : Step) (obstacle : Obstacle) (source : String)
  deriving DecidableEq, Repr

def LookupFault.message : LookupFault → String
  | .undefinedRoot root => s!"{root} is not defined"
  | .unreadable step obstacle source =>
    s!"cannot read {step.message} of {obstacle.message} in '{source}'"

namespace Lookup

/-- The name that stands for the data as a whole. -/
def wholeData : String := "locals"

/-- What a value is to a step: an obstacle, or something that has properties or items. -/
def obstacle? : Option Json → Option Obstacle
  | none => some .undefined
  | some .null => some .null
  | some (.bool _) => some .boolean
  | some (.number _) => some .number
  | some (.string _) => some .string
  | some (.array _) => none
  | some (.object _) => none

/-- Where a step leads; a property of an array and an item of an object are missing. -/
def follow (value : Json) : Step → Option Json
  | .key name => value.get? name
  | .index place => value.item? place

/-- Takes steps from a value, which may be missing. -/
def walk (source : String) (current : Option Json) : List Step → Except LookupFault (Option Json)
  | [] => .ok current
  | step :: rest =>
    match obstacle? current with
    | some obstacle => .error (.unreadable step obstacle source)
    | none => walk source (current.bind (follow · step)) rest

/-- The value that a lookup starts from. -/
def start? (lookup : Lookup) (data : Json) : Option Json :=
  if lookup.root = wholeData then some data else data.get? lookup.root

/-- The value of a lookup; a missing one is none. -/
def value (lookup : Lookup) (data : Json) : Except LookupFault (Option Json) :=
  match lookup.start? data with
  | none => .error (.undefinedRoot lookup.root)
  | some start => walk lookup.source (some start) lookup.steps

end Lookup

mutual

/-- A value as output: text as it is, `null` as nothing, items separated by commas. -/
def display : Json → List Char
  | .null => []
  | .string s => s.toList
  | .bool true => "true".toList
  | .bool false => "false".toList
  | .number n => Json.printNumber n
  | .array items => displayItems items
  | .object _ => "[object Object]".toList

def displayItems : List Json → List Char
  | [] => []
  | [item] => display item
  | item :: rest => display item ++ ',' :: displayItems rest

end

def displayValue (value : Option Json) : List Char :=
  value.elim [] display

def Segment.render (data : Json) : Segment → Except LookupFault (List Char)
  | .text content => .ok content.toList
  | .escaped lookup => (lookup.value data).map fun v => Text.Markup.escape (displayValue v)
  | .raw lookup => (lookup.value data).map displayValue

/-- The output of segments, in order; the first failure ends the work and leaves no output. -/
def renderSegments (data : Json) : List Segment → Except LookupFault (List Char)
  | [] => .ok []
  | segment :: rest => do
    let first ← segment.render data
    let others ← renderSegments data rest
    return first ++ others

end SiteServer.Template
