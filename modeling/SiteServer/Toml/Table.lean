import SiteServer.Json.Basic

/-! # Tables that are being read.

A table can be added to as long as its way of coming about allows: one that a header names is complete
after its lines, one that dotted keys made takes further dotted keys, and one that only stands above
others may still get a header of its own. -/

namespace SiteServer.Toml

/-- How a table came about. -/
inductive TableKind where
  | named
  | implied
  | dotted
  deriving DecidableEq, Repr

/-- What a key stands for: a value, a table, or a list of tables. -/
inductive Item where
  | value (value : Json)
  | table (kind : TableKind) (fields : List (String × Item))
  | tables (elements : List (List (String × Item)))
  deriving Repr

abbrev Fields := List (String × Item)

namespace Fields

/-- Puts an item under a key, in place of an earlier one. -/
def set (key : String) (item : Item) : Fields → Fields
  | [] => [(key, item)]
  | (k, other) :: rest => if k = key then (k, item) :: rest else (k, other) :: set key item rest

/-- Changes the last of a list of tables. -/
def changeLast (change : Fields → Option Fields) : List Fields → Option (List Fields)
  | [] => none
  | [last] => (change last).map ([·])
  | element :: rest => (changeLast change rest).map (element :: ·)

/-- Changes the item of a key, by a change of the table that it is or that it lists last; a table that
is missing comes about as `kind` says. Dotted keys lead through no table with a header. -/
def changeIn (kind : TableKind) (key : String) (change : TableKind → Fields → Option Fields)
    (fields : Fields) : Option Fields :=
  match fields.lookup key with
  | none => (change kind []).map fun inner => fields.set key (.table kind inner)
  | some (.value _) => none
  | some (.tables elements) =>
    (changeLast (change .named) elements).map fun elements => fields.set key (.tables elements)
  | some (.table other inner) =>
    if kind = .dotted ∧ other = .named then none
    else (change other inner).map fun inner => fields.set key (.table other inner)

/-- Changes the table at the end of a path; `own` is the kind of the table where it starts. -/
def changeAt (kind own : TableKind) (change : TableKind → Fields → Option Fields) :
    List String → Fields → Option Fields
  | [], fields => change own fields
  | key :: path, fields =>
    changeIn kind key (fun own inner => changeAt kind own change path inner) fields

/-- Adds a value under a dotted key; the last table on the way was made by dotted keys, if there is
any, and has nothing under that key yet. -/
def add (path : List String) (key : String) (value : Json) (fields : Fields) : Option Fields :=
  changeAt .dotted .named (fun own inner =>
    if own = .dotted ↔ path = [] then none
    else if (inner.lookup key).isSome then none
    else some (inner ++ [(key, .value value)])) path fields

/-- Starts the table of a header; it may have tables below it already. -/
def startTable (path : List String) (key : String) (fields : Fields) : Option Fields :=
  changeAt .implied .named (fun _ inner =>
    match inner.lookup key with
    | none => some (inner ++ [(key, .table .named [])])
    | some (.table .implied below) => some (inner.set key (.table .named below))
    | some _ => none) path fields

/-- Starts the next table of the list of a header. -/
def startElement (path : List String) (key : String) (fields : Fields) : Option Fields :=
  changeAt .implied .named (fun _ inner =>
    match inner.lookup key with
    | none => some (inner ++ [(key, .tables [[]])])
    | some (.tables elements) => some (inner.set key (.tables (elements ++ [[]])))
    | some _ => none) path fields

/-- Adds a value to the table that a header started. -/
def addUnder (header path : List String) (key : String) (value : Json) (fields : Fields) :
    Option Fields :=
  changeAt .implied .named (fun _ inner => add path key value inner) header fields

end Fields

mutual

def Item.toJson : Item → Json
  | .value value => value
  | .table _ fields => .object (membersOf fields)
  | .tables elements => .array (objectsOf elements)

def membersOf : List (String × Item) → List (String × Json)
  | [] => []
  | (key, item) :: rest => (key, item.toJson) :: membersOf rest

def objectsOf : List (List (String × Item)) → List Json
  | [] => []
  | fields :: rest => .object (membersOf fields) :: objectsOf rest

end

end SiteServer.Toml
