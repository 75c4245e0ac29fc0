import SiteServer.Toml.Scalar
import SiteServer.Toml.Table

/-! # Reading TOML documents. -/

namespace SiteServer.Toml

/-! ## Values -/

/-- The items of an array after its opening bracket; a comma may follow the last one. -/
def arrayItems? (read : List Char → Option (Json × List Char)) :
    Nat → List Char → Option (List Json × List Char)
  | 0, _ => none
  | fuel + 1, text =>
    match skipSpace text with
    | ']' :: rest => some ([], rest)
    | start => do
      let (item, after) ← read start
      match skipSpace after with
      | ',' :: rest =>
        let (items, after) ← arrayItems? read fuel rest
        return (item :: items, after)
      | ']' :: rest => return ([item], rest)
      | _ => none

/-- A key, an equals sign and a value; the last part of the key stands apart. -/
def pair? (read : List Char → Option (Json × List Char)) (text : List Char) :
    Option (List String × String × Json × List Char) := do
  let (parts, after) ← key? (depthLimit - 1) text
  match after with
  | '=' :: rest =>
    let (value, after) ← read (skipBlanks rest)
    return (parts.dropLast, ← parts.getLast?, value, after)
  | _ => none

/-- The pairs of a table on one line after its first brace; none may be missing between commas. -/
def inlinePairs? (read : List Char → Option (Json × List Char)) :
    Nat → Fields → List Char → Option (Fields × List Char)
  | 0, _, _ => none
  | fuel + 1, fields, text => do
    let (path, key, value, after) ← pair? read text
    let fields ← fields.add path key value
    match skipBlanks after with
    | ',' :: rest => inlinePairs? read fuel fields rest
    | '\x7d' :: rest => return (fields, rest)
    | _ => none

def inlineTable? (read : List Char → Option (Json × List Char)) (text : List Char) :
    Option (Json × List Char) :=
  match skipBlanks text with
  | '\x7d' :: rest => some (.object [], rest)
  | start => (inlinePairs? read (start.length + 1) [] start).map fun (fields, after) =>
    (.object (membersOf fields), after)

/-- A value at the start of a text, with less than `depth` arrays and tables around each other. -/
def value? : Nat → List Char → Option (Json × List Char)
  | 0, _ => none
  | _, [] => none
  | depth + 1, c :: rest =>
    if c = '"' ∨ c = '\'' then
      (string? (c :: rest)).map fun (cs, after) => (.string (.ofList cs), after)
    else if (c = '[' ∨ c = '\x7b') ∧ depth = 0 then none
    else if c = '[' then
      (arrayItems? (value? depth) (rest.length + 1) rest).map fun (items, after) =>
        (.array items, after)
    else if c = '\x7b' then inlineTable? (value? depth) rest
    else if c = 't' then word? "true" (.bool true) (c :: rest)
    else if c = 'f' then word? "false" (.bool false) (c :: rest)
    else numeric? (c :: rest)

/-! ## Documents -/

/-- What has been read of a document: the tables so far, and the header that the lines belong to. -/
structure Document where
  fields : Fields
  header : List String
  deriving Repr

def header? (closing : List Char) (text : List Char) : Option (List String × List Char) := do
  let (parts, after) ← key? (depthLimit - 1) text
  if closing.isPrefixOf after then return (parts, after.drop closing.length) else none

/-- Takes in what starts a line: a header or a pair. -/
def Document.take? (doc : Document) (text : List Char) : Option (Document × List Char) :=
  match text with
  | '[' :: '[' :: rest => do
    let (parts, after) ← header? [']', ']'] rest
    let fields ← doc.fields.startElement parts.dropLast (← parts.getLast?)
    return (⟨fields, parts⟩, after)
  | '[' :: rest => do
    let (parts, after) ← header? [']'] rest
    let fields ← doc.fields.startTable parts.dropLast (← parts.getLast?)
    return (⟨fields, parts⟩, after)
  | _ => do
    let (path, key, value, after) ← pair? (value? depthLimit) text
    let fields ← doc.fields.addUnder doc.header path key value
    return ({ doc with fields }, after)

/-- Reads the lines of a document, of which there are less than `fuel`. -/
def Document.readLines? : Nat → Document → List Char → Option Document
  | 0, _, _ => none
  | fuel + 1, doc, text =>
    match skipSpace text with
    | [] => some doc
    | start => do
      let (doc, after) ← doc.take? start
      readLines? fuel doc (← endLine? after)

/-- The data of a document; a byte order mark before it does not count. -/
def read? (text : String) : Option Json :=
  let chars := match text.toList with
    | '\ufeff' :: rest => rest
    | chars => chars
  (Document.readLines? (chars.length + 1) ⟨[], []⟩ chars).map fun doc =>
    .object (membersOf doc.fields)

end SiteServer.Toml
