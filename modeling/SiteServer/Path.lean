import SiteServer.Text.Utf8

/-! # Paths as they are written.

A path keeps its text, because messages show it. Everything else looks at its components: repeated and
trailing slashes are no components, and neither is a `.` other than one that starts a relative path. -/

namespace SiteServer

/-- A path as it is written. -/
structure Path where
  text : String
  deriving DecidableEq, Repr

inductive Component where
  | root
  | here
  | up
  | name (text : String)
  deriving DecidableEq, Repr

namespace Path

/-! ## Components -/

/-- The parts of a text between slashes. -/
def slices (text : List Char) : List (List Char) :=
  text.splitOnP (· == '/')

/-- Starts at the root of the file tree. -/
def isAbsolute (p : Path) : Bool :=
  p.text.toList.head? == some '/'

/-- The component that a part between slashes names; an empty part and a `.` name none. -/
def component? (slice : List Char) : Option Component :=
  if slice = [] ∨ slice = ['.'] then none
  else if slice = ['.', '.'] then some .up
  else some (.name (String.ofList slice))

/-- The components of a path, outermost first. -/
def components (p : Path) : List Component :=
  let parts := slices p.text.toList
  let lead := if p.isAbsolute then [.root] else if parts.head? = some ['.'] then [.here] else []
  lead ++ parts.filterMap component?

/-- Two paths are the same when their components are, however they are written. -/
def same (p q : Path) : Bool :=
  p.components = q.components

/-- The components of `base` are the first ones of `p`. -/
def startsWith (p base : Path) : Bool :=
  base.components.isPrefixOf p.components

def componentText : Component → String
  | .root => "/"
  | .here => "."
  | .up => ".."
  | .name text => text

/-! ## Building paths -/

/-- The path `p` inside the directory `base`; an absolute `p` replaces the base. -/
def join (base p : Path) : Path :=
  if p.isAbsolute then p
  else if base.text.toList = [] ∨ base.text.toList.getLast? = some '/' then ⟨base.text ++ p.text⟩
  else ⟨base.text ++ "/" ++ p.text⟩

/-- The path inside a directory that a text names. -/
def child (base : Path) (text : String) : Path :=
  base.join ⟨text⟩

def ofComponents (components : List Component) : Path :=
  components.foldl (fun p c => p.child (componentText c)) ⟨""⟩

/-- The path with a dot and an extension appended to its text. -/
def appendExtension (p : Path) (extension : String) : Path :=
  ⟨p.text ++ "." ++ extension⟩

/-! ## Taking paths apart -/

/-- The path without its last component; the root and the empty path have no parent. -/
def parent? (p : Path) : Option Path :=
  match p.components.reverse with
  | [] => none
  | .root :: _ => none
  | _ :: outer => some (ofComponents outer.reverse)

/-- The name of the file, if the path ends in a name. -/
def fileName? (p : Path) : Option String :=
  match p.components.getLast? with
  | some (.name text) => some text
  | _ => none

/-- What follows the last dot of the file name; a dot at its start begins no extension. -/
def extension? (p : Path) : Option String :=
  match p.fileName? with
  | none => none
  | some name =>
    let reversed := name.toList.reverse
    match (reversed.dropWhile (· ≠ '.')).drop 1 with
    | [] => none
    | _ :: _ => some (String.ofList (reversed.takeWhile (· ≠ '.')).reverse)

/-! ## Normal form -/

/-- The names that remain when every `..` takes back the name before it, newest first. A `..` with no
name before it takes back nothing. -/
def settleNames : List String → List Component → List String
  | names, [] => names
  | names, .name text :: rest => settleNames (text :: names) rest
  | names, .up :: rest => settleNames names.tail rest
  | names, _ :: rest => settleNames names rest

/-- The names of the normal form of a path, outermost first. -/
def names (p : Path) : List String :=
  (settleNames [] p.components).reverse

/-- The path with the given names, from the root or relative. -/
def ofNames (absolute : Bool) (names : List String) : Path :=
  ⟨String.ofList ((if absolute then ['/'] else []) ++
    List.intercalate ['/'] (names.map String.toList))⟩

/-- The normal form of a path, without `.` and `..`, found without looking at any file. -/
def normalize (p : Path) : Path :=
  ofNames p.isAbsolute p.names

/-- The absolute form of a path: the working directory, which is the root of the file tree, comes
before a relative one. `..` is kept, and so are two slashes at the start, if no third follows, and a
slash at the end. The empty path has no absolute form. -/
def absolute? (p : Path) : Option Path :=
  if p.text = "" then none
  else
    let chars := p.text.toList
    let inner := p.components.filter fun c => c ≠ .root ∧ c ≠ .here
    let twoSlashes := chars.take 2 = ['/', '/'] ∧ chars[2]? ≠ some '/'
    let start : Path := if twoSlashes then ⟨"//"⟩ else ⟨"/"⟩
    let whole := inner.foldl (fun q c => q.child (componentText c)) start
    some (if chars.getLast? = some '/' then whole.child "" else whole)

end Path

end SiteServer
