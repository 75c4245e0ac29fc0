import SiteServer.Template.Expansion

/-! # Compiled templates and their cache.

A file is compiled when it is first asked for, and what came out is kept under the normal form of its
path for as long as the cache lives, whatever becomes of the file. Failures are not kept. -/

namespace SiteServer

/-- A compiled template: the file it was made from, and its segments. -/
structure Template where
  path : Path
  segments : List Template.Segment
  deriving DecidableEq, Repr

namespace Template

def render (template : Template) (data : Json) : Except Failure String :=
  match renderSegments data template.segments with
  | .ok text => .ok (String.ofList text)
  | .error fault => .error ⟨.lookup fault, template.path, []⟩

/-! ## The cache -/

/-- Compiled templates by the path that they were made from; each path occurs once, however it is
written. -/
structure Cache where
  entries : List (Path × Template)
  deriving DecidableEq, Repr

namespace Cache

def empty : Cache := ⟨[]⟩

def find? (cache : Cache) (path : Path) : Option Template :=
  (cache.entries.find? fun e => e.1.same path).map (·.2)

def contains (cache : Cache) (path : Path) : Bool :=
  (cache.find? path).isSome

/-- Keeps a template for a path, over an earlier one. -/
def insert (cache : Cache) (path : Path) (template : Template) : Cache :=
  ⟨(path, template) :: cache.entries.filter fun e => !e.1.same path⟩

def size (cache : Cache) : Nat :=
  cache.entries.length

end Cache

/-! ## Compiling -/

/-- The normal form under which a path is compiled. -/
def key (path : Path) : Except Failure Path :=
  match path.absolute? with
  | some absolute => .ok absolute.normalize
  | none => .error ⟨.read .emptyPath, path, []⟩

/-- The template of a file, made afresh. -/
def build (library : Library) (tree : FileTree) (finish : Schedule) (path : Path) :
    Except Failure Template :=
  match expand library tree finish path [path] with
  | .error failure => .error failure
  | .ok text =>
    match segmentsOf text with
    | .error fault => .error ⟨.tag fault, path, []⟩
    | .ok segments => .ok ⟨path, segments⟩

/-- The template of a path, from the cache or made afresh, and the cache after it. -/
def compile (library : Library) (tree : FileTree) (finish : Schedule) (cache : Cache) (path : Path) :
    Except Failure Template × Cache :=
  match key path with
  | .error failure => (.error failure, cache)
  | .ok place =>
    match cache.find? place with
    | some template => (.ok template, cache)
    | none =>
      match build library tree finish place with
      | .ok template => (.ok template, cache.insert place template)
      | .error failure => (.error failure, cache)

/-- Where includes are looked for, given the template directory of a site. -/
def Library.ofRoot (root : Path) (extensions : List String) : Library :=
  ⟨(root.absolute?.getD root).normalize, extensions⟩

end Template

end SiteServer
