import SiteServer.FileTree
import SiteServer.Route.Name
import SiteServer.Route.Targets

/-! # Matching routes against the directories of a site.

A template is a file of the template directory with one of the extensions, the first that exists; a
static file is a file of the static directory that is not below the template directory. -/

namespace SiteServer.Route

/-- The directories of a site and the extensions of its templates. -/
structure FileMatcher where
  templateRoot : Path
  staticRoot : Path
  extensions : List String
  deriving DecidableEq, Repr

namespace FileMatcher

def template? (m : FileMatcher) (tree : FileTree) (name : String) : Option Path :=
  (m.extensions.map fun extension => m.templateRoot.child (name ++ "." ++ extension)).find?
    tree.isFile

def static? (m : FileMatcher) (tree : FileTree) (name : String) : Option Path :=
  let candidate := m.staticRoot.child name
  if !candidate.startsWith m.templateRoot && tree.isFile candidate then some candidate else none

/-- The targets of a path; `registered` tells which routes have a controller. -/
def targets (m : FileMatcher) (tree : FileTree) (registered : String → Bool) (path : String) :
    Targets :=
  match safe? path with
  | none => .none
  | some name =>
    { controller := if registered name then some name else none
      template := m.template? tree name
      static := m.static? tree name }

end FileMatcher

end SiteServer.Route
