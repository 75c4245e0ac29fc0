import SiteServer.Path

/-! # The targets of a route: a controller, a template and a static file, each of which may be
missing. -/

namespace SiteServer.Route

structure Targets where
  controller : Option String
  template : Option Path
  static : Option Path
  deriving DecidableEq, Repr

namespace Targets

def none : Targets := ⟨.none, .none, .none⟩

def isEmpty (targets : Targets) : Bool :=
  targets.controller.isNone && targets.template.isNone && targets.static.isNone

/-- The targets of `top`, and those of `under` where `top` has none. -/
def layeredOver (top under : Targets) : Targets :=
  ⟨top.controller.or under.controller, top.template.or under.template, top.static.or under.static⟩

end Targets

/-- Why a matcher could not answer for a path. -/
structure Fault where
  path : String
  reason : String
  deriving DecidableEq, Repr

def Fault.message (fault : Fault) : String :=
  s!"Could not resolve route '{fault.path}': {fault.reason}"

/-- A matcher answers for a path with the targets that exist for it. -/
abbrev Matcher := String → Except Fault Targets

end SiteServer.Route
