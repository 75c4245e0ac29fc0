import SiteServer.Config.Coding
import SiteServer.Route.Targets

/-! # Targets as data: a target that is missing is left out. -/

namespace SiteServer.Route.Targets

open RawJson

def keys : List String := ["controller_path", "template_path", "static_path"]

/-- A member that is left out when it is missing. -/
def presentMember (key : String) (text : Option String) : List (String × Json) :=
  text.toList.map fun text => (key, .string text)

def toJson (targets : Targets) : Json :=
  .object (presentMember "controller_path" targets.controller ++
    presentMember "template_path" (targets.template.map (·.text)) ++
    presentMember "static_path" (targets.static.map (·.text)))

/-- Reads targets; what is left out or `null` is missing. -/
def ofRaw? (value : RawJson) : Option Targets := do
  let found ← members? true keys value
  return {
    controller := ← memberOr .none (nullable? text?) (found "controller_path")
    template := ← memberOr .none (nullable? Path.ofRaw?) (found "template_path")
    static := ← memberOr .none (nullable? Path.ofRaw?) (found "static_path") }

end SiteServer.Route.Targets
