import SiteServer.Config.Options
import SiteServer.Text.Quoted

/-! # Options in messages meant for developers: the name of the record, then every member. -/

namespace SiteServer

open Text.Quoted

/-- A record with its members; an `open` one has more than are shown. -/
def describe (name : String) (members : List (String × String)) (more : Bool) : String :=
  let shown := members.map fun (key, text) => s!"{key}: {text}"
  let inner := String.intercalate ", " (if more then shown ++ [".."] else shown)
  s!"{name} \x7b {inner} \x7d"

def describeOption {α : Type} (text : α → String) : Option α → String
  | none => "None"
  | some value => s!"Some({text value})"

def RouterOptions.description (options : RouterOptions) : String :=
  describe "RouterOptions" [("base_path", quote options.basePath.text),
    ("template_dir", quote options.templateDir.text),
    ("static_dir", quote options.staticDir.text),
    ("template_exts", quoteAll options.extensions),
    ("not_found_route", quote options.notFoundRoute),
    ("error_route", quote options.errorRoute)] false

def ParserOptions.description (options : ParserOptions) : String :=
  describe "RequestParserOptions"
    [("storage_dir", describeOption (fun dir => quote dir.text) options.storageDir),
    ("spill_threshold_bytes", toString options.spillThreshold.toNat),
    ("max_body_bytes", toString options.maxBody.toNat)] false

def ListenOptions.description (options : ListenOptions) : String :=
  describe "ListenOptions" [("host", quote options.host), ("port", toString options.port.toNat)] false

/-- The configuration that an application starts from; `stages` counts the stages of a list of its own,
and `controllers` its controllers. -/
def SiteConfig.description (config : SiteConfig) (stages : Option Nat) (controllers : Nat) : String :=
  describe "AppOptions" [("router", config.router.description),
    ("request_parser", config.parser.description), ("listen", config.listen.description),
    ("stages", describeOption toString stages), ("controllers", toString controllers)] true

end SiteServer
