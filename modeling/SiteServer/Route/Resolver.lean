import SiteServer.Join
import SiteServer.Route.Targets
import SiteServer.Text.Boundary

/-! # Routing policy over any matcher.

The path `/` stands for the index. A path that ends in `json` asks for data: it is matched as it stands
for a static file, and without its ending for a controller and a template, and nothing is rendered. -/

namespace SiteServer.Route

/-- The route that `/` stands for. -/
def indexRoute : String := "/default"

/-- What routing decided: the targets, and whether a template may be rendered. -/
structure Decision where
  targets : Targets
  render : Bool
  deriving DecidableEq, Repr

/-- The path that a request asks for: the part before a `?`, or the index. -/
def asked (requestPath : String) : String :=
  match String.ofList (requestPath.toList.takeWhile (· ≠ '?')) with
  | "" => indexRoute
  | "/" => indexRoute
  | "/.json" => indexRoute ++ ".json"
  | path => path

/-- A path asks for data when it ends in `json`. -/
def wantsData (path : String) : Bool :=
  "json".toList.isSuffixOf path.toList

/-- How many bytes the ending `.json` takes. -/
def suffixSize : Nat := 5

/-- The part of a path before its last five bytes; where these start inside a character, the part before that
character. `none` where there would be no such part. -/
def beforeSuffix? (path : String) : Option String :=
  let bytes := bytesOf path
  (Text.Utf8.boundaryBefore? bytes (bytes.length - suffixSize)).bind (Text.Utf8.textBefore? bytes)

/-- The path without its last five bytes; a character that would be cut is left out as a whole. What
leaves nothing but a slash is the index. -/
def withoutSuffix (path : String) : String :=
  match beforeSuffix? path with
  | none => indexRoute
  | some "" => indexRoute
  | some "/" => indexRoute
  | some front => front

/-- The paths that the matcher is asked for, in order. -/
def asks (requestPath : String) : List String :=
  let path := asked requestPath
  if wantsData path then [path, withoutSuffix path] else [path]

/-- Puts the answers for the paths that were asked together: of the answer for the path as it stands
only the static file counts where a second answer was asked for. -/
def decide : List Targets → Decision
  | [] => ⟨.none, true⟩
  | [targets] => ⟨targets, true⟩
  | given :: stripped :: _ =>
    ⟨Targets.layeredOver ⟨none, none, given.static⟩ stripped, false⟩

/-- Routes a request path; `order` is the order in which the matcher's answers arrive. -/
def resolve (m : Matcher) (order : List Nat) (requestPath : String) : Except Fault Decision :=
  (Join.settle order ((asks requestPath).map m)).map decide

end SiteServer.Route
