import SiteServer.Config.Options
import SiteServer.Json.Record

/-! # Options as data: written in full, read with the usual values for what is left out. -/

namespace SiteServer

open RawJson

/-! ## Members -/

def Path.ofRaw? (value : RawJson) : Option Path :=
  value.text?.map Path.mk

def sizeOfRaw? (value : RawJson) : Option UInt64 :=
  (natUpTo? (UInt64.size - 1) value).map UInt64.ofNat

def portOfRaw? (value : RawJson) : Option UInt16 :=
  (natUpTo? (UInt16.size - 1) value).map UInt16.ofNat

/-- How the data to be read was written: whether an option can be `null`, which then counts as not
given, and whether an array may hold no more items than there are options. -/
structure Format where
  hasNull : Bool
  closed : Bool
  deriving DecidableEq, Repr

namespace Format

def json : Format := ⟨true, true⟩

def toml : Format := ⟨false, false⟩

def optional? {α : Type} (format : Format) (decode : RawJson → Option α) (value : RawJson) :
    Option (Option α) :=
  if format.hasNull then nullable? decode value else given? decode value

end Format

/-! ## Router options -/

namespace RouterOptions

def keys : List String :=
  ["base_path", "template_dir", "static_dir", "template_exts", "not_found_route", "error_route"]

def toJson (options : RouterOptions) : Json :=
  .object [("base_path", .string options.basePath.text),
    ("template_dir", .string options.templateDir.text),
    ("static_dir", .string options.staticDir.text),
    ("template_exts", .array (options.extensions.map .string)),
    ("not_found_route", .string options.notFoundRoute),
    ("error_route", .string options.errorRoute)]

/-- Reads options over others that hold for what is left out. -/
def ofRaw? (format : Format) (usual : RouterOptions) (value : RawJson) : Option RouterOptions := do
  let found ← members? format.closed keys value
  return {
    basePath := ← memberOr usual.basePath Path.ofRaw? (found "base_path")
    templateDir := ← memberOr usual.templateDir Path.ofRaw? (found "template_dir")
    staticDir := ← memberOr usual.staticDir Path.ofRaw? (found "static_dir")
    extensions := ← memberOr usual.extensions texts? (found "template_exts")
    notFoundRoute := ← memberOr usual.notFoundRoute text? (found "not_found_route")
    errorRoute := ← memberOr usual.errorRoute text? (found "error_route") }

end RouterOptions

/-! ## Parser options -/

namespace ParserOptions

def keys : List String := ["storage_dir", "spill_threshold_bytes", "max_body_bytes"]

def toJson (options : ParserOptions) : Json :=
  .object [("storage_dir", options.storageDir.elim .null fun dir => .string dir.text),
    ("spill_threshold_bytes", .ofNat options.spillThreshold.toNat),
    ("max_body_bytes", .ofNat options.maxBody.toNat)]

/-- Reads options over others that hold for what is left out. -/
def ofRaw? (format : Format) (usual : ParserOptions) (value : RawJson) : Option ParserOptions := do
  let found ← members? format.closed keys value
  return {
    storageDir := ← memberOr usual.storageDir (format.optional? Path.ofRaw?) (found "storage_dir")
    spillThreshold := ← memberOr usual.spillThreshold sizeOfRaw? (found "spill_threshold_bytes")
    maxBody := ← memberOr usual.maxBody sizeOfRaw? (found "max_body_bytes") }

end ParserOptions

/-! ## Listen options -/

namespace ListenOptions

def keys : List String := ["host", "port"]

def toJson (options : ListenOptions) : Json :=
  .object [("host", .string options.host), ("port", .ofNat options.port.toNat)]

/-- Reads options over others that hold for what is left out. -/
def ofRaw? (format : Format) (usual : ListenOptions) (value : RawJson) : Option ListenOptions := do
  let found ← members? format.closed keys value
  return {
    host := ← memberOr usual.host text? (found "host")
    port := ← memberOr usual.port portOfRaw? (found "port") }

end ListenOptions

/-! ## Whole configurations -/

namespace SiteConfig

def keys : List String := ["router", "request_parser", "listen"]

def toJson (config : SiteConfig) : Json :=
  .object [("router", config.router.toJson), ("request_parser", config.parser.toJson),
    ("listen", config.listen.toJson)]

/-- Reads a configuration. A table that is left out has its usual value, and so has an option that a table
leaves out. -/
def ofRaw? (format : Format) (value : RawJson) : Option SiteConfig := do
  let found ← members? format.closed keys value
  return {
    router := ← memberOr {} (RouterOptions.ofRaw? format .omitted) (found "router")
    parser := ← memberOr {} (ParserOptions.ofRaw? format .omitted) (found "request_parser")
    listen := ← memberOr {} (ListenOptions.ofRaw? format .omitted) (found "listen") }

def ofJson? (format : Format) (value : Json) : Option SiteConfig :=
  ofRaw? format (.ofJson value)

end SiteConfig

end SiteServer
