import SiteServer.Path

/-! # Options of a site, with the values that they have when nobody sets them. -/

namespace SiteServer

/-- Where the templates and the static files of a site are, and which routes stand in when nothing
matches and when a request fails. -/
structure RouterOptions where
  basePath : Path := ⟨"."⟩
  templateDir : Path := ⟨"public/templates"⟩
  staticDir : Path := ⟨"public"⟩
  extensions : List String := ["tmpl", "ejs", "html"]
  notFoundRoute : String := "/404"
  errorRoute : String := "/500"
  deriving DecidableEq, Repr, Inhabited

/-- Where large request bodies are stored, if they are, and the sizes, in bytes, above which a body is
stored and refused. -/
structure ParserOptions where
  storageDir : Option Path := none
  spillThreshold : UInt64 := 1048576
  maxBody : UInt64 := 10485760
  deriving DecidableEq, Repr, Inhabited

/-- Where the listener waits for requests; at port 0 it chooses a free one. -/
structure ListenOptions where
  host : String := "127.0.0.1"
  port : UInt16 := 0
  deriving DecidableEq, Repr, Inhabited

/-- The options of a site that can be written down. -/
structure SiteConfig where
  router : RouterOptions := {}
  parser : ParserOptions := {}
  listen : ListenOptions := {}
  deriving DecidableEq, Repr, Inhabited

/-! ## Options that a table leaves out

A table that is left out as a whole has the values above. In a table that is there each option has a value of
its own for when it is left out, which is written down for itself. -/

/-- Each router option as it is when its table leaves it out. -/
def RouterOptions.omitted : RouterOptions where
  basePath := ⟨"."⟩
  templateDir := ⟨"public/templates"⟩
  staticDir := ⟨"public"⟩
  extensions := ["tmpl", "ejs", "html"]
  notFoundRoute := "/404"
  errorRoute := "/500"

def ParserOptions.omitted : ParserOptions where
  storageDir := none
  spillThreshold := 1024 * 1024
  maxBody := 10 * 1024 * 1024

def ListenOptions.omitted : ListenOptions where
  host := "127.0.0.1"
  port := 0

theorem RouterOptions.omitted_eq : omitted = {} := rfl

theorem ParserOptions.omitted_eq : omitted = {} := rfl

theorem ListenOptions.omitted_eq : omitted = {} := rfl

/-! ## What options say together -/

namespace RouterOptions

def templateRoot (options : RouterOptions) : Path :=
  options.basePath.join options.templateDir

/-- The directory of static files, inside the base path. -/
def staticRoot (options : RouterOptions) : Path :=
  options.basePath.join options.staticDir

end RouterOptions

def ListenOptions.address (options : ListenOptions) : String :=
  s!"{options.host}:{options.port.toNat}"

end SiteServer
