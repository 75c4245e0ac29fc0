import SiteServer.FileTree
import SiteServer.Text.Fold

/-! # Static files, labelled with a media type by the ending of their names. -/

namespace SiteServer

structure StaticFile where
  mediaType : String
  content : Bytes
  deriving DecidableEq, Repr

/-- How static files are fetched. -/
abbrev Transport := FileTree → Path → Except IoFault StaticFile

namespace StaticFile

def mediaTypes : List (String × String) :=
  [("txt", "text/plain"), ("json", "application/json"), ("html", "text/html"), ("css", "text/css"),
   ("js", "text/javascript"), ("mjs", "application/javascript"), ("png", "image/png"),
   ("svg", "image/svg+xml"), ("pdf", "application/pdf"), ("xml", "text/xml"),
   ("ico", "image/x-icon"), ("md", "text/markdown"), ("wasm", "application/wasm"),
   ("woff2", "font/woff2"), ("gif", "image/gif"), ("jpg", "image/jpeg"), ("csv", "text/csv"),
   ("zip", "application/zip"), ("mp4", "video/mp4"), ("gz", "application/gzip")]

/-- The media type of a file about which its name says nothing. -/
def unknownType : String := "application/octet-stream"

/-- The media type of a file, by its extension in any case. -/
def mediaType? (path : Path) : Option String :=
  path.extension?.bind fun extension => mediaTypes.lookup (Text.fold extension)

def fetch : Transport := fun tree path =>
  (tree.read path).map fun content => ⟨(mediaType? path).getD unknownType, content⟩

end StaticFile

end SiteServer
