/-! # Names of routes: slashes at either end do not matter. -/

namespace SiteServer.Route

def dropSlashes (text : List Char) : List Char :=
  text.dropWhile (· = '/')

def trimSlashes (text : List Char) : List Char :=
  (dropSlashes (dropSlashes text).reverse).reverse

/-- The name of a route without the slashes at its ends. -/
def normalize (route : String) : String :=
  String.ofList (trimSlashes route.toList)

def segments (name : String) : List (List Char) :=
  name.toList.splitOnP (· == '/')

/-- A part that names something inside a directory: not empty, neither `.` nor `..`, and without a
backslash. -/
def isPlain (segment : List Char) : Bool :=
  segment ≠ [] && segment ≠ ['.'] && segment ≠ ['.', '.'] && !segment.contains '\\'

/-- The name of the route that a request path asks for, unless it is empty or has a part that could
lead elsewhere. -/
def safe? (path : String) : Option String :=
  let name := normalize path
  if name.toList ≠ [] ∧ (segments name).all isPlain then some name else none

end SiteServer.Route
