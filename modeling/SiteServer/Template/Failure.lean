import SiteServer.FileTree
import SiteServer.Template.Arguments
import SiteServer.Template.Render

/-! # Failures of templates: what went wrong, in which file, and how the work got there. -/

namespace SiteServer.Template

/-- The kinds of failures that callers tell apart. -/
inductive FailureKind where
  | readFailed
  | includeNotFound
  | circularInclude
  | compileFailed
  | renderFailed
  deriving DecidableEq, Repr

def FailureKind.label : FailureKind → String
  | .readFailed => "template_read_failed"
  | .includeNotFound => "template_include_not_found"
  | .circularInclude => "template_circular_include"
  | .compileFailed => "template_compile_failed"
  | .renderFailed => "template_render_failed"

def FailureKind.message : FailureKind → String
  | .readFailed => "read failed"
  | .includeNotFound => "include not found"
  | .circularInclude => "circular include"
  | .compileFailed => "compile failed"
  | .renderFailed => "render failed"

/-- What went wrong. -/
inductive Cause where
  | read (fault : IoFault)
  | missing (reference : String)
  | circular
  | arguments (literal : String) (fault : ArgumentsFault)
  | tag (fault : TagFault)
  | lookup (fault : LookupFault)
  | stated (kind : FailureKind) (message : String)
  deriving DecidableEq, Repr

def Cause.kind : Cause → FailureKind
  | .read _ => .readFailed
  | .missing _ => .includeNotFound
  | .circular => .circularInclude
  | .arguments _ _ => .compileFailed
  | .tag _ => .compileFailed
  | .lookup _ => .renderFailed
  | .stated kind _ => kind

/-- A failure: its cause, the file it is attributed to, and the files that were being expanded,
outermost first. -/
structure Failure where
  cause : Cause
  path : Path
  chain : List Path
  deriving DecidableEq, Repr

namespace Failure

def kind (failure : Failure) : FailureKind :=
  failure.cause.kind

/-- The text of a path that may be missing. -/
def pathText (path : Option Path) : String :=
  path.elim "" (·.text)

/-- What went wrong, in words. A circular include names the first file being expanded and the one that
includes the file again. -/
def detail (failure : Failure) : String :=
  match failure.cause with
  | .read fault => fault.message
  | .missing reference => s!"included file '{reference}' was not found"
  | .circular =>
    let first := pathText failure.chain.head?
    let last := pathText failure.chain.getLast?
    s!"{first} causes a circular include: {last} includes {failure.path.text} again"
  | .arguments literal fault => s!"invalid include arguments {literal}: {fault.message}"
  | .tag fault => fault.message
  | .lookup fault => fault.message
  | .stated _ message => message

def message (failure : Failure) : String :=
  s!"Template {failure.kind.message} ({failure.path.text}): {failure.detail}"

def chainText (failure : Failure) : String :=
  String.intercalate " -> " (failure.chain.map (·.text))

end Failure

end SiteServer.Template
