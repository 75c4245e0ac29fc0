import SiteServer.Pipeline.Run
import SiteServer.Site.World

/-! # Two sites over the same files, each with a workshop of its own. -/

namespace SiteServer

open Pipeline (Handler Stage)

/-- The files that two sites share, and the workshops of the sites. -/
structure Neighbours where
  files : FileTree
  front : Workshop
  back : Workshop

namespace Neighbours

def frontWorld (n : Neighbours) : World := ⟨n.files, n.front⟩

def backWorld (n : Neighbours) : World := ⟨n.files, n.back⟩

def withFront (world : World) (n : Neighbours) : Neighbours :=
  { n with files := world.files, front := world.workshop }

def withBack (world : World) (n : Neighbours) : Neighbours :=
  { n with files := world.files, back := world.workshop }

def frontStage (stage : Stage World) : Stage Neighbours :=
  stage.focus frontWorld withFront

def backStage (stage : Stage World) : Stage Neighbours :=
  stage.focus backWorld withBack

def frontHandler (handler : Handler World) : Handler Neighbours :=
  handler.focus frontWorld withFront

end Neighbours

end SiteServer
