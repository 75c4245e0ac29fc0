import SiteServer.FileTree
import SiteServer.Failure
import SiteServer.Message.Exchange
import SiteServer.Route.Registry
import SiteServer.Template.Compiler

/-! # What requests to a site share, and leave to the next: files, compiled templates, controllers. -/

namespace SiteServer

open Message (Exchange)

/-- User code for a route: it sees the files, and changes the exchange. -/
abbrev Controller := FileTree → Exchange → Except Failure Unit × Exchange

/-- What one site keeps between requests. -/
structure Workshop where
  templates : Template.Cache
  controllers : Route.Registry Controller

/-- A workshop in which nothing has been compiled. -/
def Workshop.opening (controllers : Route.Registry Controller) : Workshop :=
  ⟨.empty, controllers⟩

/-- The files of a site and its workshop. -/
structure World where
  files : FileTree
  workshop : Workshop

namespace World

def withFiles (world : World) (files : FileTree) : World :=
  { world with files }

def withTemplates (world : World) (templates : Template.Cache) : World :=
  { world with workshop := { world.workshop with templates } }

/-- The world with a controller registered for a route. -/
def register (world : World) (route : String) (controller : Controller) : World :=
  { world with workshop :=
    { world.workshop with controllers := world.workshop.controllers.register route controller } }

end World

end SiteServer
