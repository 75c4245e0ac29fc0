import SiteServer.Route.Name

/-! # What is registered for routes. -/

namespace SiteServer.Route

/-- Values by route name, in increasing order of the names, each name once. -/
structure Registry (α : Type) where
  entries : List (String × α)

namespace Registry

variable {α : Type}

def empty : Registry α := ⟨[]⟩

/-- Puts a value at its place in the order of names, over an earlier one with the same name. -/
def insert (name : String) (value : α) : List (String × α) → List (String × α)
  | [] => [(name, value)]
  | (n, v) :: rest =>
    if name < n then (name, value) :: (n, v) :: rest
    else if name = n then (name, value) :: rest
    else (n, v) :: insert name value rest

/-- Registers a value for a route, in place of an earlier one. -/
def register (registry : Registry α) (route : String) (value : α) : Registry α :=
  ⟨insert (normalize route) value registry.entries⟩

def get? (registry : Registry α) (route : String) : Option α :=
  registry.entries.lookup (normalize route)

def contains (registry : Registry α) (route : String) : Bool :=
  (registry.get? route).isSome

/-- The names of the routes, in increasing order. -/
def routes (registry : Registry α) : List String :=
  registry.entries.map (·.1)

def size (registry : Registry α) : Nat :=
  registry.entries.length

end Registry

end SiteServer.Route
