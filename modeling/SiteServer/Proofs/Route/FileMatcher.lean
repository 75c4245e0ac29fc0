import SiteServer.Proofs.Route.Name
import SiteServer.Route.FileMatcher
import SiteServer.Route.Registry

/-! # The targets that routes have in the directories of a site.

What is matched is the directory with the names of the route in it, and nothing else: a request path can
lead neither out of a directory nor to a file that the route does not name. -/

namespace SiteServer.Route

/-! ## Registered routes -/

theorem isSome_lookup_iff {α : Type} {name : String} {entries : List (String × α)} :
    (entries.lookup name).isSome = true ↔ name ∈ entries.map Prod.fst := by
  rw [Option.isSome_iff_ne_none, ne_eq, List.lookup_eq_none_iff, List.mem_map]
  simp only [bne_iff_ne, ne_eq, not_forall, not_not, exists_prop]
  exact exists_congr fun _ => and_congr_right fun _ => eq_comm

theorem Registry.contains_iff {α : Type} {registry : Registry α} {route : String} :
    registry.contains route = true ↔ normalize route ∈ registry.routes :=
  isSome_lookup_iff

/-! ## Names with an extension -/

/-- The names with an extension appended to the last. -/
def withExtension (extension : String) : List String → List String
  | [] => []
  | [last] => [last ++ "." ++ extension]
  | name :: rest => name :: withExtension extension rest

theorem withExtension_append (extension last : String) (outer : List String) :
    withExtension extension (outer ++ [last]) = outer ++ [last ++ "." ++ extension] := by
  induction outer with
  | nil => rfl
  | cons name rest ih =>
      rw [List.cons_append, List.cons_append, ← ih, withExtension]
      simp

theorem isName_withExtension {extension : String} {names : List String}
    (hext : '/' ∉ extension.toList) (h : ∀ name ∈ names, Path.IsName name) :
    ∀ name ∈ withExtension extension names, Path.IsName name := by
  rcases List.eq_nil_or_concat names with rfl | ⟨outer, last, rfl⟩
  · exact nofun
  · rw [List.concat_eq_append] at h ⊢
    rw [withExtension_append]
    intro name hname
    rcases List.mem_append.mp hname with hname | hname
    · exact h name (List.mem_append_left _ hname)
    · rw [List.mem_singleton.mp hname]
      exact Path.isName_append_extension (h last (by simp)) hext

theorem joined_withExtension {names : List String} (h : names ≠ []) (extension : String) :
    joined names ++ "." ++ extension = joined (withExtension extension names) := by
  rcases List.eq_nil_or_concat names with rfl | ⟨outer, last, rfl⟩
  · exact absurd rfl h
  · rw [List.concat_eq_append, withExtension_append]
    exact congrArg Path.text (Path.appendExtension_ofNames outer last extension)

namespace FileMatcher

/-! ## Templates and static files -/

variable {m : FileMatcher} {tree : FileTree} {names : List String} {file : Path}

/-- The file that the template of a route with the given names has with an extension. -/
def templateFile (m : FileMatcher) (names : List String) (extension : String) : Path :=
  m.templateRoot.below (withExtension extension names)

theorem child_joined (root : Path) (names : List String) :
    root.child (joined names) = root.below names := rfl

theorem template?_eq (m : FileMatcher) (tree : FileTree) (h : names ≠ []) :
    m.template? tree (joined names) = (m.extensions.map (m.templateFile names)).find? tree.isFile := by
  have hfile (extension : String) :
      m.templateRoot.child (joined names ++ "." ++ extension) = m.templateFile names extension := by
    rw [joined_withExtension h, child_joined, templateFile]
  rw [template?]
  simp only [hfile]

/-- The template of a route is the file with the first extension for which there is one. -/
theorem template?_eq_some_iff (h : names ≠ []) :
    m.template? tree (joined names) = some file ↔ ∃ before extension after,
      m.extensions = before ++ extension :: after ∧ file = m.templateFile names extension ∧
        tree.isFile file = true ∧
        ∀ earlier ∈ before, tree.isFile (m.templateFile names earlier) = false := by
  rw [template?_eq m tree h, List.find?_map, Option.map_eq_some_iff]
  constructor
  · rintro ⟨extension, hfound, rfl⟩
    obtain ⟨hfile, before, after, hsplit, hearlier⟩ := List.find?_eq_some_iff_append.mp hfound
    rw [Function.comp_apply] at hfile
    refine ⟨before, extension, after, hsplit, rfl, hfile, fun earlier hmem => ?_⟩
    simpa using hearlier earlier hmem
  · rintro ⟨before, extension, after, hsplit, rfl, hfile, hearlier⟩
    rw [← Function.comp_apply (f := tree.isFile)] at hfile
    refine ⟨extension, List.find?_eq_some_iff_append.mpr ⟨hfile, before, after, hsplit, ?_⟩, rfl⟩
    intro earlier hmem
    simp [hearlier earlier hmem]

/-- The static file of a route is the file with its names, unless the template directory has it. -/
theorem static?_eq_some_iff :
    m.static? tree (joined names) = some file ↔ file = m.staticRoot.below names ∧
      tree.isFile file = true ∧ file.startsWith m.templateRoot = false := by
  rw [static?, child_joined]
  constructor
  · intro h
    split at h
    · rename_i hfound
      cases h
      rw [Bool.and_eq_true, Bool.not_eq_true'] at hfound
      exact ⟨rfl, hfound.2, hfound.1⟩
    · cases h
  · rintro ⟨rfl, hfile, houtside⟩
    rw [hfile, houtside]
    rfl

/-! ## All targets -/

/-- The targets of the route that is made of the given names, where controllers are registered for the
given routes. -/
structure Matched (m : FileMatcher) (tree : FileTree) (routes names : List String)
    (targets : Targets) : Prop where
  /-- There is a controller when one is registered for the route. -/
  controller : ∀ route, targets.controller = some route ↔ route = joined names ∧ route ∈ routes
  /-- There is a template when the template directory has a regular file with the names of the route and
  one of the extensions, and it is the one with the first of these extensions. -/
  template : ∀ file, targets.template = some file ↔ ∃ before extension after,
    m.extensions = before ++ extension :: after ∧ file = m.templateFile names extension ∧
      tree.isFile file = true ∧
      ∀ earlier ∈ before, tree.isFile (m.templateFile names earlier) = false
  /-- A static file is the regular file with the names of the route in the static directory. -/
  static : ∀ file, targets.static = some file →
    file = m.staticRoot.below names ∧ tree.isFile file = true
  /-- A template has the components of the template directory, and then the names. -/
  templateUnder : ∀ file, targets.template = some file → ∃ extension ∈ m.extensions,
    file.components = m.templateRoot.components ++ (withExtension extension names).map .name
  /-- A static file has the components of the static directory, and then the names. -/
  staticUnder : ∀ file, targets.static = some file →
    file.components = m.staticRoot.components ++ names.map .name

theorem targets_eq_none {path : String} (m : FileMatcher) (tree : FileTree)
    (registered : String → Bool) (h : ¬ ∃ names, AsksFor path names) :
    m.targets tree registered path = .none := by
  rw [targets, safe?_eq_none_iff.mpr h]

theorem matched_targets {α : Type} {path : String} (tree : FileTree) (registry : Registry α)
    (hext : ∀ extension ∈ m.extensions, '/' ∉ extension.toList) (h : AsksFor path names) :
    m.Matched tree registry.routes names (m.targets tree registry.contains path) := by
  have hregistered : registry.contains (joined names) = true ↔ joined names ∈ registry.routes := by
    rw [Registry.contains_iff, normalize_joined h.isName]
  rw [targets, h.safe?_eq]
  dsimp only
  refine ⟨?_, ?_, ?_, ?_, ?_⟩
  · intro route
    by_cases hmem : joined names ∈ registry.routes
    · rw [if_pos (hregistered.mpr hmem), Option.some.injEq]
      exact ⟨fun heq => ⟨heq.symm, heq ▸ hmem⟩, fun hroute => hroute.1.symm⟩
    · rw [if_neg fun hcontains => hmem (hregistered.mp hcontains)]
      refine ⟨nofun, ?_⟩
      rintro ⟨rfl, hroute⟩
      exact absurd hroute hmem
  · exact fun file => template?_eq_some_iff h.nonempty
  · intro file hfile
    obtain ⟨hbelow, hregular, _⟩ := static?_eq_some_iff.mp hfile
    exact ⟨hbelow, hregular⟩
  · intro file hfile
    obtain ⟨before, extension, after, hsplit, rfl, _, _⟩ :=
      (template?_eq_some_iff h.nonempty).mp hfile
    have hmem : extension ∈ m.extensions := by simp [hsplit]
    exact ⟨extension, hmem,
      Path.components_below _ (isName_withExtension (hext extension hmem) h.isName)⟩
  · intro file hfile
    obtain ⟨rfl, _, _⟩ := static?_eq_some_iff.mp hfile
    exact Path.components_below _ h.isName

end FileMatcher

end SiteServer.Route
