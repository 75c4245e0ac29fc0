import Mathlib.Data.List.Induction
import SiteServer.Proofs.Route.FileMatcher
import SiteServer.Proofs.Text.Order

/-! # A registry as a map from names to values.

Of all registrations for spellings of one name the last counts. A registry can be told from the registrations
that filled it only by that, so registrations for different names can change places. -/

namespace SiteServer.Route

variable {α : Type}

/-! ## Names without slashes at their ends -/

/-- A name is what is left of a route without the slashes at its ends. -/
structure NamedBy (route name : String) : Prop where
  written : ∃ before after, route.toList =
    List.replicate before '/' ++ name.toList ++ List.replicate after '/'
  first : name.toList.head? ≠ some '/'
  last : name.toList.getLast? ≠ some '/'

def SameName (route other : String) : Prop :=
  ∃ name, NamedBy route name ∧ NamedBy other name

theorem head?_dropSlashes (text : List Char) : (dropSlashes text).head? ≠ some '/' := by
  intro h
  have hslash := List.head?_dropWhile_not (fun c : Char => decide (c = '/')) text
  rw [← dropSlashes, h] at hslash
  simp at hslash

theorem getLast?_trimSlashes (text : List Char) : (trimSlashes text).getLast? ≠ some '/' := by
  rw [trimSlashes, List.getLast?_reverse]
  exact head?_dropSlashes _

theorem head?_trimSlashes (text : List Char) : (trimSlashes text).head? ≠ some '/' := by
  intro h
  obtain ⟨rest, hrest⟩ := List.head?_eq_some_iff.mp h
  obtain ⟨after, hafter⟩ := exists_replicate_append_dropSlashes (dropSlashes text).reverse
  have hinner : dropSlashes text = trimSlashes text ++ List.replicate after '/' := by
    rw [trimSlashes, ← List.reverse_replicate, ← List.reverse_append, ← hafter, List.reverse_reverse]
  refine head?_dropSlashes text ?_
  rw [hinner, hrest]
  rfl

theorem namedBy_iff {route name : String} : NamedBy route name ↔ normalize route = name := by
  constructor
  · rintro ⟨⟨before, after, hwritten⟩, hfirst, hlast⟩
    rw [normalize, hwritten, trimSlashes_replicate hfirst hlast, String.ofList_toList]
  · rintro rfl
    refine ⟨?_, ?_, ?_⟩ <;> rw [normalize, String.toList_ofList]
    · exact exists_eq_trimSlashes route.toList
    · exact head?_trimSlashes route.toList
    · exact getLast?_trimSlashes route.toList

theorem sameName_iff {route other : String} : SameName route other ↔ normalize route = normalize other := by
  simp only [SameName, namedBy_iff, exists_eq_left']
  exact eq_comm

instance : DecidableRel SameName :=
  fun _ _ => decidable_of_iff _ sameName_iff.symm

/-- There are no slashes left to be taken off a name. -/
theorem normalize_normalize (route : String) : normalize (normalize route) = normalize route := by
  obtain ⟨_, hfirst, hlast⟩ := namedBy_iff.mpr (rfl : normalize route = normalize route)
  exact namedBy_iff.mp ⟨⟨0, 0, by simp⟩, hfirst, hlast⟩

namespace Registry

/-! ## Putting one value at its place -/

theorem lookup_insert (name : String) (value : α) (entries : List (String × α)) (other : String) :
    (insert name value entries).lookup other =
      if other = name then some value else entries.lookup other := by
  have hcons (key : String) (v : α) (rest : List (String × α)) :
      ((key, v) :: rest).lookup other = if other = key then some v else rest.lookup other := by
    rw [List.lookup_cons]
    by_cases h : other = key
    · rw [if_pos h, beq_iff_eq.mpr h]
    · rw [if_neg h, beq_eq_false_iff_ne.mpr h]
  induction entries with
  | nil => rw [insert, hcons]
  | cons entry entries ih =>
      obtain ⟨key, v⟩ := entry
      rw [insert]
      by_cases hlt : name < key
      · rw [if_pos hlt, hcons]
      · rw [if_neg hlt]
        by_cases heq : name = key
        · rw [if_pos heq, hcons, hcons, ← heq]
          split <;> rfl
        · rw [if_neg heq, hcons, hcons, ih]
          by_cases hother : other = key
          · have hname : other ≠ name := fun h => heq (h.symm.trans hother)
            rw [if_pos hother, if_pos hother, if_neg hname]
          · rw [if_neg hother, if_neg hother]

theorem mem_map_insert {name : String} {value : α} {entries : List (String × α)} {other : String} :
    other ∈ (insert name value entries).map Prod.fst ↔ other = name ∨ other ∈ entries.map Prod.fst := by
  rw [← isSome_lookup_iff, ← isSome_lookup_iff, lookup_insert]
  by_cases h : other = name <;> simp [h]

/-- The names stay in increasing order. -/
theorem pairwise_insert (name : String) (value : α) {entries : List (String × α)}
    (h : (entries.map Prod.fst).Pairwise (· < ·)) :
    ((insert name value entries).map Prod.fst).Pairwise (· < ·) := by
  induction entries with
  | nil => simp [insert]
  | cons entry entries ih =>
      obtain ⟨key, v⟩ := entry
      obtain ⟨hkey, hrest⟩ := List.pairwise_cons.mp h
      rw [insert]
      by_cases hlt : name < key
      · rw [if_pos hlt]
        refine List.pairwise_cons.mpr ⟨fun other hother => ?_, h⟩
        rcases List.mem_cons.mp hother with rfl | hmem
        · exact hlt
        · exact String.lt_trans hlt (hkey other hmem)
      · rw [if_neg hlt]
        by_cases heq : name = key
        · rw [if_pos heq, heq]
          exact h
        · rw [if_neg heq]
          refine List.pairwise_cons.mpr ⟨fun other hother => ?_, ih hrest⟩
          rcases mem_map_insert.mp hother with rfl | hmem
          · grind
          · exact hkey other hmem

/-- Values for different names are put at their places in either order. -/
theorem insert_comm {name other : String} (hne : name ≠ other) (value v : α) (entries : List (String × α)) :
    insert name value (insert other v entries) = insert other v (insert name value entries) := by
  induction entries with
  | nil => grind [insert]
  | cons entry entries ih =>
      obtain ⟨key, w⟩ := entry
      grind [insert]

/-! ## Histories of registrations -/

/-- The registry after registrations, in their order. -/
def registerAll (registry : Registry α) (registrations : List (String × α)) : Registry α :=
  registrations.foldl (fun registry registration => registry.register registration.1 registration.2) registry

/-- The last registration for a name is of this value. -/
def LastFor (registrations : List (String × α)) (route : String) (value : α) : Prop :=
  ∃ before spelling after, registrations = before ++ (spelling, value) :: after ∧
    SameName spelling route ∧ ∀ registration ∈ after, ¬ SameName registration.1 route

section History

variable {registrations : List (String × α)} {spelling route name : String} {value w : α}

theorem registerAll_concat (registry : Registry α) (registrations : List (String × α)) (spelling : String)
    (value : α) : registry.registerAll (registrations ++ [(spelling, value)]) =
      (registry.registerAll registrations).register spelling value := by
  rw [registerAll, List.foldl_concat]
  rfl

theorem get?_register (registry : Registry α) (spelling : String) (value : α) (route : String) :
    (registry.register spelling value).get? route =
      if SameName spelling route then some value else registry.get? route := by
  simp only [sameName_iff, eq_comm (a := normalize spelling)]
  exact lookup_insert (normalize spelling) value registry.entries (normalize route)

theorem mem_routes_register {registry : Registry α} :
    name ∈ (registry.register spelling value).routes ↔ NamedBy spelling name ∨ name ∈ registry.routes := by
  rw [namedBy_iff, eq_comm (b := name)]
  exact mem_map_insert

theorem register_comm (registry : Registry α) (h : ¬ SameName spelling route) (value w : α) :
    (registry.register spelling value).register route w =
      (registry.register route w).register spelling value :=
  congrArg mk (insert_comm (fun heq => h (sameName_iff.mpr heq.symm)) w value registry.entries)

/-- One more registration is the last for its own name, and for other names it makes no difference. -/
theorem lastFor_concat : LastFor (registrations ++ [(spelling, value)]) route w ↔
    SameName spelling route ∧ value = w ∨ ¬ SameName spelling route ∧ LastFor registrations route w := by
  constructor
  · rintro ⟨before, last, after, heq, hsame, hafter⟩
    rcases List.eq_nil_or_concat after with rfl | ⟨after, registration, rfl⟩
    · obtain ⟨_, hlast⟩ := List.append_inj' heq rfl
      cases hlast
      exact .inl ⟨hsame, rfl⟩
    · rw [List.concat_eq_append] at heq hafter
      rw [← List.cons_append, ← List.append_assoc] at heq
      obtain ⟨rfl, hregistration⟩ := List.append_inj' heq rfl
      cases hregistration
      refine .inr ⟨hafter (spelling, value) (by simp), before, last, after, rfl, hsame, fun r hr => ?_⟩
      exact hafter r (List.mem_append_left _ hr)
  · rintro (⟨hsame, rfl⟩ | ⟨hother, before, last, after, rfl, hlast, hafter⟩)
    · exact ⟨registrations, spelling, [], rfl, hsame, nofun⟩
    · refine ⟨before, last, after ++ [(spelling, value)], by simp, hlast, fun registration hmem => ?_⟩
      rcases List.mem_append.mp hmem with hmem | hmem
      · exact hafter registration hmem
      · rw [List.mem_singleton.mp hmem]
        exact hother

theorem get?_registerAll (registrations : List (String × α)) (route : String) (value : α) :
    (empty.registerAll registrations).get? route = some value ↔ LastFor registrations route value := by
  induction registrations using List.reverseRecOn with
  | nil =>
      constructor
      · exact nofun
      · rintro ⟨before, _, _, heq, _⟩
        cases before <;> cases heq
  | append_singleton registrations registration ih =>
      rw [registerAll_concat, get?_register, lastFor_concat]
      by_cases h : SameName registration.1 route
      · simp [h]
      · simp [h, ih]

theorem mem_routes_registerAll (registrations : List (String × α)) (name : String) :
    name ∈ (empty.registerAll registrations).routes ↔
      ∃ registration ∈ registrations, NamedBy registration.1 name := by
  induction registrations using List.reverseRecOn with
  | nil => simp [registerAll, empty, routes]
  | append_singleton registrations registration ih =>
      rw [registerAll_concat, mem_routes_register, ih]
      simp only [List.mem_append, List.mem_singleton, or_and_right, exists_or, exists_eq_left]
      exact or_comm

theorem pairwise_routes_registerAll (registrations : List (String × α)) :
    (empty.registerAll registrations).routes.Pairwise (· < ·) := by
  induction registrations using List.reverseRecOn with
  | nil => exact .nil
  | append_singleton registrations registration ih =>
      rw [registerAll_concat]
      exact pairwise_insert _ _ ih

theorem contains_registerAll (registrations : List (String × α)) (route : String) :
    (empty.registerAll registrations).contains route = true ↔
      ∃ registration ∈ registrations, SameName registration.1 route := by
  rw [contains_iff, mem_routes_registerAll]
  simp only [namedBy_iff, sameName_iff]

/-- A registry that was filled by registrations is the map from each name to the last value that was
registered for it. -/
structure LastWins (registrations : List (String × α)) (registry : Registry α) : Prop where
  found : ∀ route value, registry.get? route = some value ↔ LastFor registrations route value
  missing : ∀ route, registry.get? route = none ↔
    ∀ registration ∈ registrations, ¬ SameName registration.1 route
  contains : ∀ route, registry.contains route = true ↔ ∃ value, registry.get? route = some value
  /-- The names of all registrations are listed, and no others, -/
  listed : ∀ name, name ∈ registry.routes ↔ ∃ registration ∈ registrations, NamedBy registration.1 name
  /-- each once, in increasing order of their bytes. -/
  increasing : registry.routes.Pairwise fun name other => bytesOf name < bytesOf other
  once : registry.routes.Nodup
  size : registry.size = registry.routes.length
  fixed : ∀ name ∈ registry.routes, normalize name = name
  /-- Registrations next to each other can change places, unless they are for one name. -/
  commute : ∀ before spelling value route w after,
    registrations = before ++ (spelling, value) :: (route, w) :: after → ¬ SameName spelling route →
      registry = empty.registerAll (before ++ (route, w) :: (spelling, value) :: after)

theorem registrations_last_wins (registrations : List (String × α)) :
    LastWins registrations (empty.registerAll registrations) where
  found := get?_registerAll registrations
  missing route := by
    rw [← Option.not_isSome_iff_eq_none, ← contains, contains_registerAll]
    simp only [not_exists, not_and]
  contains route := Option.isSome_iff_exists
  listed := mem_routes_registerAll registrations
  increasing := (pairwise_routes_registerAll registrations).imp bytesOf_lt
  once := by
    refine List.Pairwise.imp (fun h heq => ?_) (pairwise_routes_registerAll registrations)
    subst heq
    exact String.lt_irrefl _ h
  size := (List.length_map _).symm
  fixed name h := by
    obtain ⟨registration, _, hnamed⟩ := (mem_routes_registerAll registrations name).mp h
    rw [← namedBy_iff.mp hnamed]
    exact normalize_normalize registration.1
  commute before spelling value route w after heq hother := by
    rw [heq, registerAll, registerAll, List.foldl_append, List.foldl_append]
    exact congrArg (List.foldl _ · after) (register_comm _ hother value w)

example : ((empty : Registry Nat).registerAll [("/b", 1), ("a//", 2), ("b/", 3)]).entries =
    [("a", 2), ("b", 3)] := by decide +kernel

end History

end Registry

end SiteServer.Route
