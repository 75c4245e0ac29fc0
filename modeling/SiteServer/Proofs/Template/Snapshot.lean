import SiteServer.Proofs.Path.Canonical
import SiteServer.Template.Compiler
import Mathlib.Data.List.Induction
import Mathlib.Data.List.Nodup

/-! # What a cache of templates remembers.

Templates are asked for again and again, and between two queries the files may change in any way. What the
cache has for a path is a snapshot: the template that the first successful query for the path found in the
files of that moment. Included files, and failures, leave no trace in it. -/

namespace SiteServer.Template

/-! ## Keys -/

theorem normalize_of_key {path place : Path} (h : key path = .ok place) : place.normalize = place := by
  unfold key at h
  split at h
  · cases h
    exact Path.normalize_normalize _
  · cases h

theorem isAbsolute_of_key {path place : Path} (h : key path = .ok place) : place.isAbsolute := by
  unfold key at h
  split at h
  · rename_i absolute habsolute
    cases h
    rw [Path.isAbsolute_normalize]
    exact Path.isAbsolute_absolute? habsolute
  · cases h

theorem names_of_key {path place : Path} (h : key path = .ok place) : place.names = path.names := by
  unfold key at h
  split at h
  · rename_i habsolute
    cases h
    rw [Path.names_normalize, Path.names_absolute? habsolute]
  · cases h

/-- Different keys are different paths, however paths are written. -/
theorem eq_of_same_of_key {p q place other : Path} (hplace : key p = .ok place)
    (hother : key q = .ok other) (h : place.same other = true) : place = other := by
  rw [Path.same, decide_eq_true_eq] at h
  refine Path.eq_of_names_eq (normalize_of_key hplace) (normalize_of_key hother) ?_ ?_
  · rw [isAbsolute_of_key hplace, isAbsolute_of_key hother]
  · rw [Path.names, Path.names, h]

/-! ## Lookup in a cache -/

namespace Cache

theorem find?_insert (cache : Cache) (place path : Path) (template : Template) :
    (cache.insert place template).find? path =
      if place.same path then some template else cache.find? path := by
  unfold find? insert
  dsimp only
  rw [List.find?_cons]
  cases hsame : place.same path with
  | true => rfl
  | false =>
      rw [List.find?_filter]
      have hkept (e : Path × Template) :
          (decide ((!e.1.same place) = true ∧ e.1.same path = true)) = e.1.same path := by
        simp only [Path.same, Bool.not_eq_true', decide_eq_false_iff_not, decide_eq_true_eq] at hsame ⊢
        rw [decide_eq_decide, and_iff_right_iff_imp]
        exact fun he heq => hsame (heq.symm.trans he)
      simp only [hkept]
      rfl

def keys (cache : Cache) : List Path :=
  cache.entries.map (·.1)

/-- Each path has one entry, and the paths are keys. -/
structure Settled (cache : Cache) : Prop where
  nodup : cache.keys.Nodup
  keyed : ∀ place ∈ cache.keys, ∃ path, key path = .ok place

theorem settled_empty : Cache.empty.Settled where
  nodup := List.nodup_nil
  keyed _ hplace := absurd hplace List.not_mem_nil

theorem Settled.insert {cache : Cache} (h : cache.Settled) {path place : Path}
    (hkey : key path = .ok place) (template : Template) : (cache.insert place template).Settled where
  nodup := by
    refine List.nodup_cons.mpr ⟨fun hmem => ?_, h.nodup.sublist (List.filter_sublist.map _)⟩
    obtain ⟨e, he, heq⟩ := List.mem_map.mp hmem
    have hother := (List.mem_filter.mp he).2
    simp [Path.same, heq] at hother
  keyed other hother := by
    rcases List.mem_cons.mp hother with rfl | hother
    · exact ⟨path, hkey⟩
    · exact h.keyed other ((List.filter_sublist.map _).subset hother)

/-- The entries are what lookups of keys find. -/
theorem Settled.mem_entries_iff {cache : Cache} (h : cache.Settled) {path place : Path}
    (hkey : key path = .ok place) {template : Template} :
    (place, template) ∈ cache.entries ↔ cache.find? place = some template := by
  have hkept {e : Path × Template} (he : cache.entries.find? (·.1.same place) = some e) :
      e ∈ cache.entries ∧ e.1 = place := by
    have hmem := List.mem_of_find?_eq_some he
    obtain ⟨other, hother⟩ := h.keyed e.1 (List.mem_map_of_mem hmem)
    exact ⟨hmem, eq_of_same_of_key hother hkey
      (List.find?_some (p := fun e : Path × Template => e.1.same place) he)⟩
  constructor
  · intro hmem
    cases hfind : cache.entries.find? (·.1.same place) with
    | none =>
        have hnot := List.find?_eq_none.mp hfind _ hmem
        simp [Path.same] at hnot
    | some e =>
        obtain ⟨he, heq⟩ := hkept hfind
        rw [find?, hfind, List.inj_on_of_nodup_map h.nodup he hmem heq]
        rfl
  · intro hfind
    obtain ⟨e, he, rfl⟩ := Option.map_eq_some_iff.mp hfind
    obtain ⟨hmem, rfl⟩ := hkept he
    exact hmem

end Cache

/-! ## Queries -/

/-- A query for the template of a path: the files as they are at that moment, and the order in which
includes finish then. -/
structure Query where
  files : FileTree
  finish : Schedule
  path : Path

namespace Query

def ask (library : Library) (cache : Cache) (query : Query) : Except Failure Template × Cache :=
  compile library query.files query.finish cache query.path

def build (library : Library) (query : Query) (place : Path) : Except Failure Template :=
  Template.build library query.files query.finish place

end Query

/-- The cache after some queries; before them it was empty. -/
def cacheAfter (library : Library) (queries : List Query) : Cache :=
  queries.foldl (fun cache query => (query.ask library cache).2) .empty

def answerAfter (library : Library) (earlier : List Query) (query : Query) : Except Failure Template :=
  (query.ask library (cacheAfter library earlier)).1

/-- A template is the snapshot for a key when it is what the files gave for the key at the first query
for it that they gave anything. -/
def Snapshot (library : Library) (queries : List Query) (place : Path) (template : Template) : Prop :=
  ∃ before query after, queries = before ++ query :: after ∧ key query.path = .ok place ∧
    query.build library place = .ok template ∧
    ∀ past ∈ before, key past.path = .ok place → ∃ failure, past.build library place = .error failure

variable {library : Library} {queries : List Query} {query : Query} {cache : Cache} {place : Path}
  {template : Template}

/-! ## One query -/

/-- The ways in which a query ends: without a key, from the cache, made afresh, or in failure. -/
inductive Ending (library : Library) (cache : Cache) (query : Query) : Prop where
  | unkeyed {failure : Failure} (key : key query.path = .error failure)
      (ask : query.ask library cache = (.error failure, cache))
  | cached {place : Path} {template : Template} (key : key query.path = .ok place)
      (find : cache.find? place = some template) (ask : query.ask library cache = (.ok template, cache))
  | built {place : Path} {template : Template} (key : key query.path = .ok place)
      (find : cache.find? place = none) (build : query.build library place = .ok template)
      (ask : query.ask library cache = (.ok template, cache.insert place template))
  | failed {place : Path} {failure : Failure} (key : key query.path = .ok place)
      (find : cache.find? place = none) (build : query.build library place = .error failure)
      (ask : query.ask library cache = (.error failure, cache))

theorem ending (library : Library) (cache : Cache) (query : Query) : Ending library cache query := by
  cases hkey : key query.path with
  | error failure => exact .unkeyed hkey (by simp only [Query.ask, compile, hkey])
  | ok place =>
      cases hfind : cache.find? place with
      | some template => exact .cached hkey hfind (by simp only [Query.ask, compile, hkey, hfind])
      | none =>
          cases hbuild : query.build library place with
          | ok template =>
              refine .built hkey hfind hbuild ?_
              rw [Query.build] at hbuild
              simp only [Query.ask, compile, hkey, hfind, hbuild]
          | error failure =>
              refine .failed hkey hfind hbuild ?_
              rw [Query.build] at hbuild
              simp only [Query.ask, compile, hkey, hfind, hbuild]

theorem Cache.Settled.ask (h : cache.Settled) (query : Query) : (query.ask library cache).2.Settled := by
  cases ending library cache query with
  | unkeyed _ hask => rwa [hask]
  | cached _ _ hask => rwa [hask]
  | built hkey _ _ hask =>
      rw [hask]
      exact h.insert hkey _
  | failed _ _ _ hask => rwa [hask]

/-- The template that the files of the moment give for a key, if the query is for it. -/
def Query.template? (library : Library) (query : Query) (place : Path) : Option Template :=
  if key query.path = .ok place then (query.build library place).toOption else none

theorem template?_eq_some_iff : query.template? library place = some template ↔
    key query.path = .ok place ∧ query.build library place = .ok template := by
  unfold Query.template?
  split
  · cases query.build library place <;> simp_all [Except.toOption]
  · simp_all

theorem template?_eq_none_iff : query.template? library place = none ↔
    (key query.path = .ok place → ∃ failure, query.build library place = .error failure) := by
  unfold Query.template?
  split
  · cases query.build library place <;> simp_all [Except.toOption]
  · simp_all

/-- What the cache has for a key stays; what it does not have comes from the files of the moment. -/
theorem find?_ask {path : Path} (hplace : key path = .ok place) :
    (query.ask library cache).2.find? place =
      (cache.find? place).or (query.template? library place) := by
  cases ending library cache query with
  | unkeyed hkey hask =>
      rw [hask, template?_eq_none_iff.mpr, Option.or_none]
      intro h
      cases hkey.symm.trans h
  | @cached other _ hkey hfind hask =>
      rw [hask]
      by_cases heq : other = place
      · rw [← heq, hfind, Option.some_or]
      · rw [template?_eq_none_iff.mpr, Option.or_none]
        exact fun h => absurd (Except.ok.inj (hkey.symm.trans h)) heq
  | @built other _ hkey hfind hbuild hask =>
      rw [hask, Cache.find?_insert]
      by_cases heq : other = place
      · subst heq
        rw [hfind, template?_eq_some_iff.mpr ⟨hkey, hbuild⟩, if_pos (by simp [Path.same])]
        rfl
      · rw [template?_eq_none_iff.mpr, Option.or_none,
          if_neg fun hsame => heq (eq_of_same_of_key hkey hplace hsame)]
        exact fun h => absurd (Except.ok.inj (hkey.symm.trans h)) heq
  | @failed other failure hkey hfind hbuild hask =>
      rw [hask, template?_eq_none_iff.mpr, Option.or_none]
      intro h
      cases hkey.symm.trans h
      exact ⟨failure, hbuild⟩

/-! ## All queries -/

theorem cacheAfter_snoc (queries : List Query) (query : Query) :
    cacheAfter library (queries ++ [query]) = (query.ask library (cacheAfter library queries)).2 := by
  rw [cacheAfter, List.foldl_append]
  rfl

theorem settled_cacheAfter (library : Library) (queries : List Query) :
    (cacheAfter library queries).Settled := by
  induction queries using List.reverseRecOn with
  | nil => exact Cache.settled_empty
  | append_singleton queries query ih =>
      rw [cacheAfter_snoc]
      exact ih.ask query

theorem snapshot_iff : Snapshot library queries place template ↔
    queries.findSome? (·.template? library place) = some template := by
  simp only [Snapshot, List.findSome?_eq_some_iff, template?_eq_some_iff, template?_eq_none_iff,
    and_assoc]

/-- The cache has the snapshots. -/
theorem find?_cacheAfter {path : Path} (hplace : key path = .ok place) :
    (cacheAfter library queries).find? place = queries.findSome? (·.template? library place) := by
  induction queries using List.reverseRecOn with
  | nil => rfl
  | append_singleton queries query ih =>
      rw [cacheAfter_snoc, find?_ask hplace, ih, List.findSome?_append, List.findSome?_singleton]

theorem find?_cacheAfter_eq_some_iff {path : Path} (hplace : key path = .ok place) :
    (cacheAfter library queries).find? place = some template ↔
      Snapshot library queries place template := by
  rw [find?_cacheAfter hplace, snapshot_iff]

theorem Snapshot.append (h : Snapshot library queries place template) (later : List Query) :
    Snapshot library (queries ++ later) place template := by
  obtain ⟨before, query, after, rfl, hquery⟩ := h
  exact ⟨before, query, after ++ later, by simp, hquery⟩

theorem Snapshot.keyed (h : Snapshot library queries place template) :
    ∃ query ∈ queries, key query.path = .ok place := by
  obtain ⟨before, query, after, rfl, hkey, _⟩ := h
  exact ⟨query, by simp, hkey⟩

theorem mem_entries_cacheAfter_iff : (place, template) ∈ (cacheAfter library queries).entries ↔
    Snapshot library queries place template := by
  have hsettled := settled_cacheAfter library queries
  constructor
  · intro hmem
    obtain ⟨path, hkey⟩ := hsettled.keyed place (List.mem_map_of_mem hmem)
    exact (find?_cacheAfter_eq_some_iff hkey).mp ((hsettled.mem_entries_iff hkey).mp hmem)
  · intro h
    obtain ⟨query, _, hkey⟩ := h.keyed
    exact (hsettled.mem_entries_iff hkey).mpr ((find?_cacheAfter_eq_some_iff hkey).mpr h)

/-- A query that succeeds is answered with the snapshot for its key. -/
theorem snapshot_of_answerAfter (hkey : key query.path = .ok place)
    (h : answerAfter library queries query = .ok template) :
    Snapshot library (queries ++ [query]) place template := by
  rw [← find?_cacheAfter_eq_some_iff hkey, cacheAfter_snoc]
  rw [answerAfter] at h
  cases ending library (cacheAfter library queries) query with
  | unkeyed hother => cases hother.symm.trans hkey
  | cached hother hfind hask =>
      cases hother.symm.trans hkey
      rw [hask] at h ⊢
      cases h
      exact hfind
  | built hother hfind hbuild hask =>
      cases hother.symm.trans hkey
      rw [hask] at h ⊢
      cases h
      rw [Cache.find?_insert, if_pos (by simp [Path.same])]
  | failed _ _ _ hask =>
      rw [hask] at h
      cases h

theorem answerAfter_of_snapshot (hkey : key query.path = .ok place)
    (h : Snapshot library queries place template) :
    answerAfter library queries query = .ok template := by
  have hcached := (find?_cacheAfter_eq_some_iff hkey).mpr h
  rw [answerAfter]
  cases ending library (cacheAfter library queries) query with
  | unkeyed hother => cases hother.symm.trans hkey
  | cached hother hfind hask =>
      cases hother.symm.trans hkey
      cases hfind.symm.trans hcached
      rw [hask]
  | built hother hfind =>
      cases hother.symm.trans hkey
      cases hfind.symm.trans hcached
  | failed hother hfind =>
      cases hother.symm.trans hkey
      cases hfind.symm.trans hcached

theorem answerAfter_of_not_snapshot (hkey : key query.path = .ok place)
    (h : ¬ ∃ template, Snapshot library queries place template) :
    answerAfter library queries query = query.build library place := by
  rw [answerAfter]
  cases ending library (cacheAfter library queries) query with
  | unkeyed hother => cases hother.symm.trans hkey
  | cached hother hfind =>
      cases hother.symm.trans hkey
      exact absurd ⟨_, (find?_cacheAfter_eq_some_iff hkey).mp hfind⟩ h
  | built hother _ hbuild hask =>
      cases hother.symm.trans hkey
      rw [hask, hbuild]
  | failed hother _ hbuild hask =>
      cases hother.symm.trans hkey
      rw [hask, hbuild]

/-! ## The law -/

/-- What a cache remembers of queries. -/
structure SnapshotLaw (library : Library) (queries : List Query) : Prop where
  /-- The keys in the cache are those for which a query succeeded, each once. -/
  keys : ∀ place, place ∈ (cacheAfter library queries).keys ↔ ∃ before query after template,
    queries = before ++ query :: after ∧ key query.path = .ok place ∧
      answerAfter library before query = .ok template
  nodup : (cacheAfter library queries).keys.Nodup
  /-- Nothing is found for a path that no query was about, such as that of a file that was only
  included. -/
  unasked : ∀ path, (∀ query ∈ queries, ∀ place, key query.path = .ok place → place.same path = false) →
    (cacheAfter library queries).contains path = false
  /-- The templates in the cache are snapshots. -/
  entries : ∀ place template, (place, template) ∈ (cacheAfter library queries).entries ↔
    Snapshot library queries place template
  /-- Whoever asks for the key of a snapshot is given the snapshot, whatever happened since. -/
  lasting : ∀ place template later (query : Query), Snapshot library queries place template →
    key query.path = .ok place → answerAfter library (queries ++ later) query = .ok template
  /-- Whoever asks for another key is given what the files of the moment give for it. -/
  fresh : ∀ place (query : Query), (¬ ∃ template, Snapshot library queries place template) →
    key query.path = .ok place → answerAfter library queries query = query.build library place
  /-- Whoever asks for a path without a key is told so. -/
  unkeyed : ∀ (query : Query) failure, key query.path = .error failure →
    answerAfter library queries query = .error failure
  /-- Paths with the same key are asked for alike. -/
  spelling : ∀ (query : Query) path, key path = key query.path →
    { query with path }.ask library (cacheAfter library queries) =
      query.ask library (cacheAfter library queries)
  /-- A query that fails leaves the cache as it was. -/
  failed : ∀ query failure, answerAfter library queries query = .error failure →
    cacheAfter library (queries ++ [query]) = cacheAfter library queries

theorem keys_cacheAfter_iff : place ∈ (cacheAfter library queries).keys ↔
    ∃ before query after template, queries = before ++ query :: after ∧
      key query.path = .ok place ∧ answerAfter library before query = .ok template := by
  constructor
  · intro hplace
    obtain ⟨e, hmem, rfl⟩ := List.mem_map.mp hplace
    obtain ⟨before, query, after, heq, hkey, hbuild, hpast⟩ := mem_entries_cacheAfter_iff.mp hmem
    refine ⟨before, query, after, e.2, heq, hkey, ?_⟩
    rw [answerAfter_of_not_snapshot hkey, hbuild]
    rintro ⟨_, earlier, past, between, rfl, hother, hpresent, _⟩
    obtain ⟨failure, hfailed⟩ := hpast past (by simp) hother
    cases hpresent.symm.trans hfailed
  · rintro ⟨before, query, after, template, rfl, hkey, hanswer⟩
    have hsnapshot := (snapshot_of_answerAfter hkey hanswer).append after
    rw [List.append_assoc, List.singleton_append] at hsnapshot
    exact List.mem_map_of_mem (mem_entries_cacheAfter_iff.mpr hsnapshot)

/-- Whatever is asked for, and whatever becomes of the files in the meantime, the cache is a cache of
snapshots. -/
theorem cache_keeps_snapshots (library : Library) (queries : List Query) :
    SnapshotLaw library queries where
  keys _ := keys_cacheAfter_iff
  nodup := (settled_cacheAfter library queries).nodup
  unasked path h := by
    rw [Cache.contains, Cache.find?, Option.isSome_map, Option.isSome_eq_false_iff,
      Option.isNone_iff_eq_none, List.find?_eq_none]
    intro e hmem hsame
    obtain ⟨query, hquery, hkey⟩ := (mem_entries_cacheAfter_iff.mp hmem).keyed
    cases hsame.symm.trans (h query hquery e.1 hkey)
  entries _ _ := mem_entries_cacheAfter_iff
  lasting _ _ later _ h hkey := answerAfter_of_snapshot hkey (h.append later)
  fresh _ _ h hkey := answerAfter_of_not_snapshot hkey h
  unkeyed query failure h := by
    simp only [answerAfter, Query.ask, compile, h]
  spelling query path h := by
    simp only [Query.ask, compile, h]
  failed query failure h := by
    rw [cacheAfter_snoc]
    rw [answerAfter] at h
    cases ending library (cacheAfter library queries) query with
    | unkeyed _ hask => rw [hask]
    | cached _ _ hask => rw [hask]
    | built _ _ _ hask =>
        rw [hask] at h
        cases h
    | failed _ _ _ hask => rw [hask]

end SiteServer.Template
