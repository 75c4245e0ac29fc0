import SiteServer.Proofs.FileTree.Changes

/-! # Removing files.

A path leads to a regular file exactly when its last part names one in a directory, and then this file is what
is removed. Directories stay, so the other paths lead where they led before: files that are removed one after
the other are gone as if they had been removed at once. -/

namespace SiteServer.FileTree

variable {tree tree' : FileTree} {p : Path} {place : Location}

/-! ## The files that paths lead to -/

/-- The place of the regular file that a path leads to, if it leads to one. -/
def fileOf? (tree : FileTree) (p : Path) : Option Location :=
  match tree.locate p with
  | .ok place => if (tree.fileAt? place).isSome then some place else none
  | .error _ => none

/-- A tree without the regular files that some paths lead to. -/
def without (tree : FileTree) (paths : List Path) : FileTree :=
  ⟨tree.entries.filter fun e => e.1 ∉ paths.filterMap tree.fileOf?⟩

theorem isSome_fileAt?_iff :
    (tree.fileAt? place).isSome ↔ ∃ content, tree.occupant? place = some (.file content) := by
  unfold fileAt?
  cases tree.occupant? place with
  | none => simp
  | some entry => cases entry <;> simp [Entry.content?]

/-- All places above a place are directories. -/
def Rooted (tree : FileTree) (place : Location) : Prop :=
  ∀ outer, outer <+: place → outer ≠ place → tree.occupant? outer = some .directory

theorem Rooted.dropLast (h : tree.Rooted place) : tree.Rooted place.dropLast := by
  intro outer houter hne
  apply h outer (houter.trans (List.dropLast_prefix place))
  rintro rfl
  have hlength := houter.length_le
  rw [List.length_dropLast] at hlength
  have hnil : outer = [] := List.length_eq_zero_iff.mp (by omega)
  subst hnil
  exact hne rfl

theorem Rooted.occupant?_dropLast (h : tree.Rooted place) :
    tree.occupant? place.dropLast = some .directory := by
  cases hplace : place with
  | nil => rfl
  | cons name rest =>
      rw [← hplace]
      apply h _ (List.dropLast_prefix place)
      intro heq
      have hlength := congrArg List.length heq
      rw [List.length_dropLast, hplace, List.length_cons] at hlength
      omega

theorem Rooted.concat (h : tree.Rooted place) (hplace : tree.occupant? place = some .directory)
    (name : String) : tree.Rooted (place ++ [name]) := by
  intro outer houter hne
  rcases List.prefix_concat_iff.mp houter with heq | houter
  · exact absurd heq hne
  · by_cases heq : outer = place
    · rw [heq]
      exact hplace
    · exact h outer houter heq

/-- A walk goes through directories only. -/
theorem rooted_of_walk {start : Location} {slices : List (List Char)} (hstart : tree.Rooted start)
    (h : tree.walk start slices = .ok place) : tree.Rooted place := by
  induction slices generalizing start with
  | nil =>
      cases h
      exact hstart
  | cons slice rest ih =>
      rw [walk] at h
      split at h
      · rename_i hdirectory
        dsimp only at h
        split_ifs at h
        · exact ih hstart h
        · exact ih hstart.dropLast h
        · exact ih (hstart.concat hdirectory _) h
      · cases h
      · cases h

theorem locate_eq_ok_iff : tree.locate p = .ok place ↔
    checkText p.text.toList = .ok () ∧ tree.walk [] (Path.slices p.text.toList) = .ok place := by
  rw [locate]
  cases checkText p.text.toList <;> simp [bind, Except.bind]

theorem walk_append_eq_ok_iff {start : Location} {slices rest : List (List Char)} :
    tree.walk start (slices ++ rest) = .ok place ↔
      ∃ holder, tree.walk start slices = .ok holder ∧ tree.walk holder rest = .ok place := by
  rw [walk_append]
  cases tree.walk start slices <;> simp [Except.bind]

/-- The last step to a regular file is to a name: any other one leads to a directory. -/
theorem name_of_walk {holder : Location} {last : List Char} (h : tree.walk holder [last] = .ok place)
    (hrooted : tree.Rooted holder) (hfile : (tree.fileAt? place).isSome) :
    tree.occupant? holder = some .directory ∧ last ≠ [] ∧ isName last = true ∧
      Text.Utf8.byteSize last ≤ nameLimit ∧ holder ++ [String.ofList last] = place := by
  obtain ⟨content, hfile⟩ := isSome_fileAt?_iff.mp hfile
  rw [walk] at h
  split at h
  · rename_i hholder
    dsimp only at h
    split_ifs at h with hhere hup hlong
    · cases h
      rw [hholder] at hfile
      cases hfile
    · cases h
      rw [hrooted.occupant?_dropLast] at hfile
      cases hfile
    · cases h
      obtain ⟨hne, hhere⟩ := not_or.mp hhere
      exact ⟨hholder, hne, by simp [isName, hhere, hup], Nat.le_of_not_lt hlong, rfl⟩
  · cases h
  · cases h

/-- The last part of a path to a regular file is the name of the file, and the parts before it lead to the
directory with the file. -/
theorem exists_last_of_locate (h : tree.locate p = .ok place) (hfile : (tree.fileAt? place).isSome) :
    ∃ before last holder, Path.slices p.text.toList = before ++ [last] ∧
      tree.walk [] before = .ok holder ∧ tree.occupant? holder = some .directory ∧ last ≠ [] ∧
        isName last = true ∧ Text.Utf8.byteSize last ≤ nameLimit ∧ holder ++ [String.ofList last] = place := by
  obtain ⟨_, hwalk⟩ := locate_eq_ok_iff.mp h
  rcases List.eq_nil_or_concat (Path.slices p.text.toList) with hnil | ⟨before, last, hslices⟩
  · rw [hnil] at hwalk
    cases hwalk
    cases hfile
  · rw [List.concat_eq_append] at hslices
    rw [hslices] at hwalk
    obtain ⟨holder, hbefore, hlast⟩ := walk_append_eq_ok_iff.mp hwalk
    have hrooted : tree.Rooted holder := by
      refine rooted_of_walk ?_ hbefore
      intro outer houter hne
      exact absurd (List.prefix_nil.mp houter) hne
    exact ⟨before, last, holder, hslices, hbefore, name_of_walk hlast hrooted hfile⟩

theorem leads_of_locate (h : tree.locate p = .ok place) (hfile : (tree.fileAt? place).isSome) :
    tree.Leads p place := by
  obtain ⟨before, last, holder, hslices, hbefore, hholder, hne, hname, hshort, hplace⟩ :=
    exists_last_of_locate h hfile
  have htarget : target? p.text.toList = some ⟨before, last, false⟩ := by
    simp [target?, hslices, hne]
  exact ⟨(locate_eq_ok_iff.mp h).1, htarget, hname,
    namedPlace_eq_ok_iff.mpr ⟨holder, hbefore, hholder, hshort, hplace⟩⟩

theorem fileOf?_eq_some_iff :
    tree.fileOf? p = some place ↔ tree.Leads p place ∧ (tree.fileAt? place).isSome := by
  unfold fileOf?
  constructor
  · intro h
    split at h
    · rename_i found hlocate
      split at h
      · rename_i hfile
        cases h
        exact ⟨leads_of_locate hlocate hfile, hfile⟩
      · cases h
    · cases h
  · rintro ⟨hleads, hfile⟩
    obtain ⟨content, hentry⟩ := isSome_fileAt?_iff.mp hfile
    rw [hleads.locate_eq, hentry]
    simp [hfile]

theorem isSome_fileOf?_iff : (tree.fileOf? p).isSome ↔ tree.isFile p = true := by
  unfold fileOf? isFile content? find fileAt?
  cases tree.locate p with
  | error fault => simp [bind, Except.bind]
  | ok place =>
      simp only [bind, Except.bind]
      cases tree.occupant? place with
      | none => simp
      | some entry => cases entry <;> simp [Entry.content?]

/-- A path to a regular file ends in a name. -/
theorem exists_fileName? (h : tree.isFile p = true) : ∃ name, p.fileName? = some name := by
  obtain ⟨place, hplace⟩ := Option.isSome_iff_exists.mp (isSome_fileOf?_iff.mpr h)
  obtain ⟨hleads, hfile⟩ := fileOf?_eq_some_iff.mp hplace
  obtain ⟨content, hentry⟩ := isSome_fileAt?_iff.mp hfile
  have hlocate : tree.locate p = .ok place := by simpa [hentry] using hleads.locate_eq
  obtain ⟨before, last, _, hslices, _, _, hne, hname, _⟩ := exists_last_of_locate hlocate hfile
  obtain ⟨hhere, hup⟩ : last ≠ ['.'] ∧ last ≠ ['.', '.'] := by simpa [isName] using hname
  have hcomponent : Path.component? last = some (.name (String.ofList last)) := by
    rw [Path.component?, if_neg (not_or.mpr ⟨hne, hhere⟩), if_neg hup]
  refine ⟨String.ofList last, ?_⟩
  rw [Path.fileName?, Path.components, hslices, List.filterMap_append]
  simp [hcomponent]

/-- What is removed is the regular file that a path leads to. -/
theorem remove_eq_ok_iff :
    tree.remove p = .ok tree' ↔ ∃ place, tree.fileOf? p = some place ∧ tree' = tree.clear place := by
  constructor
  · intro h
    rw [remove] at h
    simp only [bind, Except.bind] at h
    split at h
    · cases h
    · rename_i hchecked
      split at h
      · cases h
      · rename_i target htarget
        split at h
        · split at h <;> cases h
        · rename_i hname
          split at h
          · cases h
          · rename_i place hnamed
            obtain ⟨before, last, trailing⟩ := target
            split at h
            · cases h
            · cases h
            · cases h
            · rename_i content hentry hplain
              cases h
              cases hplain
              refine ⟨place, fileOf?_eq_some_iff.mpr ⟨⟨hchecked, htarget, by simpa using hname, hnamed⟩, ?_⟩, rfl⟩
              exact isSome_fileAt?_iff.mpr ⟨_, hentry⟩
  · rintro ⟨place, hplace, rfl⟩
    obtain ⟨hleads, hfile⟩ := fileOf?_eq_some_iff.mp hplace
    obtain ⟨content, hcontent⟩ := Option.isSome_iff_exists.mp hfile
    exact hleads.remove_eq hcontent

/-! ## Files that are gone -/

theorem without_nil (tree : FileTree) : tree.without [] = tree :=
  congrArg FileTree.mk (List.filter_eq_self.mpr (by simp))

theorem ne_nil_of_fileOf? (h : tree.fileOf? p = some place) : place ≠ [] :=
  (fileOf?_eq_some_iff.mp h).1.ne_nil

theorem lookup_filter_not_mem (places : List Location) (entries : List (Location × Entry))
    (other : Location) : (entries.filter fun e => e.1 ∉ places).lookup other =
      if other ∈ places then none else entries.lookup other := by
  induction entries with
  | nil => simp
  | cons e rest ih =>
      obtain ⟨l, entry⟩ := e
      by_cases hl : l ∈ places
      · by_cases ho : other = l
        · subst ho
          simpa [hl] using ih
        · have hb : (other == l) = false := by simpa using ho
          simpa [List.lookup_cons, hl, hb] using ih
      · by_cases ho : other = l
        · subst ho
          simp [hl]
        · have hb : (other == l) = false := by simpa using ho
          simpa [List.lookup_cons, hl, hb] using ih

/-- Of a tree without some files, only these are gone. -/
theorem occupant?_without (tree : FileTree) (paths : List Path) (place : Location) :
    (tree.without paths).occupant? place =
      if place ∈ paths.filterMap tree.fileOf? then none else tree.occupant? place := by
  cases place with
  | nil =>
      have hroot : [] ∉ paths.filterMap tree.fileOf? := by
        intro hmem
        obtain ⟨p, _, hp⟩ := List.mem_filterMap.mp hmem
        exact ne_nil_of_fileOf? hp rfl
      rw [if_neg hroot]
      rfl
  | cons name rest => exact lookup_filter_not_mem _ _ _

theorem directory_without_iff {paths : List Path} :
    (tree.without paths).occupant? place = some .directory ↔ tree.occupant? place = some .directory := by
  rw [occupant?_without]
  split
  · rename_i hmem
    obtain ⟨p, _, hp⟩ := List.mem_filterMap.mp hmem
    obtain ⟨content, hentry⟩ := isSome_fileAt?_iff.mp (fileOf?_eq_some_iff.mp hp).2
    simp [hentry]
  · rfl

/-- Paths lead where they led before. -/
theorem leads_without_iff {paths : List Path} : (tree.without paths).Leads p place ↔ tree.Leads p place := by
  constructor
  · exact fun h => h.of_keepsDirectories fun _ => directory_without_iff.mp
  · exact fun h => h.of_keepsDirectories fun _ => directory_without_iff.mpr

/-- Nothing is left at the path of a file that is gone. -/
theorem occupied_without {paths : List Path} (hp : p ∈ paths) (hfile : tree.isFile p = true) :
    (tree.without paths).occupied p = false := by
  obtain ⟨place, hplace⟩ := Option.isSome_iff_exists.mp (isSome_fileOf?_iff.mpr hfile)
  have hleads : (tree.without paths).Leads p place :=
    leads_without_iff.mpr (fileOf?_eq_some_iff.mp hplace).1
  rw [hleads.occupied_eq, occupant?_without, if_pos (List.mem_filterMap.mpr ⟨p, hp, hplace⟩)]
  rfl

theorem occupant?_without_of_forall_ne {paths : List Path}
    (h : ∀ p ∈ paths, tree.fileOf? p ≠ some place) :
    (tree.without paths).occupant? place = tree.occupant? place := by
  rw [occupant?_without, if_neg]
  simpa using h

theorem fileOf?_without_eq_some_iff {paths : List Path} :
    (tree.without paths).fileOf? p = some place ↔
      tree.fileOf? p = some place ∧ place ∉ paths.filterMap tree.fileOf? := by
  rw [fileOf?_eq_some_iff, fileOf?_eq_some_iff, leads_without_iff, isSome_fileAt?_iff, isSome_fileAt?_iff,
    occupant?_without]
  split <;> simp_all

theorem mem_places_concat {paths : List Path} : place ∈ (paths ++ [p]).filterMap tree.fileOf? ↔
    place ∈ paths.filterMap tree.fileOf? ∨ tree.fileOf? p = some place := by
  simp

/-- A tree without the files of some paths and of one more comes about by removing one more file. -/
theorem without_concat (tree : FileTree) (paths : List Path) (p : Path) :
    tree.without (paths ++ [p]) = ((tree.without paths).remove p).toOption.getD (tree.without paths) := by
  cases hremove : (tree.without paths).remove p with
  | ok left =>
      obtain ⟨place, hplace, rfl⟩ := remove_eq_ok_iff.mp hremove
      have hfile := (fileOf?_without_eq_some_iff.mp hplace).1
      have hsame (e : Location × Entry) : e.1 ∉ (paths ++ [p]).filterMap tree.fileOf? ↔
          e.1 ≠ place ∧ e.1 ∉ paths.filterMap tree.fileOf? := by
        rw [mem_places_concat, not_or, hfile, Option.some.injEq, and_comm, ne_comm]
      refine congrArg FileTree.mk ?_
      simp only [hsame, without, List.filter_filter, Bool.decide_and]
  | error fault =>
      have hold : ∀ place, tree.fileOf? p = some place → place ∈ paths.filterMap tree.fileOf? := by
        intro place hplace
        by_cases hmem : place ∈ paths.filterMap tree.fileOf?
        · exact hmem
        · have hok := remove_eq_ok_iff.mpr ⟨place, fileOf?_without_eq_some_iff.mpr ⟨hplace, hmem⟩, rfl⟩
          rw [hremove] at hok
          cases hok
      have hsame (e : Location × Entry) : e.1 ∉ (paths ++ [p]).filterMap tree.fileOf? ↔
          e.1 ∉ paths.filterMap tree.fileOf? := by
        rw [mem_places_concat, not_or]
        exact and_iff_left_of_imp fun hout hplace => hout (hold e.1 hplace)
      refine congrArg FileTree.mk ?_
      simp only [hsame]

end SiteServer.FileTree
