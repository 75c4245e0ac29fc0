import Mathlib.Tactic.SplitIfs
import SiteServer.FileTree

/-! # Changes of a file tree, place by place.

Making directories changes no regular file. Where a path leads to depends on directories only, so it leads to
the same place as long as these stay: what was written there is found, and removed, there. -/

namespace SiteServer

def Entry.content? : Entry → Option Bytes
  | .file content => some content
  | .directory => none

namespace FileTree

variable {tree tree' : FileTree} {p : Path} {place : Location}

/-! ## Regular files -/

def fileAt? (tree : FileTree) (place : Location) : Option Bytes :=
  (tree.occupant? place).bind Entry.content?

theorem fileAt?_put (h : place ≠ []) (entry : Entry) (other : Location) :
    (tree.put place entry).fileAt? other =
      if other = place then entry.content? else tree.fileAt? other := by
  rw [fileAt?, occupant?_put tree h]
  split <;> rfl

theorem fileAt?_clear (h : place ≠ []) (other : Location) :
    (tree.clear place).fileAt? other = if other = place then none else tree.fileAt? other := by
  rw [fileAt?, occupant?_clear tree h]
  split <;> rfl

/-! ## Directories -/

/-- Every directory of a tree is one of another tree, too. -/
def KeepsDirectories (tree tree' : FileTree) : Prop :=
  ∀ place, tree.occupant? place = some .directory → tree'.occupant? place = some .directory

/-- A tree has the same regular files as another, and all its directories. -/
structure Grows (tree tree' : FileTree) : Prop where
  files : ∀ place, tree'.fileAt? place = tree.fileAt? place
  directories : tree.KeepsDirectories tree'

namespace Grows

theorem refl (tree : FileTree) : tree.Grows tree :=
  ⟨fun _ => rfl, fun _ => id⟩

theorem of_eq (h : tree' = tree) : tree.Grows tree' :=
  h ▸ refl tree

theorem trans {last : FileTree} (h : tree.Grows tree') (hnext : tree'.Grows last) : tree.Grows last where
  files place := (hnext.files place).trans (h.files place)
  directories place hplace := hnext.directories place (h.directories place hplace)

end Grows

theorem keepsDirectories_put (h : place ≠ []) (hplace : tree.occupant? place ≠ some .directory)
    (entry : Entry) : tree.KeepsDirectories (tree.put place entry) := by
  intro other hother
  have hne : other ≠ place := fun heq => hplace (heq ▸ hother)
  rw [occupant?_put tree h, if_neg hne, hother]

theorem keepsDirectories_clear (h : place ≠ []) (hplace : tree.occupant? place ≠ some .directory) :
    tree.KeepsDirectories (tree.clear place) := by
  intro other hother
  have hne : other ≠ place := fun heq => hplace (heq ▸ hother)
  rw [occupant?_clear tree h, if_neg hne, hother]

theorem grows_put_directory (h : place ≠ []) (hplace : tree.occupant? place = none) :
    tree.Grows (tree.put place .directory) where
  files other := by
    rw [fileAt?_put h]
    split
    case isTrue heq =>
      rw [heq, fileAt?, hplace]
      rfl
    case isFalse => rfl
  directories := keepsDirectories_put h (by simp [hplace]) _

/-! ## Where paths lead to -/

theorem walk_append (start : Location) (slices rest : List (List Char)) :
    tree.walk start (slices ++ rest) = (tree.walk start slices).bind fun place => tree.walk place rest := by
  induction slices generalizing start with
  | nil => rfl
  | cons slice slices ih =>
      rw [List.cons_append, walk, walk]
      cases tree.occupant? start with
      | none => rfl
      | some entry =>
          cases entry with
          | file content => rfl
          | directory =>
              dsimp only
              split_ifs
              · exact ih start
              · exact ih start.dropLast
              · rfl
              · exact ih _
              · rfl

/-- On the way to a directory there are directories only. -/
theorem directory_of_walk {start : Location} {slices : List (List Char)}
    (h : tree.walk start slices = .ok place) (hplace : tree.occupant? place = some .directory) :
    tree.occupant? start = some .directory := by
  cases slices with
  | nil =>
      cases h
      exact hplace
  | cons slice rest =>
      rw [walk] at h
      cases hstart : tree.occupant? start with
      | none =>
          rw [hstart] at h
          cases h
      | some entry =>
          rw [hstart] at h
          cases entry with
          | file content => cases h
          | directory => rfl

/-- A way to a directory stays as long as directories do. -/
theorem walk_of_keepsDirectories (hkeeps : tree.KeepsDirectories tree') {start : Location}
    {slices : List (List Char)} (h : tree.walk start slices = .ok place)
    (hplace : tree.occupant? place = some .directory) : tree'.walk start slices = .ok place := by
  induction slices generalizing start with
  | nil => exact h
  | cons slice rest ih =>
      have hstart := directory_of_walk h hplace
      rw [walk, hstart] at h
      rw [walk, hkeeps start hstart]
      dsimp only at h ⊢
      split_ifs at h ⊢ with hhere hup hlong hfound hold
      · exact ih h
      · exact ih h
      · exact ih h
      · have hnext := hkeeps _ (directory_of_walk h hplace)
        rw [hnext] at hfound
        exact absurd rfl hfound

theorem namedPlace_eq_ok_iff {target : Target} :
    tree.namedPlace target = .ok place ↔ ∃ holder, tree.walk [] target.before = .ok holder ∧
      tree.occupant? holder = some .directory ∧ Text.Utf8.byteSize target.last ≤ nameLimit ∧
      holder ++ [String.ofList target.last] = place := by
  rw [namedPlace, holder]
  cases tree.walk [] target.before with
  | error fault => simp [bind, Except.bind]
  | ok holder =>
      simp only [bind, Except.bind, Except.ok.injEq, exists_eq_left']
      cases tree.occupant? holder with
      | none => simp
      | some entry =>
          cases entry with
          | file content => simp
          | directory =>
              by_cases hlong : nameLimit < Text.Utf8.byteSize target.last
              · simp [hlong, Nat.not_le_of_lt hlong]
              · simp [hlong, Nat.le_of_not_lt hlong]

/-- The last part of a path is the name of a place in a directory. -/
inductive Leads (tree : FileTree) (p : Path) (place : Location) : Prop
  | intro {before : List (List Char)} {last : List Char} (checked : checkText p.text.toList = .ok ())
      (target : target? p.text.toList = some ⟨before, last, false⟩) (name : isName last = true)
      (named : tree.namedPlace ⟨before, last, false⟩ = .ok place)

theorem Leads.ne_nil (h : tree.Leads p place) : place ≠ [] := by
  obtain ⟨_, _, _, named⟩ := h
  obtain ⟨holder, _, _, _, rfl⟩ := namedPlace_eq_ok_iff.mp named
  exact List.append_ne_nil_of_right_ne_nil _ (List.cons_ne_nil _ _)

theorem Leads.of_keepsDirectories (h : tree.Leads p place) (hkeeps : tree.KeepsDirectories tree') :
    tree'.Leads p place := by
  obtain ⟨checked, target, name, named⟩ := h
  obtain ⟨holder, hwalk, hholder, hshort, hplace⟩ := namedPlace_eq_ok_iff.mp named
  exact ⟨checked, target, name, namedPlace_eq_ok_iff.mpr
    ⟨holder, walk_of_keepsDirectories hkeeps hwalk hholder, hkeeps holder hholder, hshort, hplace⟩⟩

theorem slices_of_target? {text : List Char} {before : List (List Char)} {last : List Char}
    (h : target? text = some ⟨before, last, false⟩) :
    Path.slices text = before ++ [last] ∧ last ≠ [] := by
  rw [target?] at h
  generalize hslices : Path.slices text = slices at h ⊢
  rw [List.getLast?_eq_head?_reverse] at h
  cases hreverse : slices.reverse with
  | nil =>
      rw [hreverse] at h
      cases h
  | cons final rest =>
      rw [hreverse] at h
      by_cases hfinal : final = []
      · rw [hfinal] at h
        split at h
        · cases h
        · cases h
      · rw [List.dropWhile_cons_of_neg (by simpa using hfinal)] at h
        obtain ⟨hbefore, hlast, _⟩ := Target.mk.inj (Option.some.inj h)
        subst hbefore hlast
        refine ⟨?_, hfinal⟩
        rw [← List.reverse_reverse slices, hreverse, List.reverse_cons]

theorem walk_name {holder : Location} {last : List Char} (hholder : tree.occupant? holder = some .directory)
    (hlast : last ≠ []) (hname : isName last = true) (hshort : Text.Utf8.byteSize last ≤ nameLimit) :
    tree.walk holder [last] =
      if (tree.occupant? (holder ++ [String.ofList last])).isSome then
        .ok (holder ++ [String.ofList last]) else .error .notFound := by
  obtain ⟨hhere, hup⟩ : last ≠ ['.'] ∧ last ≠ ['.', '.'] := by simpa [isName] using hname
  rw [walk, hholder]
  dsimp only
  rw [if_neg (by simp [hlast, hhere]), if_neg hup, if_neg (Nat.not_lt_of_le hshort)]
  rfl

theorem Leads.unique {other : Location} (h : tree.Leads p place) (hother : tree.Leads p other) :
    place = other := by
  obtain ⟨_, target, _, named⟩ := h
  obtain ⟨_, target', _, named'⟩ := hother
  rw [target, Option.some.injEq] at target'
  rw [target', named'] at named
  exact (Except.ok.inj named).symm

/-- A path leads to the place that its last part names, if there is anything. -/
theorem Leads.locate_eq (h : tree.Leads p place) :
    tree.locate p = if (tree.occupant? place).isSome then .ok place else .error .notFound := by
  obtain @⟨before, last, checked, target, name, named⟩ := h
  obtain ⟨holder, hwalk, hholder, hshort, rfl⟩ := namedPlace_eq_ok_iff.mp named
  obtain ⟨hslices, hlast⟩ := slices_of_target? target
  rw [locate, checked, hslices]
  change tree.walk [] (before ++ [last]) = _
  rw [walk_append, hwalk]
  exact walk_name hholder hlast name hshort

theorem Leads.occupied_eq (h : tree.Leads p place) : tree.occupied p = (tree.occupant? place).isSome := by
  rw [occupied, find, h.locate_eq]
  cases hentry : tree.occupant? place <;> simp [bind, Except.bind, hentry]

theorem Leads.content?_eq (h : tree.Leads p place) : tree.content? p = tree.fileAt? place := by
  rw [content?, find, h.locate_eq, fileAt?]
  cases hentry : tree.occupant? place with
  | none => rfl
  | some entry =>
      rw [Option.isSome_some, if_pos rfl]
      cases entry <;> simp [bind, Except.bind, hentry, Entry.content?]

/-- A path leads to the regular file at the place that its last part names. -/
theorem Leads.isFile_eq (h : tree.Leads p place) : tree.isFile p = (tree.fileAt? place).isSome := by
  rw [isFile, h.content?_eq]

/-! ## Changes by path -/

theorem exists_of_makeDirectory (h : tree.makeDirectory p = .ok tree') :
    ∃ place, place ≠ [] ∧ tree.occupant? place = none ∧ tree' = tree.put place .directory := by
  rw [makeDirectory] at h
  simp only [bind, Except.bind] at h
  split at h
  · cases h
  · split at h
    · cases h
    · split at h
      · split at h <;> cases h
      · split at h
        · cases h
        · rename_i place hnamed
          obtain ⟨holder, _, _, _, rfl⟩ := namedPlace_eq_ok_iff.mp hnamed
          split at h
          · cases h
          · rename_i hfree
            cases h
            exact ⟨_, List.append_ne_nil_of_right_ne_nil _ (List.cons_ne_nil _ _),
              by simpa using hfree, rfl⟩

theorem grows_makeDirectory (h : tree.makeDirectory p = .ok tree') : tree.Grows tree' := by
  obtain ⟨place, hne, hplace, rfl⟩ := exists_of_makeDirectory h
  exact grows_put_directory hne hplace

theorem grows_ensureDirectory (tree : FileTree) (p : Path) : tree.Grows (tree.ensureDirectory p).2 := by
  rw [ensureDirectory]
  split
  · rename_i hmade
    exact grows_makeDirectory hmade
  · exact .refl tree

theorem grows_makeDirectoriesWithin (above : Nat) (tree : FileTree) (p : Path) :
    tree.Grows (makeDirectoriesWithin above tree p).2 := by
  induction above generalizing p with
  | zero => exact .refl tree
  | succ above ih =>
      rw [makeDirectoriesWithin]
      split
      · exact .refl tree
      · split
        · rename_i hmade
          exact grows_makeDirectory hmade
        · split
          · rename_i parent _
            have hparent := ih parent
            split
            · rename_i hmade
              rw [hmade] at hparent
              exact hparent.trans (grows_ensureDirectory _ p)
            · rename_i hmade
              rw [hmade] at hparent
              exact hparent
          · exact .refl tree
        · exact .refl tree

/-- Making directories changes no regular file, and takes away no directory. -/
theorem grows_makeDirectories (tree : FileTree) (p : Path) : tree.Grows (tree.makeDirectories p).2 :=
  grows_makeDirectoriesWithin _ tree p

/-- A file is written at the place that its path names, where no directory is. -/
theorem leads_of_write {content : Bytes} (h : tree.write p content = .ok tree') :
    ∃ place, tree.Leads p place ∧ tree.occupant? place ≠ some .directory ∧
      tree' = tree.put place (.file content) := by
  rw [write] at h
  simp only [bind, Except.bind] at h
  split at h
  · cases h
  · rename_i hchecked
    split at h
    · cases h
    · rename_i target htarget
      split at h
      · split at h <;> cases h
      · rename_i hname
        split at h
        · cases h
        · rename_i place hnamed
          obtain ⟨before, last, trailing⟩ := target
          split at h
          · cases h
          · cases h
          · cases h
          · rename_i hplain hfree
            cases h
            cases hplain
            exact ⟨place, ⟨hchecked, htarget, by simpa using hname, hnamed⟩, hfree, rfl⟩

/-- A regular file is removed from the place that its path names. -/
theorem Leads.remove_eq {content : Bytes} (h : tree.Leads p place)
    (hplace : tree.fileAt? place = some content) : tree.remove p = .ok (tree.clear place) := by
  obtain ⟨checked, target, name, named⟩ := h
  have hentry : tree.occupant? place = some (.file content) := by
    obtain ⟨entry, hentry, hcontent⟩ := Option.bind_eq_some_iff.mp hplace
    cases entry with
    | file _ =>
        cases hcontent
        exact hentry
    | directory => cases hcontent
  rw [remove]
  simp only [bind, Except.bind, checked, target, name, named, hentry]
  rfl

end FileTree

end SiteServer
