import SiteServer.Proofs.FileTree
import SiteServer.Proofs.FileTree.Changes
import SiteServer.Proofs.Text.Utf8

/-! # A file with another text.

Where paths lead does not depend on what is in the files, so another text in one file is only seen by paths
that lead to it. -/

namespace SiteServer.FileTree

variable {tree other : FileTree} {p q : Path}

/-! ## Trees of one shape -/

/-- Two trees have regular files in the same places, and directories in the same places. -/
def SameShape (tree other : FileTree) : Prop :=
  ∀ place, (other.occupant? place).map (·.content?.isSome) = (tree.occupant? place).map (·.content?.isSome)

theorem SameShape.walk_eq (h : tree.SameShape other) (place : Location) (slices : List (List Char)) :
    other.walk place slices = tree.walk place slices := by
  induction slices generalizing place with
  | nil => rfl
  | cons slice slices ih =>
      have hplace := h place
      have hnext := congrArg Option.isSome (h (place ++ [String.ofList slice]))
      rw [Option.isSome_map, Option.isSome_map] at hnext
      rw [walk, walk]
      simp only [ih, hnext]
      rcases hone : tree.occupant? place with _ | ⟨content⟩ | _ <;>
        rcases hother : other.occupant? place with _ | ⟨content'⟩ | _ <;>
        simp [hone, hother, Entry.content?] at hplace ⊢

theorem SameShape.locate_eq (h : tree.SameShape other) (p : Path) : other.locate p = tree.locate p := by
  unfold locate
  rw [h.walk_eq]

theorem isFile_of_locate {place : Location} (h : tree.locate p = .ok place) :
    tree.isFile p = (tree.fileAt? place).isSome := by
  unfold isFile content? find fileAt?
  rw [h]
  cases hentry : tree.occupant? place with
  | none => simp [bind, Except.bind, hentry]
  | some entry => cases entry <;> simp [bind, Except.bind, hentry, Entry.content?]

theorem isFile_of_locate_eq_error {fault : IoFault} (h : tree.locate p = .error fault) :
    tree.isFile p = false := by
  unfold isFile content? find
  rw [h]
  rfl

theorem SameShape.isFile_eq (h : tree.SameShape other) (p : Path) : other.isFile p = tree.isFile p := by
  cases hlocate : tree.locate p with
  | error fault =>
      rw [isFile_of_locate_eq_error hlocate, isFile_of_locate_eq_error ((h.locate_eq p).trans hlocate)]
  | ok place =>
      have hplace := h place
      rw [isFile_of_locate hlocate, isFile_of_locate ((h.locate_eq p).trans hlocate), fileAt?, fileAt?]
      rcases hone : tree.occupant? place with _ | ⟨content⟩ | _ <;>
        rcases hother : other.occupant? place with _ | ⟨content'⟩ | _ <;>
        simp [hone, hother, Entry.content?] at hplace ⊢

/-! ## Another text in one file -/

/-- The tree with another text in the file with the names of a path. -/
def withText (tree : FileTree) (p : Path) (text : List Char) : FileTree :=
  tree.put p.names (.file (bytesOf (String.ofList text)))

theorem holdsFile_names (h : tree.isFile p = true) : tree.holdsFile p.names = true :=
  mem_files.mp (names_mem_files h)

section WithText

variable (h : tree.holdsFile p.names = true) (text : List Char)

include h

theorem names_ne_nil_of_holdsFile : p.names ≠ [] := by
  intro hnil
  rw [hnil] at h
  cases h

theorem sameShape_withText : tree.SameShape (tree.withText p text) := by
  intro place
  rw [withText, occupant?_put tree (names_ne_nil_of_holdsFile h)]
  split
  · rename_i hplace
    unfold holdsFile at h
    rw [hplace]
    split at h
    · rename_i hentry
      rw [hentry]
      rfl
    · cases h
  · rfl

theorem read_withText_of_ne (hq : tree.locate q ≠ .ok p.names) :
    (tree.withText p text).read q = tree.read q := by
  unfold read find
  rw [(sameShape_withText h text).locate_eq]
  cases hlocate : tree.locate q with
  | error fault => rfl
  | ok place =>
      have hplace : place ≠ p.names := by
        rintro rfl
        exact hq hlocate
      simp only [bind, Except.bind]
      rw [withText, occupant?_put tree (names_ne_nil_of_holdsFile h), if_neg hplace]

theorem readText_withText (hq : tree.locate q = .ok p.names) :
    (tree.withText p text).readText q = .ok (String.ofList text) := by
  unfold readText read find
  rw [(sameShape_withText h text).locate_eq, hq]
  simp only [bind, Except.bind]
  rw [withText, occupant?_put tree (names_ne_nil_of_holdsFile h), if_pos rfl]
  simp [stringOf?_bytesOf]

end WithText

end SiteServer.FileTree
