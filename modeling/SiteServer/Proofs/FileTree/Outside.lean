import SiteServer.Proofs.FileTree
import SiteServer.Proofs.FileTree.Removal
import SiteServer.Proofs.Path.Canonical

/-! # Changes inside a directory.

A path in normal form is walked along its names. If these do not go on behind those of a directory, it makes no
difference what is inside, and files that are written or removed there do not show. -/

namespace SiteServer.FileTree

variable {tree other : FileTree} {dir place : Location} {p : Path}

/-! ## Inside and outside -/

/-- A place is inside a directory, which is not inside itself. -/
def Inside (dir place : Location) : Prop :=
  dir <+: place ∧ place ≠ dir

instance : Decidable (Inside dir place) :=
  inferInstanceAs (Decidable (_ ∧ _))

theorem inside_append (dir : Location) {names : List String} (h : names ≠ []) : Inside dir (dir ++ names) :=
  ⟨List.prefix_append dir names, fun heq => h (List.append_right_eq_self.mp heq)⟩

theorem Inside.ne_nil (h : Inside dir place) : place ≠ [] := by
  rintro rfl
  exact h.2 (List.prefix_nil.mp h.1).symm

/-- What is below a place inside is inside. -/
theorem Inside.of_prefix {outer : Location} (h : Inside dir outer) (hplace : outer <+: place) :
    Inside dir place := by
  refine ⟨h.1.trans hplace, ?_⟩
  rintro rfl
  exact h.2 (hplace.eq_of_length_le h.1.length_le)

/-- Two trees have the same everywhere but inside a directory. -/
def SameOutside (dir : Location) (tree other : FileTree) : Prop :=
  ∀ place, ¬ Inside dir place → other.occupant? place = tree.occupant? place

namespace SameOutside

theorem refl (dir : Location) (tree : FileTree) : SameOutside dir tree tree :=
  fun _ _ => rfl

theorem put (h : SameOutside dir tree other) (hplace : Inside dir place) (entry : Entry) :
    SameOutside dir tree (other.put place entry) := by
  intro outer houter
  have hne : outer ≠ place := fun heq => houter (heq ▸ hplace)
  rw [occupant?_put other hplace.ne_nil, if_neg hne, h outer houter]

theorem clear (h : SameOutside dir tree other) (hplace : Inside dir place) :
    SameOutside dir tree (other.clear place) := by
  intro outer houter
  have hne : outer ≠ place := fun heq => houter (heq ▸ hplace)
  rw [occupant?_clear other hplace.ne_nil, if_neg hne, h outer houter]

/-! ## Looking outside -/

theorem walk_names (h : SameOutside dir tree other) {names : List String}
    (hnames : ∀ n ∈ names, Path.IsName n) (hplace : ¬ Inside dir (place ++ names)) :
    other.walk place (names.map String.toList) = tree.walk place (names.map String.toList) := by
  induction names generalizing place with
  | nil => rfl
  | cons n rest ih =>
      have hn := hnames n List.mem_cons_self
      have hstart : ¬ Inside dir place := fun hinside => hplace (hinside.of_prefix (List.prefix_append _ _))
      have hnext : ¬ Inside dir (place ++ [n]) := fun hinside => hplace (hinside.of_prefix (by simp))
      have hend : ¬ Inside dir (place ++ [n] ++ rest) := by
        rwa [List.append_assoc, List.singleton_append]
      have hrest := ih (fun m hm => hnames m (List.mem_cons_of_mem n hm)) hend
      rw [List.map_cons, walk, walk, h place hstart]
      cases tree.occupant? place with
      | none => rfl
      | some entry =>
          cases entry with
          | file content => rfl
          | directory =>
              dsimp only
              rw [if_neg hn.not_here, if_neg hn.not_here, if_neg hn.not_up, if_neg hn.not_up,
                String.ofList_toList, h _ hnext, hrest]

theorem locate_eq (h : SameOutside dir tree other) (hnormal : p.normalize = p)
    (hp : ¬ Inside dir p.names) : other.locate p = tree.locate p := by
  have hnames : ∀ n ∈ p.names, Path.IsName n := fun _ => Path.isName_of_mem_names
  have hwalk : other.walk [] (p.names.map String.toList) = tree.walk [] (p.names.map String.toList) :=
    h.walk_names hnames hp
  rw [← hnormal, Path.normalize, locate_ofNames other hnames, locate_ofNames tree hnames, hwalk]

theorem find_eq (h : SameOutside dir tree other) (hnormal : p.normalize = p)
    (hp : ¬ Inside dir p.names) : other.find p = tree.find p := by
  rw [find, find, h.locate_eq hnormal hp]
  cases hfound : tree.locate p with
  | error fault => rfl
  | ok place =>
      rw [← eq_names_of_locate hfound] at hp
      simp only [bind, Except.bind]
      rw [h place hp]

theorem read_eq (h : SameOutside dir tree other) (hnormal : p.normalize = p)
    (hp : ¬ Inside dir p.names) : other.read p = tree.read p := by
  rw [read, read, h.find_eq hnormal hp]

theorem isDirectory_eq (h : SameOutside dir tree other) (hnormal : p.normalize = p)
    (hp : ¬ Inside dir p.names) : other.isDirectory p = tree.isDirectory p := by
  rw [isDirectory, isDirectory, h.find_eq hnormal hp]

end SameOutside

/-! ## Files inside -/

/-- A path names the place with the names of its normal form. -/
theorem Leads.eq_names (h : tree.Leads p place) : place = p.names := by
  cases hentry : tree.occupant? place with
  | some entry =>
      have hlocate := h.locate_eq
      rw [hentry] at hlocate
      exact eq_names_of_locate hlocate
  | none =>
      have hfree : tree.occupant? place ≠ some .directory := by simp [hentry]
      have hkeeps := keepsDirectories_put h.ne_nil hfree (.file [])
      have hlocate := (h.of_keepsDirectories hkeeps).locate_eq
      rw [occupant?_put tree h.ne_nil, if_pos rfl] at hlocate
      exact eq_names_of_locate hlocate

theorem SameOutside.write {left : FileTree} {content : Bytes} (h : SameOutside dir tree other)
    (hp : Inside dir p.names) (hwrite : other.write p content = .ok left) :
    SameOutside dir tree left := by
  obtain ⟨place, hleads, _, rfl⟩ := leads_of_write hwrite
  rw [hleads.eq_names]
  exact h.put hp _

theorem SameOutside.remove {left : FileTree} (h : SameOutside dir tree other)
    (hp : Inside dir p.names) (hremove : other.remove p = .ok left) : SameOutside dir tree left := by
  obtain ⟨place, hplace, rfl⟩ := remove_eq_ok_iff.mp hremove
  rw [(fileOf?_eq_some_iff.mp hplace).1.eq_names]
  exact h.clear hp

/-! ## Directories that are there -/

theorem exists_locate_of_isDirectory (h : tree.isDirectory p = true) :
    ∃ place, tree.locate p = .ok place ∧ tree.occupant? place = some .directory := by
  rw [isDirectory, find] at h
  cases hplace : tree.locate p with
  | error fault =>
      rw [hplace] at h
      cases h
  | ok place =>
      rw [hplace] at h
      refine ⟨place, rfl, ?_⟩
      cases hentry : tree.occupant? place with
      | none =>
          simp only [bind, Except.bind, hentry] at h
          cases h
      | some entry =>
          cases entry with
          | file content =>
              simp only [bind, Except.bind, hentry] at h
              cases h
          | directory => rfl

/-- A path that is written from names has the last of them as its last part. -/
theorem target?_ofNames {absolute : Bool} {outer : List String} {last : String}
    (h : ∀ n ∈ outer ++ [last], Path.IsName n) :
    target? (Path.ofNames absolute (outer ++ [last])).text.toList =
      some ⟨(if absolute then [[]] else []) ++ outer.map String.toList, last.toList, false⟩ := by
  have hlast : last.toList ≠ [] := (h last (by simp)).ne_nil
  have hne : outer ++ [last] ≠ [] := by simp
  rw [target?, Path.slices_ofNames h, if_neg hne, List.map_append, List.map_singleton,
    ← List.append_assoc]
  simp [hlast]

/-- A path that is written from names leads to a directory by the last of them. -/
theorem leads_of_locate_ofNames {absolute : Bool} {outer : List String} {last : String}
    (hnames : ∀ n ∈ outer ++ [last], Path.IsName n)
    (h : tree.locate (.ofNames absolute (outer ++ [last])) = .ok place)
    (hplace : tree.occupant? place = some .directory) :
    tree.Leads (.ofNames absolute (outer ++ [last])) place := by
  have hlast := hnames last (by simp)
  obtain rfl : place = outer ++ [last] := (eq_names_of_locate h).trans (Path.names_ofNames hnames)
  obtain ⟨hcheck, -⟩ := locate_eq_ok_iff.mp h
  rw [locate_ofNames tree hnames, hcheck] at h
  change tree.walk [] ((outer ++ [last]).map String.toList) = _ at h
  rw [List.map_append, List.map_singleton, walk_append_eq_ok_iff] at h
  obtain ⟨holder, hbefore, hlastWalk⟩ := h
  have hholder := directory_of_walk hlastWalk hplace
  obtain rfl := walk_names (fun n hn => hnames n (List.mem_append_left _ hn)) hbefore
  rw [walk, hholder] at hlastWalk
  dsimp only at hlastWalk
  rw [if_neg hlast.not_here, if_neg hlast.not_up] at hlastWalk
  have hshort : Text.Utf8.byteSize last.toList ≤ nameLimit := by
    by_contra hlong
    rw [if_pos (Nat.lt_of_not_le hlong)] at hlastWalk
    cases hlastWalk
  have hname : isName last.toList = true := by
    rw [isName, Bool.and_eq_true, decide_eq_true_eq, decide_eq_true_eq]
    exact ⟨fun hhere => hlast.not_here (.inr hhere), hlast.not_up⟩
  refine ⟨hcheck, target?_ofNames hnames, hname, namedPlace_eq_ok_iff.mpr ⟨_, ?_, hholder, hshort, ?_⟩⟩
  · cases absolute with
    | true => exact (walk_nil_cons _).trans hbefore
    | false => exact hbefore
  · rw [String.ofList_toList]

theorem makeDirectory_of_isDirectory (hnormal : p.normalize = p) (h : tree.isDirectory p = true) :
    tree.makeDirectory p = .error .exists := by
  obtain ⟨place, hlocate, hplace⟩ := exists_locate_of_isDirectory h
  have hnames : ∀ n ∈ p.names, Path.IsName n := fun _ => Path.isName_of_mem_names
  rw [← hnormal, Path.normalize] at hlocate ⊢
  generalize p.isAbsolute = absolute at hlocate ⊢
  rcases List.eq_nil_or_concat p.names with hnil | ⟨outer, last, hlast⟩
  · obtain ⟨hcheck, -⟩ := locate_eq_ok_iff.mp hlocate
    rw [hnil] at hcheck ⊢
    cases absolute with
    | true => rfl
    | false => cases hcheck
  · rw [List.concat_eq_append] at hlast
    rw [hlast] at hlocate hnames ⊢
    obtain ⟨checked, target, name, named⟩ := leads_of_locate_ofNames hnames hlocate hplace
    rw [makeDirectory]
    simp only [bind, Except.bind, checked, target, name, named, hplace]
    rfl

/-- A directory that is there is not made. -/
theorem makeDirectories_of_isDirectory (hnormal : p.normalize = p) (h : tree.isDirectory p = true) :
    tree.makeDirectories p = (.ok (), tree) := by
  have hmade := makeDirectory_of_isDirectory hnormal h
  rw [makeDirectories, makeDirectoriesWithin, hmade]
  dsimp only
  rw [if_pos h, ite_self]

end SiteServer.FileTree
