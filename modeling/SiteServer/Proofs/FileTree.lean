import Mathlib.Data.List.Dedup
import Mathlib.Data.List.Perm.Subperm
import SiteServer.Proofs.FileTree.Removal
import SiteServer.Proofs.Path

/-! # The regular files of a tree, and the paths in normal form that lead to them.

A path in normal form leads to the place that has its names. There are as many such paths to regular
files as there are files, once it is settled whether they start at the root. -/

namespace SiteServer

/-! ## Files -/

namespace FileTree

variable {tree : FileTree}

def holdsFile (tree : FileTree) (place : Location) : Bool :=
  match tree.occupant? place with
  | some (.file _) => true
  | _ => false

theorem holdsFile_eq (tree : FileTree) (place : Location) :
    tree.holdsFile place = (tree.fileAt? place).isSome := by
  unfold holdsFile fileAt?
  rcases tree.occupant? place with _ | ⟨content⟩ | _ <;> rfl

def files (tree : FileTree) : List Location :=
  (tree.entries.map Prod.fst).dedup.filter tree.holdsFile

theorem mem_files {place : Location} : place ∈ tree.files ↔ tree.holdsFile place = true := by
  refine ⟨fun h => (List.mem_filter.mp h).2, fun h => ?_⟩
  refine List.mem_filter.mpr ⟨List.mem_dedup.mpr ?_, h⟩
  cases place with
  | nil => cases h
  | cons name rest =>
      unfold holdsFile at h
      cases hentry : tree.occupant? (name :: rest) with
      | none =>
          rw [hentry] at h
          cases h
      | some entry =>
          obtain ⟨before, after, hentries, _⟩ := List.lookup_eq_some_iff.mp hentry
          rw [hentries]
          simp

theorem isFile_iff {p : Path} :
    tree.isFile p = true ↔ ∃ place, tree.locate p = .ok place ∧ tree.holdsFile place = true := by
  unfold isFile content? find holdsFile
  cases tree.locate p with
  | error fault => simp [bind, Except.bind]
  | ok place =>
      simp only [bind, Except.bind, Except.ok.injEq, exists_eq_left']
      cases tree.occupant? place with
      | none => simp
      | some entry => cases entry <;> simp

/-! ## Walking along names -/

theorem walk_nil_cons (slices : List (List Char)) :
    tree.walk [] ([] :: slices) = tree.walk [] slices := by
  simp [walk, occupant?]

/-- A walk leads to the place with the names that its parts leave over, if it leads anywhere. -/
theorem eq_settleNames_of_walk {place found : Location} {slices : List (List Char)}
    (h : tree.walk place slices = .ok found) :
    found = (Path.settleNames place.reverse (slices.filterMap Path.component?)).reverse := by
  induction slices generalizing place with
  | nil =>
      cases h
      exact (List.reverse_reverse _).symm
  | cons slice rest ih =>
      rw [walk] at h
      cases hentry : tree.occupant? place with
      | none =>
          rw [hentry] at h
          cases h
      | some entry =>
          rw [hentry] at h
          cases entry with
          | file content => cases h
          | directory =>
              dsimp only at h
              rw [List.filterMap_cons, Path.component?]
              split_ifs at h ⊢ with hhere hup
              · exact ih h
              · rw [ih h, ← List.tail_reverse]
                rfl
              · rw [ih h, List.reverse_append]
                rfl

/-- Names lead from a place to the place below it that they name. -/
theorem walk_names {names : List String} {place found : Location}
    (hnames : ∀ n ∈ names, Path.IsName n)
    (h : tree.walk place (names.map String.toList) = .ok found) : found = place ++ names := by
  rw [eq_settleNames_of_walk h, Path.filterMap_component? hnames, Path.settleNames_names,
    List.reverse_append, List.reverse_reverse, List.reverse_reverse]

/-- A path that is written from names is walked along them. -/
theorem locate_ofNames (tree : FileTree) {absolute : Bool} {names : List String}
    (hnames : ∀ n ∈ names, Path.IsName n) :
    tree.locate (.ofNames absolute names) =
      (checkText (Path.ofNames absolute names).text.toList).bind fun _ =>
        tree.walk [] (names.map String.toList) := by
  have hparts : tree.walk [] (if names = [] then [[]] else names.map String.toList) =
      tree.walk [] (names.map String.toList) := by
    by_cases hnil : names = []
    · rw [if_pos hnil, hnil]
      exact walk_nil_cons []
    · rw [if_neg hnil]
  have hslices : tree.walk [] (Path.slices (Path.ofNames absolute names).text.toList) =
      tree.walk [] (names.map String.toList) := by
    rw [Path.slices_ofNames hnames, ← hparts]
    cases absolute with
    | true => exact walk_nil_cons _
    | false => rfl
  rw [← hslices]
  rfl

/-- A path leads to the place with the names of its normal form, if it leads anywhere. -/
theorem eq_names_of_locate {p : Path} {found : Location} (h : tree.locate p = .ok found) :
    found = p.names := by
  obtain ⟨_, hwalk⟩ := locate_eq_ok_iff.mp h
  rw [eq_settleNames_of_walk hwalk, Path.names, Path.settleNames_components]
  rfl

/-- A path that leads to a regular file leads to the file with the names of its normal form. -/
theorem locate_of_isFile {p : Path} (h : tree.isFile p = true) :
    tree.locate p = .ok p.names ∧ p.names ∈ tree.files := by
  obtain ⟨place, hplace, hfile⟩ := isFile_iff.mp h
  rw [← eq_names_of_locate hplace]
  exact ⟨hplace, mem_files.mpr hfile⟩

theorem names_mem_files {p : Path} (h : tree.isFile p = true) : p.names ∈ tree.files :=
  (locate_of_isFile h).2

theorem readText_congr {p q : Path} (hp : tree.isFile p = true) (hq : tree.isFile q = true)
    (h : p.names = q.names) : tree.readText p = tree.readText q := by
  have hlocate : tree.locate p = tree.locate q := by
    rw [(locate_of_isFile hp).1, (locate_of_isFile hq).1, h]
  unfold readText read find
  rw [hlocate]

/-- A file has one path in normal form that starts at the root, and one that does not. -/
theorem eq_of_locate_eq {p q : Path} (hp : p.normalize = p) (hq : q.normalize = q)
    (habs : p.isAbsolute = q.isAbsolute) (hfileP : tree.isFile p = true)
    (hfileQ : tree.isFile q = true) (h : tree.locate p = tree.locate q) : p = q := by
  rw [(locate_of_isFile hfileP).1, (locate_of_isFile hfileQ).1] at h
  exact Path.eq_of_names_eq hp hq habs (Except.ok.inj h)

/-- What is a regular file is no directory. -/
theorem isDirectory_of_isFile {p : Path} (h : tree.isFile p = true) : tree.isDirectory p = false := by
  unfold isFile content? at h
  unfold isDirectory
  split at h
  · rename_i hfind
    rw [hfind]
  · cases h

/-! ## Extensions -/

/-- An extension that is appended to the root, or to the empty path, gives a name or leads to a
directory. -/
theorem isName_of_isFile_extension {absolute : Bool} {extension : String}
    (hext : '/' ∉ extension.toList)
    (h : tree.isFile ((Path.ofNames absolute []).appendExtension extension) = true) :
    Path.IsName ("." ++ extension) := by
  obtain ⟨place, hplace, hfile⟩ := isFile_iff.mp h
  have hslash : '/' ∉ '.' :: extension.toList := by simpa using hext
  have hslices : Path.slices ((Path.ofNames absolute []).appendExtension extension).text.toList =
      (if absolute then [[]] else []) ++ ['.' :: extension.toList] := by
    have htext : ((Path.ofNames absolute []).appendExtension extension).text.toList =
        (if absolute then ['/'] else []) ++ '.' :: extension.toList := by
      cases absolute <;> simp [Path.appendExtension, Path.ofNames]
    rw [htext]
    cases absolute with
    | true =>
        rw [if_pos rfl, if_pos rfl, List.singleton_append, Path.slices_cons_slash,
          Path.slices_of_noSlash hslash]
        rfl
    | false => exact Path.slices_of_noSlash hslash
  rw [holdsFile_eq] at hfile
  obtain ⟨before, last, _, hlast, _, _, hne, hname, _⟩ := exists_last_of_locate hplace hfile
  rw [hslices] at hlast
  obtain ⟨-, rfl⟩ := List.append_singleton_inj.mp hlast
  obtain ⟨hhere, hup⟩ : '.' :: extension.toList ≠ ['.'] ∧ '.' :: extension.toList ≠ ['.', '.'] := by
    simpa [isName] using hname
  have htext : String.ofList ('.' :: extension.toList) = "." ++ extension :=
    String.toList_inj.mp (by simp)
  refine Path.isName_of_component? hslash ?_
  rw [Path.component?, if_neg (not_or.mpr ⟨hne, hhere⟩), if_neg hup, htext]

/-- A regular file that is found by appending an extension to a path in normal form has a path in
normal form. -/
theorem normalize_appendExtension {base : Path} {extension : String}
    (hbase : base.normalize = base) (hext : '/' ∉ extension.toList)
    (h : tree.isFile (base.appendExtension extension) = true) :
    (base.appendExtension extension).normalize = base.appendExtension extension ∧
      (base.appendExtension extension).isAbsolute = base.isAbsolute := by
  have hnames : ∀ n ∈ base.names, Path.IsName n := fun n hn => Path.isName_of_mem_names hn
  suffices ∃ names, (∀ n ∈ names, Path.IsName n) ∧
      base.appendExtension extension = Path.ofNames base.isAbsolute names by
    obtain ⟨names, hall, heq⟩ := this
    rw [heq]
    exact ⟨Path.normalize_ofNames hall, Path.isAbsolute_ofNames hall⟩
  unfold Path.normalize at hbase
  generalize base.isAbsolute = absolute at hbase ⊢
  generalize base.names = names at hbase hnames
  subst hbase
  rcases List.eq_nil_or_concat names with rfl | ⟨outer, last, rfl⟩
  · refine ⟨["." ++ extension], ?_, ?_⟩
    · intro n hn
      rw [List.mem_singleton.mp hn]
      exact isName_of_isFile_extension hext h
    · refine congrArg Path.mk (String.toList_inj.mp ?_)
      cases absolute <;> simp [Path.ofNames]
  · rw [List.concat_eq_append] at hnames ⊢
    refine ⟨outer ++ [last ++ "." ++ extension], ?_, Path.appendExtension_ofNames outer last _⟩
    intro n hn
    rcases List.mem_append.mp hn with hn | hn
    · exact hnames n (List.mem_append_left _ hn)
    · rw [List.mem_singleton.mp hn]
      exact Path.isName_append_extension (hnames last (by simp)) hext

/-! ## How many files paths lead to -/

/-- Different paths in normal form that all start at the root, or all do not, lead to different
files. -/
theorem length_le_files {paths : List Path} {absolute : Bool} (hdistinct : paths.Nodup)
    (hnormal : ∀ p ∈ paths, p.normalize = p) (habs : ∀ p ∈ paths, p.isAbsolute = absolute)
    (hfile : ∀ p ∈ paths, tree.isFile p = true) : paths.length ≤ tree.files.length := by
  have hnodup : (paths.map Path.names).Nodup := by
    refine hdistinct.map_on ?_
    intro p hp q hq hnames
    exact Path.eq_of_names_eq (hnormal p hp) (hnormal q hq)
      ((habs p hp).trans (habs q hq).symm) hnames
  have hsubset : paths.map Path.names ⊆ tree.files := by
    intro names hmem
    obtain ⟨p, hp, rfl⟩ := List.mem_map.mp hmem
    exact names_mem_files (hfile p hp)
  have := (List.subperm_of_subset hnodup hsubset).length_le
  rwa [List.length_map] at this

/-- A file has at most two paths in normal form. -/
theorem length_le_two_mul_files {paths : List Path} (hdistinct : paths.Nodup)
    (hnormal : ∀ p ∈ paths, p.normalize = p) (hfile : ∀ p ∈ paths, tree.isFile p = true) :
    paths.length ≤ 2 * tree.files.length := by
  have hpart (absolute : Bool) :
      (paths.filter fun p => p.isAbsolute == absolute).length ≤ tree.files.length := by
    have habs : ∀ p ∈ paths.filter fun p => p.isAbsolute == absolute, p.isAbsolute = absolute :=
      fun p hp => beq_iff_eq.mp (List.mem_filter.mp hp).2
    refine length_le_files (hdistinct.filter _) ?_ habs ?_
    · exact fun p hp => hnormal p (List.mem_of_mem_filter hp)
    · exact fun p hp => hfile p (List.mem_of_mem_filter hp)
  have hboth := List.length_eq_length_filter_add (l := paths) fun p => p.isAbsolute == true
  have hother : (paths.filter fun p => !(p.isAbsolute == true)) =
      paths.filter fun p => p.isAbsolute == false := by
    refine List.filter_congr fun p _ => ?_
    cases p.isAbsolute <;> rfl
  rw [hother] at hboth
  have := hpart true
  have := hpart false
  omega

end FileTree

end SiteServer
