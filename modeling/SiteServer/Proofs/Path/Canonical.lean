import Mathlib.Data.List.Induction
import SiteServer.Proofs.Path

/-! # What the normal form of a path keeps and what it leaves out.

The normal form is what is reached from the empty path when the components are followed one by one: a name is
entered, and `..` goes back, which at the root leads nowhere. So slashes that are repeated or at the end do
not matter, and neither does it whether a directory is put into normal form before something is looked up in
it. -/

namespace SiteServer.Path

variable {absolute : Bool} {names : List String} {p q : Path}

/-! ## Following components -/

/-- The path that a component leads to: a name is put behind the path, and `..` takes the last component of
the path back, if it has one to take back. -/
def follow (p : Path) : Component → Path
  | .root => p.child "/"
  | .here => p
  | .up => p.parent?.getD p
  | .name text => p.child text

theorem IsName.isAbsolute_eq_false {text : String} (h : IsName text) :
    (Path.mk text).isAbsolute = false := by
  rw [Bool.eq_false_iff]
  intro habsolute
  rw [isAbsolute, beq_iff_eq] at habsolute
  exact h.noSlash (List.mem_of_mem_head? habsolute)

/-- A name is put behind the names of a path that is written from names. -/
theorem child_ofNames (h : ∀ n ∈ names, IsName n) {name : String} (hname : IsName name) :
    (ofNames absolute names).child name = ofNames absolute (names ++ [name]) := by
  rw [child, join, hname.isAbsolute_eq_false, if_neg Bool.false_ne_true]
  rcases List.eq_nil_or_concat names with rfl | ⟨outer, last, hnames⟩
  · have hend : (ofNames absolute []).text.toList = [] ∨
        (ofNames absolute []).text.toList.getLast? = some '/' := by
      cases absolute <;> simp [ofNames]
    rw [if_pos hend]
    refine congrArg Path.mk (String.toList_inj.mp ?_)
    simp [ofNames]
  · rw [List.concat_eq_append] at hnames
    have hlast : IsName last := h last (by simp [hnames])
    have htext : (ofNames absolute names).text.toList = (if absolute then ['/'] else []) ++
        List.intercalate ['/'] (outer.map String.toList ++ [[]]) ++ last.toList := by
      rw [toList_ofNames, hnames, List.append_assoc, intercalate_append]
      simp
    have hend : ¬ ((ofNames absolute names).text.toList = [] ∨
        (ofNames absolute names).text.toList.getLast? = some '/') := by
      rw [htext, List.getLast?_append_of_ne_nil _ hlast.ne_nil]
      rintro (hnil | hslash)
      · exact hlast.ne_nil (List.append_eq_nil_iff.mp hnil).2
      · exact hlast.noSlash (List.mem_of_getLast? hslash)
    have hparts : names.map String.toList ≠ [] := by simp [hnames]
    rw [if_neg hend]
    refine congrArg Path.mk (String.toList_inj.mp ?_)
    rw [String.toList_append, String.toList_append, toList_ofNames, String.toList_ofList,
      List.map_append, List.map_singleton, intercalate_concat hparts]
    simp

theorem ofComponents_names (h : ∀ n ∈ names, IsName n) :
    ofComponents ((if absolute then [.root] else []) ++ names.map .name) = ofNames absolute names := by
  induction names using List.reverseRecOn with
  | nil => cases absolute <;> rfl
  | append_singleton names name ih =>
      have hnames : ∀ n ∈ names, IsName n := fun n hn => h n (List.mem_append_left _ hn)
      have hname : IsName name := h name (by simp)
      rw [List.map_append, ← List.append_assoc, ofComponents, List.foldl_append, ← ofComponents,
        ih hnames]
      exact child_ofNames hnames hname

theorem parent?_ofNames (h : ∀ n ∈ names, IsName n) {name : String} (hname : IsName name) :
    (ofNames absolute (names ++ [name])).parent? = some (ofNames absolute names) := by
  have hall : ∀ n ∈ names ++ [name], IsName n := by
    simpa [or_imp, forall_and] using And.intro h hname
  rw [parent?, components_ofNames hall, List.map_append, ← List.append_assoc, List.map_singleton,
    List.reverse_append, List.reverse_singleton, List.singleton_append]
  dsimp only
  rw [List.reverse_reverse, ofComponents_names h]

/-- Where there is no name to take back, `..` leads nowhere. -/
theorem parent?_ofNames_nil : (ofNames absolute []).parent? = none := by
  cases absolute <;> decide

theorem follow_up (h : ∀ n ∈ names, IsName n) :
    (ofNames absolute names).follow .up = ofNames absolute names.dropLast := by
  rw [follow]
  rcases List.eq_nil_or_concat names with rfl | ⟨outer, last, hnames⟩
  · rw [parent?_ofNames_nil]
    rfl
  · rw [List.concat_eq_append] at hnames
    subst hnames
    have houter : ∀ n ∈ outer, IsName n := fun n hn => h n (List.mem_append_left _ hn)
    rw [parent?_ofNames houter (h last (by simp)), Option.getD_some, List.dropLast_concat]

/-- Components are followed to the path of the names that remain of them. -/
theorem foldl_follow {components : List Component} (h : ∀ n ∈ names, IsName n)
    (hroot : .root ∉ components) (hcomponents : ∀ text, .name text ∈ components → IsName text) :
    components.foldl follow (ofNames absolute names.reverse) =
      ofNames absolute (settleNames names components).reverse := by
  induction components generalizing names with
  | nil => rfl
  | cons c components ih =>
      have hreverse : ∀ n ∈ names.reverse, IsName n := fun n hn => h n (List.mem_reverse.mp hn)
      have hroot' : .root ∉ components := fun hmem => hroot (List.mem_cons_of_mem c hmem)
      have hcomponents' : ∀ text, .name text ∈ components → IsName text :=
        fun text hmem => hcomponents text (List.mem_cons_of_mem c hmem)
      rw [List.foldl_cons]
      cases c with
      | root => exact absurd List.mem_cons_self hroot
      | here => exact ih h hroot' hcomponents'
      | up =>
          rw [follow_up hreverse, List.dropLast_reverse, settleNames]
          exact ih (fun n hn => h n (List.mem_of_mem_tail hn)) hroot' hcomponents'
      | name text =>
          have htext : IsName text := hcomponents text List.mem_cons_self
          rw [follow, child_ofNames hreverse htext, ← List.reverse_cons, settleNames]
          refine ih ?_ hroot' hcomponents'
          simpa using And.intro htext h

theorem exists_components_eq (p : Path) :
    ∃ inner, p.components = (if p.isAbsolute then [.root] else []) ++ inner ∧ .root ∉ inner := by
  have hslices : .root ∉ (slices p.text.toList).filterMap component? := by
    rw [List.mem_filterMap]
    rintro ⟨slice, _, hslice⟩
    unfold component? at hslice
    split_ifs at hslice <;> cases hslice
  unfold components
  dsimp only
  split_ifs
  · exact ⟨_, rfl, hslices⟩
  · exact ⟨_, rfl, by simpa using hslices⟩
  · exact ⟨_, rfl, hslices⟩

/-- The normal form of a path is where its components lead from the empty path. -/
theorem foldl_follow_components (p : Path) : p.components.foldl follow ⟨""⟩ = p.normalize := by
  obtain ⟨inner, hinner, hroot⟩ := exists_components_eq p
  have hstart : (if p.isAbsolute then [Component.root] else []).foldl follow ⟨""⟩ =
      ofNames p.isAbsolute [].reverse := by
    cases p.isAbsolute <;> decide
  have hnames : settleNames [] inner = settleNames [] p.components := by
    rw [hinner]
    split_ifs <;> rfl
  rw [normalize, Path.names, ← hnames, hinner, List.foldl_append, hstart]
  refine foldl_follow (by simp) hroot ?_
  intro text hmem
  apply isName_of_mem_components (p := p)
  rw [hinner]
  exact List.mem_append_right _ hmem

/-! ## Slashes -/

theorem isAbsolute_eq_head? (p : Path) : p.isAbsolute = (p.components.head? == some .root) := by
  obtain ⟨inner, hinner, hroot⟩ := exists_components_eq p
  rw [hinner]
  cases p.isAbsolute with
  | true => rfl
  | false =>
      cases inner with
      | nil => rfl
      | cons c inner =>
          have hc : c ≠ .root := fun heq => hroot (heq ▸ List.mem_cons_self)
          simpa using hc

/-- However they are written, paths that are the same have the same normal form. -/
theorem normalize_congr (h : p.components = q.components) : p.normalize = q.normalize := by
  rw [normalize, normalize, Path.names, Path.names, isAbsolute_eq_head?, isAbsolute_eq_head? q, h]

def slashes (count : Nat) : String :=
  String.ofList (List.replicate count '/')

theorem filterMap_slices_slashes (count : Nat) (after : List Char) :
    (slices (List.replicate count '/' ++ after)).filterMap component? =
      (slices after).filterMap component? := by
  induction count with
  | zero => rfl
  | succ count ih =>
      rw [List.replicate_succ, List.cons_append, slices_cons_slash, List.filterMap_cons]
      exact ih

theorem components_slashes (before after : String) (count : Nat) :
    (Path.mk (before ++ slashes (count + 1) ++ after)).components =
      (Path.mk (before ++ "/" ++ after)).components := by
  have hmany : before ++ slashes (count + 1) ++ after =
      .ofList (before.toList ++ '/' :: (List.replicate count '/' ++ after.toList)) := by
    apply String.toList_inj.mp
    simp [slashes, List.replicate_succ]
  have hone : before ++ "/" ++ after = .ofList (before.toList ++ '/' :: after.toList) := by
    apply String.toList_inj.mp
    simp
  rw [hmany, hone, components_append_slash before.toList (_ ++ _),
    components_append_slash before.toList after.toList, filterMap_slices_slashes]

theorem components_slashes_end {text : String} (h : text ≠ "") (count : Nat) :
    (Path.mk (text ++ slashes count)).components = (Path.mk text).components := by
  cases count with
  | zero =>
      rw [show slashes 0 = "" from rfl, String.append_empty]
  | succ count =>
      have hnil : text.toList ≠ [] := fun hnil => h (String.toList_inj.mp hnil)
      have hone : text ++ "/" ++ "" = .ofList (text.toList ++ ['/']) := by
        apply String.toList_inj.mp
        simp
      rw [← String.append_empty (s := text ++ slashes (count + 1)), components_slashes, hone,
        components_append_slash_end hnil, String.ofList_toList]

/-! ## Paths inside directories -/

theorem names_normalize (p : Path) : p.normalize.names = p.names :=
  names_ofNames fun _ => isName_of_mem_names

/-- It does not matter whether a directory is put into normal form before a path inside it. -/
theorem normalize_join (hq : q.isAbsolute = false) :
    (p.join q).normalize = (p.normalize.join q).normalize := by
  rw [normalize, normalize, isAbsolute_join_of_relative hq, isAbsolute_join_of_relative hq,
    isAbsolute_normalize, names_join hq, names_join hq, names_normalize]

theorem names_join_name {name : String} (h : IsName name) :
    (p.join ⟨name⟩).names = p.names ++ [name] := by
  have hcomponents : (Path.mk name).components = [.name name] := by
    have hself : Path.mk name = ofNames false [name] := by simp [ofNames]
    rw [hself]
    exact components_ofNames (by simpa using h)
  rw [names_join h.isAbsolute_eq_false, hcomponents]
  simp [settleNames]

theorem names_join_up : (p.join ⟨".."⟩).names = p.names.dropLast := by
  have hcomponents : (Path.mk "..").components = [.up] := by decide +kernel
  rw [names_join (by decide), hcomponents]
  simp [settleNames]

/-- Components that are put behind a path one by one settle on its names. -/
theorem names_foldl_child {components : List Component}
    (h : ∀ c ∈ components, c = .up ∨ ∃ name, c = .name name ∧ IsName name) (start : Path) :
    (components.foldl (fun q c => q.child (componentText c)) start).names =
      (settleNames start.names.reverse components).reverse := by
  induction components generalizing start with
  | nil => exact (List.reverse_reverse _).symm
  | cons c rest ih =>
      rw [List.foldl_cons, ih fun d hd => h d (List.mem_cons_of_mem c hd)]
      rcases h c List.mem_cons_self with rfl | ⟨name, rfl, hname⟩
      · have hup : (start.child (componentText .up)).names = start.names.dropLast := names_join_up
        rw [hup, settleNames, List.tail_reverse]
      · have hnext : (start.child (componentText (.name name))).names = start.names ++ [name] :=
          names_join_name hname
        rw [hnext, settleNames, List.reverse_concat]

/-- The parent of a path that ends in a name has all names of the path but this one. -/
theorem exists_parent? (h : p.isAbsolute) {name : String} (hname : p.fileName? = some name) :
    ∃ parent, p.parent? = some parent ∧ parent.isAbsolute ∧ p.names = parent.names ++ [name] := by
  obtain ⟨inner, hinner, hsteps⟩ := components_of_isAbsolute h
  rcases List.eq_nil_or_concat inner with hnil | ⟨outer, last, hlast⟩
  · rw [fileName?, hinner, hnil] at hname
    cases hname
  · rw [List.concat_eq_append] at hlast
    have hcomponents : p.components = (.root :: outer) ++ [last] := by rw [hinner, hlast, List.cons_append]
    rw [fileName?, hcomponents, List.getLast?_concat] at hname
    obtain rfl : last = .name name := by
      cases last <;> simp_all
    have houter : ∀ c ∈ outer, c = .up ∨ ∃ text, c = .name text ∧ IsName text := by
      intro c hc
      rcases hsteps c (by simp [hlast, hc]) with hup | ⟨text, rfl⟩
      · exact .inl hup
      · exact .inr ⟨text, rfl, isName_of_mem_components (p := p) (by simp [hcomponents, hc])⟩
    have hstart : ((Path.mk "").child (componentText .root)).names = [] := by decide +kernel
    have hparent : (ofComponents (.root :: outer)).names = (settleNames [] outer).reverse := by
      rw [ofComponents, List.foldl_cons, names_foldl_child houter, hstart]
      rfl
    refine ⟨ofComponents (.root :: outer), ?_, isAbsolute_ofComponents outer, ?_⟩
    · rw [parent?, hcomponents, List.reverse_concat]
      exact congrArg (fun components => some (ofComponents components)) (List.reverse_reverse _)
    · rw [hparent, Path.names, hcomponents, settleNames_append]
      exact List.reverse_cons

theorem settleNames_filter (names : List String) (components : List Component) :
    settleNames names (components.filter fun c => c ≠ .root ∧ c ≠ .here) = settleNames names components := by
  induction components generalizing names with
  | nil => rfl
  | cons c rest ih =>
      cases c with
      | root => exact ih names
      | here => exact ih names
      | up => exact ih names.tail
      | name text => exact ih (text :: names)

/-- The absolute form of a path has the names of the path. -/
theorem names_absolute? (h : p.absolute? = some q) : q.names = p.names := by
  have hinner : ∀ c ∈ p.components.filter (fun c => c ≠ .root ∧ c ≠ .here),
      c = .up ∨ ∃ name, c = .name name ∧ IsName name := by
    intro c hc
    obtain ⟨hmem, hkept⟩ := List.mem_filter.mp hc
    cases c with
    | root => simp at hkept
    | here => simp at hkept
    | up => exact .inl rfl
    | name name => exact .inr ⟨name, rfl, isName_of_mem_components hmem⟩
  have hwhole (start : Path) (hstart : start.names = []) :
      ((p.components.filter fun c => c ≠ .root ∧ c ≠ .here).foldl
        (fun q c => q.child (componentText c)) start).names = p.names := by
    rw [names_foldl_child hinner, hstart, List.reverse_nil, settleNames_filter, Path.names]
  have hempty (whole : Path) : (whole.child "").names = whole.names := by
    have hcomponents : (Path.mk "").components = [] := by decide +kernel
    rw [child, names_join (by decide), hcomponents, settleNames, List.reverse_reverse]
  have hone : (Path.mk "/").names = [] := by decide +kernel
  have htwo : (Path.mk "//").names = [] := by decide +kernel
  rw [absolute?] at h
  split at h
  · cases h
  · dsimp only at h
    cases h
    split_ifs
    · rw [hempty, hwhole _ htwo]
    · rw [hempty, hwhole _ hone]
    · rw [hwhole _ htwo]
    · rw [hwhole _ hone]

example : (Path.mk "./a/./b/").absolute? = some ⟨"/a/b/"⟩ := by decide +kernel

structure Canonical (p : Path) : Prop where
  absolute : p.normalize.isAbsolute = true
  noDots : .here ∉ p.normalize.components ∧ .up ∉ p.normalize.components
  /-- It is written from names, with one slash before each. -/
  written : ∃ names, (∀ n ∈ names, IsName n) ∧ p.normalize = ofNames true names
  /-- It is where the components lead, followed one by one from the empty path. -/
  followed : p.components.foldl follow ⟨""⟩ = p.normalize
  settled : p.normalize.normalize = p.normalize
  /-- A slash may be written any number of times, -/
  repeated : ∀ before after count, p.text = before ++ "/" ++ after →
    (Path.mk (before ++ slashes (count + 1) ++ after)).normalize = p.normalize
  /-- and any number of them at the end. -/
  trailing : ∀ count, (Path.mk (p.text ++ slashes count)).normalize = p.normalize
  /-- `..` takes back the name before it; -/
  back : ∀ name, IsName name → ((p.join ⟨name⟩).join ⟨".."⟩).normalize = p.normalize
  /-- at the root there is none. -/
  atRoot : p.normalize = ⟨"/"⟩ → (p.join ⟨".."⟩).normalize = ⟨"/"⟩
  /-- A path inside it is the same path inside its normal form. -/
  early : ∀ q : Path, q.isAbsolute = false → (p.join q).normalize = (p.normalize.join q).normalize

/-- The normal form of an absolute path is absolute, without `.` and `..`, and its own normal form. It does not
depend on how many slashes stand between names or at the end; `..` takes back the name before it, and at the
root nothing; and a path inside has one normal form, whether it is taken early or late. -/
theorem normalize_canonical (h : p.isAbsolute = true) : Canonical p where
  absolute := by rw [isAbsolute_normalize, h]
  noDots := by
    rw [components_of_normalize (normalize_normalize p), isAbsolute_normalize, h]
    simp
  written := by
    refine ⟨p.names, fun _ => isName_of_mem_names, ?_⟩
    rw [normalize, h]
  followed := foldl_follow_components p
  settled := normalize_normalize p
  repeated := by
    intro before after count htext
    apply normalize_congr
    rw [components_slashes, ← htext]
  trailing := by
    intro count
    apply normalize_congr
    apply components_slashes_end
    intro hempty
    rw [isAbsolute, hempty] at h
    cases h
  back := by
    intro name hname
    have hup : (Path.mk "..").isAbsolute = false := by decide
    rw [normalize, isAbsolute_join_of_relative hup, names_join_up, names_join_name hname,
      isAbsolute_join_of_relative hname.isAbsolute_eq_false, List.dropLast_concat, ← normalize]
  atRoot := by
    intro hroot
    have hnames : p.names = [] := by
      rw [← names_normalize, hroot]
      decide +kernel
    rw [normalize, isAbsolute_join_of_relative (by decide), names_join_up, hnames, h]
    decide
  early := fun _ => normalize_join

/-- A path with all that a normal form leaves out. -/
theorem normalize_canonical_roundabout :
    (Path.mk "//a/./b/../..//../c/").isAbsolute = true ∧
      (Path.mk "//a/./b/../..//../c/").normalize = ⟨"/c"⟩ ∧
      Canonical ⟨"//a/./b/../..//../c/"⟩ :=
  ⟨by decide, by decide +kernel, normalize_canonical (by decide)⟩

end SiteServer.Path
