import Mathlib.Data.List.Basic
import Mathlib.Data.List.TakeWhile
import SiteServer.Path

/-! # Normal forms of paths.

A path in normal form is written from its names alone: no `.`, no `..`, no slash at its end and none
twice. The names come back out of it, so a path has one normal form, and that is its own. -/

namespace SiteServer.Path

/-! ## Names and slashes -/

/-- A text that is a name in a path: it has no slash in it, and it is not empty, `.` or `..`. -/
structure IsName (text : String) : Prop where
  noSlash : '/' ∉ text.toList
  component : component? text.toList = some (.name text)

theorem IsName.not_here {text : String} (h : IsName text) :
    ¬ (text.toList = [] ∨ text.toList = ['.']) := by
  intro hhere
  have := h.component
  rw [component?, if_pos hhere] at this
  cases this

theorem IsName.not_up {text : String} (h : IsName text) : text.toList ≠ ['.', '.'] := by
  intro hup
  have := h.component
  rw [component?, if_neg h.not_here, if_pos hup] at this
  cases this

theorem IsName.ne_nil {text : String} (h : IsName text) : text.toList ≠ [] :=
  fun hnil => h.not_here (Or.inl hnil)

theorem noSlash_of_mem_slices {text slice : List Char} (h : slice ∈ slices text) :
    '/' ∉ slice := by
  unfold slices at h
  induction text generalizing slice with
  | nil =>
      rw [List.splitOnP_nil, List.mem_singleton] at h
      subst h
      exact List.not_mem_nil
  | cons c rest ih =>
      rw [List.splitOnP_cons_eq_if_modifyHead] at h
      by_cases hc : c = '/'
      · rw [if_pos (beq_iff_eq.mpr hc)] at h
        rcases List.mem_cons.mp h with rfl | h
        · exact List.not_mem_nil
        · exact ih h
      · rw [if_neg (by simpa using hc)] at h
        obtain ⟨first, others, hsplit⟩ :=
          List.exists_cons_of_ne_nil (List.splitOnP_ne_nil (· == '/') rest)
        rw [hsplit] at h ih
        rw [List.modifyHead_cons] at h
        rcases List.mem_cons.mp h with rfl | h
        · intro hmem
          rcases List.mem_cons.mp hmem with heq | hmem
          · exact hc heq.symm
          · exact ih List.mem_cons_self hmem
        · exact ih (List.mem_cons_of_mem _ h)

theorem slices_cons_slash (rest : List Char) : slices ('/' :: rest) = [] :: slices rest := by
  unfold slices
  rw [List.splitOnP_cons_eq_if_modifyHead]
  exact if_pos rfl

theorem slices_intercalate {parts : List (List Char)} (h : ∀ s ∈ parts, '/' ∉ s)
    (hne : parts ≠ []) : slices (List.intercalate ['/'] parts) = parts :=
  List.splitOn_intercalate '/' h hne

theorem slices_of_noSlash {text : List Char} (h : '/' ∉ text) : slices text = [text] :=
  List.splitOn_eq_singleton h

/-- A text may be put at the end of the last of several parts before they are joined. -/
theorem intercalate_append (parts : List (List Char)) (last text : List Char) :
    List.intercalate ['/'] (parts ++ [last]) ++ text =
      List.intercalate ['/'] (parts ++ [last ++ text]) := by
  induction parts with
  | nil => simp
  | cons part parts ih =>
      have hne (t : List Char) : parts ++ [t] ≠ [] := by simp
      rw [List.cons_append, List.cons_append, List.intercalate_cons_of_ne_nil (hne _),
        List.intercalate_cons_of_ne_nil (hne _), ← ih]
      simp

theorem intercalate_concat {parts : List (List Char)} (h : parts ≠ []) (last : List Char) :
    List.intercalate ['/'] (parts ++ [last]) = List.intercalate ['/'] parts ++ '/' :: last := by
  induction parts with
  | nil => exact absurd rfl h
  | cons part parts ih =>
      by_cases hnil : parts = []
      · subst hnil
        simp [List.intercalate_cons_cons]
      · rw [List.cons_append, List.intercalate_cons_of_ne_nil (by simp),
          List.intercalate_cons_of_ne_nil hnil, ih hnil]
        simp

/-- A component that is a name comes from a part between slashes. -/
theorem isName_of_component? {slice : List Char} {text : String} (hslash : '/' ∉ slice)
    (h : component? slice = some (.name text)) : IsName text := by
  have htext : String.ofList slice = text := by
    unfold component? at h
    split_ifs at h
    · cases h
    · exact Component.name.inj (Option.some.inj h)
  have hslice : text.toList = slice := by
    rw [← htext]
    simp
  refine ⟨?_, ?_⟩
  · rw [hslice]
    exact hslash
  · rw [hslice]
    exact h

theorem isName_of_mem_components {p : Path} {text : String} (h : .name text ∈ p.components) :
    IsName text := by
  unfold components at h
  rcases List.mem_append.mp h with h | h
  · split_ifs at h <;> simp at h
  · obtain ⟨slice, hslice, hcomponent⟩ := List.mem_filterMap.mp h
    exact isName_of_component? (noSlash_of_mem_slices hslice) hcomponent

/-- What is taken back or kept of the names of components is one of these names. -/
theorem mem_settleNames {names : List String} {components : List Component} {text : String}
    (h : text ∈ settleNames names components) : text ∈ names ∨ .name text ∈ components := by
  induction components generalizing names with
  | nil => exact Or.inl h
  | cons c components ih =>
      have keep {names' : List String} (h' : text ∈ settleNames names' components) :
          text ∈ names' ∨ .name text ∈ c :: components :=
        (ih h').imp_right (List.mem_cons_of_mem c)
      cases c with
      | root => exact keep h
      | here => exact keep h
      | up => exact (keep h).imp_left List.mem_of_mem_tail
      | name other =>
          rcases keep h with h | h
          · rcases List.mem_cons.mp h with rfl | h
            · exact Or.inr List.mem_cons_self
            · exact Or.inl h
          · exact Or.inr h

theorem isName_of_mem_names {p : Path} {text : String} (h : text ∈ p.names) : IsName text := by
  rcases mem_settleNames (List.mem_reverse.mp h) with h | h
  · cases h
  · exact isName_of_mem_components h

/-! ## Paths written from names -/

variable {absolute : Bool} {names : List String}

theorem toList_ofNames (absolute : Bool) (names : List String) :
    (ofNames absolute names).text.toList =
      (if absolute then ['/'] else []) ++ List.intercalate ['/'] (names.map String.toList) := by
  simp [ofNames]

theorem noSlash_of_mem_map (h : ∀ n ∈ names, IsName n) :
    ∀ s ∈ names.map String.toList, '/' ∉ s := by
  intro s hs
  obtain ⟨n, hn, rfl⟩ := List.mem_map.mp hs
  exact (h n hn).noSlash

theorem isAbsolute_ofNames (h : ∀ n ∈ names, IsName n) :
    (ofNames absolute names).isAbsolute = absolute := by
  unfold isAbsolute
  rw [toList_ofNames]
  cases absolute with
  | true => rfl
  | false =>
      cases names with
      | nil => rfl
      | cons n rest =>
          have hn := h n List.mem_cons_self
          obtain ⟨c, tail, hc⟩ := List.exists_cons_of_ne_nil hn.ne_nil
          have hslash : c ≠ '/' := by
            rintro rfl
            exact hn.noSlash (hc ▸ List.mem_cons_self)
          have hhead : (List.intercalate ['/'] ((n :: rest).map String.toList)).head? = some c := by
            cases rest with
            | nil => simp [hc]
            | cons m rest => simp [hc, List.intercalate_cons_cons]
          rw [if_neg Bool.false_ne_true, List.nil_append, hhead]
          simpa using hslash

/-- The parts of a path that is written from names: the names, after an empty part when the path starts
at the root; without names there is one more empty part. -/
theorem slices_ofNames (h : ∀ n ∈ names, IsName n) :
    slices (ofNames absolute names).text.toList =
      (if absolute then [[]] else []) ++ (if names = [] then [[]] else names.map String.toList) := by
  have hparts : slices (List.intercalate ['/'] (names.map String.toList)) =
      if names = [] then [[]] else names.map String.toList := by
    by_cases hnil : names = []
    · subst hnil
      rfl
    · rw [if_neg hnil]
      exact slices_intercalate (noSlash_of_mem_map h) (by simpa using hnil)
  rw [toList_ofNames]
  cases absolute with
  | true =>
      rw [if_pos rfl, if_pos rfl, List.singleton_append, slices_cons_slash, hparts]
      rfl
  | false => simpa using hparts

theorem filterMap_component? (h : ∀ n ∈ names, IsName n) :
    (names.map String.toList).filterMap component? = names.map .name := by
  induction names with
  | nil => rfl
  | cons n rest ih =>
      have hn := (h n List.mem_cons_self).component
      have hrest := ih fun m hm => h m (List.mem_cons_of_mem n hm)
      simp [hn, hrest]

theorem components_ofNames (h : ∀ n ∈ names, IsName n) :
    (ofNames absolute names).components =
      (if absolute then [.root] else []) ++ names.map .name := by
  have hempty : component? [] = none := rfl
  unfold components
  rw [isAbsolute_ofNames h, slices_ofNames h]
  cases names with
  | nil => cases absolute <;> rfl
  | cons n rest =>
      have hmap := filterMap_component? h
      have hn := (h n List.mem_cons_self).component
      have hdot : n.toList ≠ ['.'] := fun heq => (h n List.mem_cons_self).not_here (Or.inr heq)
      rw [if_neg (List.cons_ne_nil n rest)]
      cases absolute with
      | true => simpa [hempty] using hmap
      | false => simpa [hdot] using hmap

theorem settleNames_names (taken names : List String) :
    settleNames taken (names.map .name) = names.reverse ++ taken := by
  induction names generalizing taken with
  | nil => rfl
  | cons n rest ih =>
      rw [List.map_cons, settleNames, ih]
      simp

/-- The names of a path come back out of its normal form. -/
theorem names_ofNames (h : ∀ n ∈ names, IsName n) : (ofNames absolute names).names = names := by
  unfold Path.names
  rw [components_ofNames h]
  cases absolute with
  | true =>
      rw [if_pos rfl, List.singleton_append, settleNames, settleNames_names]
      · simp
      all_goals simp
  | false => simp [settleNames_names]

theorem normalize_ofNames (h : ∀ n ∈ names, IsName n) :
    (ofNames absolute names).normalize = ofNames absolute names := by
  rw [normalize, isAbsolute_ofNames h, names_ofNames h]

/-- The normal form of a path is its own normal form. -/
theorem normalize_normalize (p : Path) : p.normalize.normalize = p.normalize :=
  normalize_ofNames fun _ => isName_of_mem_names

theorem isAbsolute_normalize (p : Path) : p.normalize.isAbsolute = p.isAbsolute :=
  isAbsolute_ofNames fun _ => isName_of_mem_names

/-- Two paths in normal form are the same only when they are equal. -/
theorem eq_of_names_eq {p q : Path} (hp : p.normalize = p) (hq : q.normalize = q)
    (habs : p.isAbsolute = q.isAbsolute) (hnames : p.names = q.names) : p = q := by
  rw [← hp, ← hq, normalize, normalize, habs, hnames]

/-- The components of a path in normal form are its names, after the root if it starts there. -/
theorem components_of_normalize {p : Path} (h : p.normalize = p) :
    p.components = (if p.isAbsolute then [.root] else []) ++ p.names.map .name := by
  conv_lhs => rw [← h]
  exact components_ofNames fun _ => isName_of_mem_names

/-! ## Absolute paths -/

theorem isAbsolute_iff {text : String} :
    (Path.mk text).isAbsolute = true ↔ ∃ rest, text = "/" ++ rest := by
  rw [isAbsolute, beq_iff_eq, List.head?_eq_some_iff]
  constructor
  · rintro ⟨rest, hrest⟩
    exact ⟨.ofList rest, String.toList_inj.mp (by simp [hrest])⟩
  · rintro ⟨rest, rfl⟩
    exact ⟨rest.toList, String.toList_append⟩

theorem isAbsolute_append {p : Path} (h : p.isAbsolute) (text : String) :
    (Path.mk (p.text ++ text)).isAbsolute := by
  unfold isAbsolute at *
  rw [String.toList_append, List.head?_append_of_ne_nil]
  · exact h
  · intro hnil
    rw [hnil] at h
    cases h

/-- What is inside an absolute directory is absolute. -/
theorem isAbsolute_join {base : Path} (h : base.isAbsolute) (p : Path) :
    (base.join p).isAbsolute := by
  unfold join
  split_ifs with hp hend
  · exact hp
  · exact isAbsolute_append h p.text
  · have := isAbsolute_append (isAbsolute_append h "/") p.text
    simpa using this

theorem isAbsolute_foldl_child {start : Path} (h : start.isAbsolute)
    (components : List Component) :
    (components.foldl (fun q c => q.child (componentText c)) start).isAbsolute := by
  induction components generalizing start with
  | nil => exact h
  | cons c rest ih => exact ih (isAbsolute_join h _)

theorem isAbsolute_ofComponents (components : List Component) :
    (ofComponents (.root :: components)).isAbsolute := by
  have hstart : ((Path.mk "").child (componentText .root)).isAbsolute := by decide
  exact isAbsolute_foldl_child hstart components

/-- The parent of an absolute path is absolute. -/
theorem isAbsolute_parent? {p q : Path} (h : p.isAbsolute) (hq : p.parent? = some q) :
    q.isAbsolute := by
  obtain ⟨rest, hrest⟩ : ∃ rest, p.components = .root :: rest := by
    unfold components
    dsimp only
    rw [if_pos h]
    exact ⟨_, rfl⟩
  unfold parent? at hq
  cases hreverse : p.components.reverse with
  | nil =>
      rw [hreverse] at hq
      cases hq
  | cons last outer =>
      rw [hreverse] at hq
      have hcomponents : p.components = outer.reverse ++ [last] := by
        rw [← List.reverse_reverse p.components, hreverse, List.reverse_cons]
      cases houter : outer.reverse with
      | nil =>
          rw [houter, hrest] at hcomponents
          cases hcomponents
          cases hq
      | cons first inner =>
          rw [houter, hrest] at hcomponents
          cases hcomponents
          cases last with
          | root => cases hq
          | here | up | name =>
              cases hq
              rw [houter]
              exact isAbsolute_ofComponents inner

theorem isAbsolute_ite {c : Prop} [Decidable c] {p q : Path} (hp : p.isAbsolute)
    (hq : q.isAbsolute) : (if c then p else q).isAbsolute := by
  by_cases hc : c
  · rw [if_pos hc]
    exact hp
  · rw [if_neg hc]
    exact hq

/-- What `absolute?` gives is absolute. -/
theorem isAbsolute_absolute? {p q : Path} (h : p.absolute? = some q) : q.isAbsolute := by
  unfold absolute? at h
  by_cases htext : p.text = ""
  · rw [if_pos htext] at h
    cases h
  · rw [if_neg htext] at h
    rw [← Option.some.inj h]
    have hone : (Path.mk "/").isAbsolute := by decide
    have htwo : (Path.mk "//").isAbsolute := by decide
    refine isAbsolute_ite (isAbsolute_join ?_ _) ?_
    all_goals exact isAbsolute_foldl_child (isAbsolute_ite htwo hone) _

/-! ## Paths inside directories -/

theorem slices_append_slash (before after : List Char) :
    slices (before ++ '/' :: after) = slices before ++ slices after :=
  List.splitOnP_append_cons before after (beq_self_eq_true '/')

theorem slices_ne_nil (text : List Char) : slices text ≠ [] :=
  List.splitOnP_ne_nil _ text

/-- What follows a slash adds its own components. -/
theorem components_append_slash (before after : List Char) :
    (Path.mk (.ofList (before ++ '/' :: after))).components =
      (Path.mk (.ofList (before ++ ['/']))).components ++ (slices after).filterMap component? := by
  have hhead (rest : List (List Char)) :
      (slices before ++ rest).head? = (slices before).head? :=
    List.head?_append_of_ne_nil _ (slices_ne_nil before)
  have habs (rest : List Char) :
      (Path.mk (.ofList (before ++ '/' :: rest))).isAbsolute =
        (before.head?.getD '/' == '/') := by
    unfold isAbsolute
    cases before <;> simp
  have hempty : (slices []).filterMap component? = [] := rfl
  unfold components
  dsimp only
  rw [habs, habs, String.toList_ofList, String.toList_ofList, slices_append_slash,
    slices_append_slash, hhead, hhead, List.filterMap_append, List.filterMap_append, hempty,
    List.append_nil, List.append_assoc]

/-- A slash at the end adds nothing. -/
theorem components_append_slash_end {text : List Char} (h : text ≠ []) :
    (Path.mk (.ofList (text ++ ['/']))).components = (Path.mk (.ofList text)).components := by
  have hhead : (slices text ++ slices []).head? = (slices text).head? :=
    List.head?_append_of_ne_nil _ (slices_ne_nil text)
  have habs : (Path.mk (.ofList (text ++ ['/']))).isAbsolute =
      (Path.mk (.ofList text)).isAbsolute := by
    unfold isAbsolute
    rw [String.toList_ofList, String.toList_ofList, List.head?_append_of_ne_nil _ h]
  have hempty : (slices []).filterMap component? = [] := rfl
  unfold components
  dsimp only
  rw [habs, String.toList_ofList, String.toList_ofList, slices_append_slash, hhead,
    List.filterMap_append, hempty, List.append_nil]

/-- The path with the given names inside a directory. -/
def below (root : Path) (names : List String) : Path :=
  root.join (ofNames false names)

theorem components_relative (h : ∀ n ∈ names, IsName n) :
    (slices (ofNames false names).text.toList).filterMap component? = names.map .name := by
  rw [slices_ofNames h, if_neg Bool.false_ne_true, List.nil_append]
  split
  · rename_i hnil
    subst hnil
    rfl
  · exact filterMap_component? h

/-- What is joined to a directory adds its own components to those of the directory. -/
theorem components_join {base p : Path} (hbase : base.text ≠ "") (hp : p.isAbsolute = false) :
    (base.join p).components =
      base.components ++ (slices p.text.toList).filterMap component? := by
  obtain ⟨text⟩ := base
  have hne : text.toList ≠ [] := fun hnil => hbase (String.toList_inj.mp hnil)
  rw [join, hp, if_neg Bool.false_ne_true]
  obtain ⟨before, last, hlast⟩ := (List.eq_nil_or_concat text.toList).resolve_left hne
  rw [List.concat_eq_append] at hlast
  by_cases hslash : last = '/'
  · subst hslash
    have htext : text = .ofList (before ++ ['/']) := by rw [← hlast, String.ofList_toList]
    have hwhole : text ++ p.text = .ofList (before ++ '/' :: p.text.toList) := by
      apply String.toList_inj.mp
      simp [hlast]
    rw [if_pos (.inr (by simp [hlast])), hwhole, components_append_slash, ← htext]
  · have hwhole : text ++ "/" ++ p.text = .ofList (text.toList ++ '/' :: p.text.toList) := by
      apply String.toList_inj.mp
      simp
    rw [if_neg (by simp [hlast, hslash]), hwhole, components_append_slash,
      components_append_slash_end hne, String.ofList_toList]

/-- The components of a path inside a directory are those of the directory, and then the names. -/
theorem components_below (root : Path) (h : ∀ n ∈ names, IsName n) :
    (root.below names).components = root.components ++ names.map .name := by
  have hrelative : (ofNames false names).isAbsolute = false := isAbsolute_ofNames h
  by_cases hroot : root.text = ""
  · obtain ⟨text⟩ := root
    subst hroot
    rw [below, join, hrelative, if_neg Bool.false_ne_true, if_pos (.inl rfl), String.empty_append]
    exact (components_ofNames h).trans rfl
  · rw [below, components_join hroot hrelative, components_relative h]

theorem settleNames_append (names : List String) (before after : List Component) :
    settleNames names (before ++ after) = settleNames (settleNames names before) after := by
  induction before generalizing names with
  | nil => rfl
  | cons c before ih =>
      cases c with
      | root => exact ih names
      | here => exact ih names
      | up => exact ih names.tail
      | name text => exact ih (text :: names)

/-- Where a path starts does not matter for the names that it takes back or adds. -/
theorem settleNames_components (p : Path) (names : List String) :
    settleNames names p.components =
      settleNames names ((slices p.text.toList).filterMap component?) := by
  unfold components
  dsimp only
  split_ifs <;> rfl

/-- The names of a relative path inside a directory: it takes back and adds to those of the directory. -/
theorem names_join {base p : Path} (hp : p.isAbsolute = false) :
    (base.join p).names = (settleNames base.names.reverse p.components).reverse := by
  by_cases hbase : base.text = ""
  · obtain ⟨text⟩ := base
    subst hbase
    rw [join, hp, if_neg Bool.false_ne_true, if_pos (.inl rfl), String.empty_append]
    rfl
  · rw [Path.names, Path.names, List.reverse_reverse, settleNames_components p,
      components_join hbase hp, settleNames_append]

theorem isAbsolute_join_of_relative {base p : Path} (hp : p.isAbsolute = false) :
    (base.join p).isAbsolute = base.isAbsolute := by
  cases hbase : base.isAbsolute with
  | true => exact isAbsolute_join hbase p
  | false =>
      by_cases hempty : base.text = ""
      · obtain ⟨text⟩ := base
        subst hempty
        rw [join, hp, if_neg Bool.false_ne_true, if_pos (.inl rfl), String.empty_append]
        exact hp
      · have hne : base.text.toList ≠ [] := fun hnil => hempty (String.toList_inj.mp hnil)
        rw [join, hp, if_neg Bool.false_ne_true, ← hbase]
        unfold isAbsolute
        split_ifs
        · rw [String.toList_append, List.head?_append_of_ne_nil _ hne]
        · rw [String.toList_append, String.toList_append, List.append_assoc,
            List.head?_append_of_ne_nil _ hne]

/-- Inside a directory the normal form has the names of the directory, and then the others. -/
theorem names_below (root : Path) (h : ∀ n ∈ names, IsName n) :
    (root.below names).names = root.names ++ names := by
  rw [Path.names, Path.names, components_below root h, settleNames_append, settleNames_names,
    List.reverse_append, List.reverse_reverse]

/-- An absolute path starts at the root and goes on by names and `..`. -/
theorem components_of_isAbsolute {p : Path} (h : p.isAbsolute) : ∃ inner,
    p.components = .root :: inner ∧ ∀ c ∈ inner, c = .up ∨ ∃ text, c = .name text := by
  refine ⟨(slices p.text.toList).filterMap component?, ?_, ?_⟩
  · unfold components
    dsimp only
    rw [if_pos h, List.singleton_append]
  · intro c hc
    obtain ⟨slice, _, hslice⟩ := List.mem_filterMap.mp hc
    unfold component? at hslice
    split_ifs at hslice <;> cases hslice
    · exact .inl rfl
    · exact .inr ⟨_, rfl⟩

variable (absolute) in
/-- A path that is written from parts has the names among its first parts as its first components, whatever
the last part is. -/
theorem exists_components_ofNames (h : ∀ n ∈ names, IsName n) (last : String) : ∃ more,
    (ofNames absolute (names ++ [last])).components =
      (if absolute then [.root] else []) ++ names.map .name ++ more := by
  by_cases hnil : names = []
  · subst hnil
    cases absolute with
    | false => exact ⟨_, rfl⟩
    | true =>
        have habs : (ofNames true ([] ++ [last])).isAbsolute := by
          rw [isAbsolute, toList_ofNames]
          rfl
        obtain ⟨inner, hinner, _⟩ := components_of_isAbsolute habs
        exact ⟨inner, hinner⟩
  · have htext : ofNames absolute (names ++ [last]) =
        ⟨.ofList ((ofNames absolute names).text.toList ++ '/' :: last.toList)⟩ := by
      refine congrArg Path.mk (String.toList_inj.mp ?_)
      have hparts : names.map String.toList ≠ [] := by simpa using hnil
      rw [toList_ofNames, String.toList_ofList, String.toList_ofList, List.map_append,
        List.map_singleton, intercalate_concat hparts, List.append_assoc]
    have hne : (ofNames absolute names).text.toList ≠ [] := by
      intro hempty
      have hpath : ofNames absolute names = ⟨""⟩ :=
        congrArg Path.mk (String.toList_inj.mp hempty)
      have hcomponents : (ofNames absolute names).components = _ := components_ofNames h
      rw [hpath, show (Path.mk "").components = [] by decide] at hcomponents
      exact hnil (List.map_eq_nil_iff.mp (List.append_eq_nil_iff.mp hcomponents.symm).2)
    rw [htext, components_append_slash, components_append_slash_end hne, String.ofList_toList]
    exact ⟨_, congrArg (· ++ _) (components_ofNames h)⟩

/-- The normal form of an absolute path lies inside that of another when its names go on from those of
the other. -/
theorem startsWith_normalize_iff {p base : Path} (hp : p.isAbsolute) (hbase : base.isAbsolute) :
    p.normalize.startsWith base.normalize = true ↔ base.names <+: p.names := by
  have hcomponents {q : Path} (hq : q.isAbsolute) :
      q.normalize.components = .root :: q.names.map .name := by
    rw [normalize, components_ofNames fun _ => isName_of_mem_names, if_pos hq,
      List.singleton_append]
  rw [startsWith, List.isPrefixOf_iff_prefix, hcomponents hp, hcomponents hbase,
    List.prefix_cons_inj, List.prefix_map_iff_of_injective fun _ _ => Component.name.inj]

/-- Two paths are spelled alike when what they do not have in common is written without `..`. -/
def SpelledAlike (p q : Path) : Prop :=
  ∃ common onlyP onlyQ, p.components = common ++ onlyP ∧ q.components = common ++ onlyQ ∧
    .up ∉ onlyP ∧ .up ∉ onlyQ

theorem exists_names {components : List Component}
    (h : ∀ c ∈ components, c = .up ∨ ∃ text, c = .name text) (hup : .up ∉ components) :
    ∃ names : List String, components = names.map .name := by
  induction components with
  | nil => exact ⟨[], rfl⟩
  | cons c rest ih =>
      obtain ⟨names, rfl⟩ := ih (fun d hd => h d (List.mem_cons_of_mem c hd))
        fun hmem => hup (List.mem_cons_of_mem c hmem)
      rcases h c List.mem_cons_self with rfl | ⟨text, rfl⟩
      · exact absurd List.mem_cons_self hup
      · exact ⟨text :: names, rfl⟩

/-- Absolute paths that are spelled alike go on by names from what they have in common. -/
theorem SpelledAlike.exists_names {p q : Path} (h : p.SpelledAlike q) (hp : p.isAbsolute)
    (hq : q.isAbsolute) : ∃ (common : List Component) (onlyP onlyQ : List String),
      p.components = common ++ onlyP.map .name ∧ q.components = common ++ onlyQ.map .name := by
  obtain ⟨common, onlyP, onlyQ, hcommonP, hcommonQ, hupP, hupQ⟩ := h
  obtain ⟨innerP, hrootP, hinnerP⟩ := components_of_isAbsolute hp
  obtain ⟨innerQ, hrootQ, hinnerQ⟩ := components_of_isAbsolute hq
  cases common with
  | nil =>
      rw [List.nil_append, hrootP] at hcommonP
      rw [List.nil_append, hrootQ] at hcommonQ
      subst hcommonP hcommonQ
      obtain ⟨namesP, rfl⟩ := Path.exists_names hinnerP fun hup => hupP (List.mem_cons_of_mem _ hup)
      obtain ⟨namesQ, rfl⟩ := Path.exists_names hinnerQ fun hup => hupQ (List.mem_cons_of_mem _ hup)
      exact ⟨[.root], namesP, namesQ, hrootP, hrootQ⟩
  | cons first common =>
      have hinsideP := List.cons.inj (hrootP.symm.trans hcommonP)
      have hinsideQ := List.cons.inj (hrootQ.symm.trans hcommonQ)
      obtain ⟨namesP, rfl⟩ := Path.exists_names
        (fun c hc => hinnerP c (hinsideP.2 ▸ List.mem_append_right common hc)) hupP
      obtain ⟨namesQ, rfl⟩ := Path.exists_names
        (fun c hc => hinnerQ c (hinsideQ.2 ▸ List.mem_append_right common hc)) hupQ
      exact ⟨first :: common, namesP, namesQ, hcommonP, hcommonQ⟩

/-- What lies inside one of two directories that are spelled alike, by its names, lies inside the other as
it is spelled, if it does so in normal form. -/
theorem SpelledAlike.startsWith_below {p q : Path} (h : p.SpelledAlike q) (hp : p.isAbsolute)
    (hq : q.isAbsolute) (hnames : ∀ n ∈ names, IsName n)
    (hinside : (q.below names).normalize.startsWith p.normalize = true) :
    (q.below names).startsWith p = true := by
  obtain ⟨common, onlyP, onlyQ, hcommonP, hcommonQ⟩ := h.exists_names hp hq
  have hsettled {r : Path} {only : List String} (hr : r.components = common ++ only.map .name) :
      r.names = (settleNames [] common).reverse ++ only := by
    rw [Path.names, hr, settleNames_append, settleNames_names, List.reverse_append,
      List.reverse_reverse]
  have hbelow : (q.below names).isAbsolute := isAbsolute_join hq _
  rw [startsWith_normalize_iff hbelow hp, names_below q hnames, hsettled hcommonP,
    hsettled hcommonQ, List.append_assoc, List.prefix_append_right_inj] at hinside
  rw [startsWith, List.isPrefixOf_iff_prefix, components_below q hnames, hcommonP, hcommonQ,
    List.append_assoc, List.prefix_append_right_inj, ← List.map_append]
  exact hinside.map Component.name

/-! ## Extensions -/

theorem fileName?_eq_some_iff {p : Path} (h : p.normalize = p) {name : String} :
    p.fileName? = some name ↔ ∃ outer, p.names = outer ++ [name] := by
  rw [fileName?, components_of_normalize h]
  rcases List.eq_nil_or_concat p.names with hnil | ⟨outer, last, hlast⟩
  · rw [hnil]
    cases p.isAbsolute <;> simp
  · rw [List.concat_eq_append] at hlast
    rw [hlast, List.map_append, ← List.append_assoc, List.map_singleton, List.getLast?_append]
    simp

/-- An extension is what follows the last dot of the name of a file, if something comes before the dot. -/
theorem extension?_eq_some_iff {p : Path} {extension : String} :
    p.extension? = some extension ↔ ∃ stem, p.fileName? = some (stem ++ "." ++ extension) ∧
      stem ≠ "" ∧ '.' ∉ extension.toList := by
  unfold extension?
  cases p.fileName? with
  | none => simp
  | some name =>
      dsimp only
      constructor
      · intro h
        have hwhole := List.takeWhile_append_dropWhile (p := (· ≠ '.')) (l := name.toList.reverse)
        cases hdrop : name.toList.reverse.dropWhile (· ≠ '.') with
        | nil =>
            rw [hdrop] at h
            cases h
        | cons dot before =>
            have hdot : dot = '.' := by
              have := List.head?_dropWhile_not (· ≠ '.') name.toList.reverse
              rw [hdrop] at this
              simpa using this
            have hkept : ∀ c ∈ name.toList.reverse.takeWhile (· ≠ '.'), c ≠ '.' :=
              fun c hc => by simpa using List.mem_takeWhile_imp hc
            rw [hdrop, List.drop_one, List.tail_cons] at h
            rw [hdrop, hdot] at hwhole
            generalize name.toList.reverse.takeWhile (· ≠ '.') = kept at h hwhole hkept
            cases before with
            | nil => cases h
            | cons c before =>
                cases h
                refine ⟨String.ofList (c :: before).reverse, ?_, ?_, ?_⟩
                · have hname := congrArg List.reverse hwhole
                  rw [List.reverse_reverse] at hname
                  refine congrArg some (String.toList_inj.mp ?_)
                  rw [← hname]
                  simp
                · simp
                · rw [String.toList_ofList, List.mem_reverse]
                  exact fun hmem => hkept '.' hmem rfl
      · rintro ⟨stem, hstem, hne, hdot⟩
        have hreversed : name.toList.reverse =
            extension.toList.reverse ++ '.' :: stem.toList.reverse := by
          rw [Option.some.inj hstem]
          simp
        have hall : ∀ c ∈ extension.toList.reverse, (c ≠ '.' : Bool) = true := by
          intro c hc
          rw [decide_eq_true_eq]
          rintro rfl
          exact hdot (List.mem_reverse.mp hc)
        rw [hreversed, List.dropWhile_append_of_pos hall, List.takeWhile_append_of_pos hall]
        cases hreverse : stem.toList.reverse with
        | nil => exact absurd (String.toList_inj.mp (by simpa using hreverse)) hne
        | cons c rest => simp

/-- A name with an extension is a name. -/
theorem isName_append_extension {name extension : String} (hname : IsName name)
    (hext : '/' ∉ extension.toList) : IsName (name ++ "." ++ extension) := by
  have hlist : (name ++ "." ++ extension).toList = name.toList ++ '.' :: extension.toList := by
    simp
  obtain ⟨c, rest, hc⟩ := List.exists_cons_of_ne_nil hname.ne_nil
  refine ⟨?_, ?_⟩
  · rw [hlist]
    intro hmem
    rcases List.mem_append.mp hmem with hmem | hmem
    · exact hname.noSlash hmem
    · rcases List.mem_cons.mp hmem with heq | hmem
      · cases heq
      · exact hext hmem
  · have hdot : name.toList ++ '.' :: extension.toList ≠ ['.'] := by
      rw [hc]
      simp
    have hdots : name.toList ++ '.' :: extension.toList ≠ ['.', '.'] := by
      intro heq
      have hcomponent := hname.component
      rw [hc] at heq hcomponent
      cases rest with
      | nil =>
          rw [(List.cons.inj heq).1] at hcomponent
          cases hcomponent
      | cons d rest => simp at heq
    rw [hlist, component?, if_neg (by simp [hdot]), if_neg hdots, ← hlist, String.ofList_toList]

/-- A path written from at least one name stays so with an extension appended. -/
theorem appendExtension_ofNames (outer : List String) (last extension : String) :
    (ofNames absolute (outer ++ [last])).appendExtension extension =
      ofNames absolute (outer ++ [last ++ "." ++ extension]) := by
  have hlist : ((ofNames absolute (outer ++ [last])).appendExtension extension).text.toList =
      (ofNames absolute (outer ++ [last ++ "." ++ extension])).text.toList := by
    have happend := intercalate_append (outer.map String.toList) last.toList
      ('.' :: extension.toList)
    rw [toList_ofNames, appendExtension, String.toList_append, String.toList_append,
      toList_ofNames]
    simpa using happend
  have htext := String.toList_inj.mp hlist
  cases hp : (ofNames absolute (outer ++ [last])).appendExtension extension
  rw [hp] at htext
  exact congrArg Path.mk htext

end SiteServer.Path
