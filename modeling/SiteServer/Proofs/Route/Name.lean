import SiteServer.Proofs.Path
import SiteServer.Proofs.Text.Split
import SiteServer.Route.Name

/-! # Which routes request paths ask for.

A request path asks for a route when it consists of names with one slash between each two of them, and of
any slashes at its ends. Names say nothing else than what they are called: none is empty, `.` or `..`,
and none has a slash or a backslash in it. -/

namespace SiteServer.Route

/-! ## Slashes at the ends -/

theorem dropSlashes_replicate_append (count : Nat) (text : List Char) :
    dropSlashes (List.replicate count '/' ++ text) = dropSlashes text := by
  refine List.dropWhile_append_of_pos fun c hc => ?_
  rw [List.eq_of_mem_replicate hc]
  rfl

theorem dropSlashes_eq_self {text : List Char} (h : text.head? ≠ some '/') :
    dropSlashes text = text := by
  refine Text.dropWhile_eq_self fun c hc => ?_
  rw [decide_eq_false_iff_not]
  rintro rfl
  exact h hc

theorem exists_replicate_append_dropSlashes (text : List Char) :
    ∃ count, text = List.replicate count '/' ++ dropSlashes text := by
  refine ⟨(text.takeWhile (· = '/')).length, ?_⟩
  have hslashes : List.replicate (text.takeWhile (· = '/')).length '/' =
      text.takeWhile (· = '/') := by
    refine (List.eq_replicate_of_mem fun c hc => ?_).symm
    exact of_decide_eq_true (List.mem_takeWhile_imp (p := fun c => decide (c = '/')) hc)
  rw [hslashes, dropSlashes, List.takeWhile_append_dropWhile]

/-- Slashes are taken off the ends, and nothing else. -/
theorem trimSlashes_replicate {text : List Char} (hfirst : text.head? ≠ some '/')
    (hlast : text.getLast? ≠ some '/') (before after : Nat) :
    trimSlashes (List.replicate before '/' ++ text ++ List.replicate after '/') = text := by
  have hinner : dropSlashes (text ++ List.replicate after '/') =
      text ++ List.replicate (if text = [] then 0 else after) '/' := by
    cases text with
    | nil => simp [dropSlashes]
    | cons c rest => exact dropSlashes_eq_self hfirst
  rw [trimSlashes, List.append_assoc, dropSlashes_replicate_append, hinner, List.reverse_append,
    List.reverse_replicate, dropSlashes_replicate_append,
    dropSlashes_eq_self (by rwa [List.head?_reverse]), List.reverse_reverse]

theorem exists_eq_trimSlashes (text : List Char) :
    ∃ before after, text =
      List.replicate before '/' ++ trimSlashes text ++ List.replicate after '/' := by
  obtain ⟨before, hbefore⟩ := exists_replicate_append_dropSlashes text
  obtain ⟨after, hafter⟩ := exists_replicate_append_dropSlashes (dropSlashes text).reverse
  refine ⟨before, after, ?_⟩
  have hinner : dropSlashes text = trimSlashes text ++ List.replicate after '/' := by
    rw [trimSlashes, ← List.reverse_replicate, ← List.reverse_append, ← hafter,
      List.reverse_reverse]
  rw [List.append_assoc, ← hinner]
  exact hbefore

/-! ## Names between slashes -/

structure IsPlainName (name : String) : Prop where
  ne_empty : name ≠ ""
  ne_here : name ≠ "."
  ne_up : name ≠ ".."
  noSlash : '/' ∉ name.toList
  noBackslash : '\\' ∉ name.toList

theorem IsPlainName.isName {name : String} (h : IsPlainName name) : Path.IsName name := by
  have hhere : ¬ (name.toList = [] ∨ name.toList = ['.']) := by
    rintro (hnil | hdot)
    · exact h.ne_empty (String.toList_inj.mp hnil)
    · exact h.ne_here (String.toList_inj.mp hdot)
  have hup : name.toList ≠ ['.', '.'] := fun hdots => h.ne_up (String.toList_inj.mp hdots)
  refine ⟨h.noSlash, ?_⟩
  rw [Path.component?, if_neg hhere, if_neg hup, String.ofList_toList]

theorem isPlain_eq_true_iff {segment : List Char} (hslash : '/' ∉ segment) :
    isPlain segment = true ↔ IsPlainName (.ofList segment) := by
  have hlist (text : String) : String.ofList segment = text ↔ segment = text.toList := by
    rw [← String.toList_inj, String.toList_ofList]
  constructor
  · intro h
    simp only [isPlain, Bool.and_eq_true, decide_eq_true_eq, Bool.not_eq_eq_eq_not, Bool.not_true,
      List.contains_eq_mem, decide_eq_false_iff_not] at h
    obtain ⟨⟨⟨hempty, hhere⟩, hup⟩, hback⟩ := h
    refine ⟨?_, ?_, ?_, ?_, ?_⟩
    · exact fun heq => hempty ((hlist _).mp heq)
    · exact fun heq => hhere ((hlist _).mp heq)
    · exact fun heq => hup ((hlist _).mp heq)
    · rwa [String.toList_ofList]
    · rwa [String.toList_ofList]
  · intro h
    have hback := h.noBackslash
    rw [String.toList_ofList] at hback
    simp only [isPlain, Bool.and_eq_true, decide_eq_true_eq, Bool.not_eq_eq_eq_not, Bool.not_true,
      List.contains_eq_mem, decide_eq_false_iff_not]
    refine ⟨⟨⟨?_, ?_⟩, ?_⟩, hback⟩
    · exact fun heq => h.ne_empty ((hlist _).mpr heq)
    · exact fun heq => h.ne_here ((hlist _).mpr heq)
    · exact fun heq => h.ne_up ((hlist _).mpr heq)

/-- The name of a route that is made of the given names. -/
def joined (names : List String) : String :=
  (Path.ofNames false names).text

theorem toList_joined (names : List String) :
    (joined names).toList = List.intercalate ['/'] (names.map String.toList) := by
  simp [joined, Path.ofNames]

/-- A request path asks for the route that is made of the given names. -/
structure AsksFor (path : String) (names : List String) : Prop where
  nonempty : names ≠ []
  plain : ∀ name ∈ names, IsPlainName name
  written : ∃ before after, path.toList =
    List.replicate before '/' ++ List.intercalate ['/'] (names.map String.toList) ++
      List.replicate after '/'

theorem AsksFor.isName {path : String} {names : List String} (h : AsksFor path names) :
    ∀ name ∈ names, Path.IsName name :=
  fun name hname => (h.plain name hname).isName

theorem head?_joined {names : List String} (h : ∀ name ∈ names, Path.IsName name) :
    (joined names).toList.head? ≠ some '/' := by
  have hrelative : (Path.ofNames false names).isAbsolute = false := Path.isAbsolute_ofNames h
  rwa [Path.isAbsolute, beq_eq_false_iff_ne] at hrelative

theorem getLast?_joined {names : List String} (h : ∀ name ∈ names, Path.IsName name) :
    (joined names).toList.getLast? ≠ some '/' := by
  rw [toList_joined]
  rcases List.eq_nil_or_concat names with rfl | ⟨outer, last, rfl⟩
  · exact nofun
  · rw [List.concat_eq_append] at h ⊢
    have hlast := h last (by simp)
    have hsplit := Path.intercalate_append (outer.map String.toList) [] last.toList
    rw [List.map_append, List.map_singleton, ← List.nil_append last.toList, ← hsplit,
      List.getLast?_append_of_ne_nil _ hlast.ne_nil]
    intro hslash
    exact hlast.noSlash (List.mem_of_getLast? hslash)

/-- The name of a safe path is made of the names that the path asks for. -/
theorem asksFor_of_safe? {path name : String} (h : safe? path = some name) :
    ∃ names, AsksFor path names ∧ name = joined names := by
  rw [safe?] at h
  split at h
  · rename_i hsafe
    cases h
    obtain ⟨_, hall⟩ := hsafe
    have hslash : ∀ segment ∈ segments (normalize path), '/' ∉ segment :=
      fun segment hsegment => Path.noSlash_of_mem_slices hsegment
    have hback : ((segments (normalize path)).map String.ofList).map String.toList =
        segments (normalize path) := by
      rw [List.map_map]
      exact (List.map_congr_left fun segment _ => String.toList_ofList).trans (List.map_id _)
    have hwhole : List.intercalate ['/'] (segments (normalize path)) = trimSlashes path.toList :=
      (List.intercalate_splitOn '/').trans String.toList_ofList
    refine ⟨(segments (normalize path)).map String.ofList, ⟨?_, ?_, ?_⟩, ?_⟩
    · rw [ne_eq, List.map_eq_nil_iff]
      exact Path.slices_ne_nil _
    · intro name hname
      obtain ⟨segment, hsegment, rfl⟩ := List.mem_map.mp hname
      exact (isPlain_eq_true_iff (hslash segment hsegment)).mp (List.all_eq_true.mp hall _ hsegment)
    · rw [hback, hwhole]
      exact exists_eq_trimSlashes path.toList
    · apply String.toList_inj.mp
      rw [toList_joined, hback, hwhole]
      exact String.toList_ofList
  · cases h

theorem AsksFor.normalize_eq {path : String} {names : List String} (h : AsksFor path names) :
    normalize path = joined names := by
  obtain ⟨before, after, hwritten⟩ := h.written
  rw [normalize, hwritten, ← toList_joined,
    trimSlashes_replicate (head?_joined h.isName) (getLast?_joined h.isName), String.ofList_toList]

theorem AsksFor.segments_joined {path : String} {names : List String} (h : AsksFor path names) :
    segments (joined names) = names.map String.toList := by
  have hslices : Path.slices (joined names).toList = _ := Path.slices_ofNames h.isName
  rwa [if_neg Bool.false_ne_true, List.nil_append, if_neg h.nonempty] at hslices

theorem AsksFor.safe?_eq {path : String} {names : List String} (h : AsksFor path names) :
    safe? path = some (joined names) := by
  have hne : (joined names).toList ≠ [] := by
    intro hnil
    have hsegments := h.segments_joined
    rw [segments, hnil, List.splitOnP_nil] at hsegments
    obtain ⟨name, hname⟩ := List.exists_mem_of_ne_nil names h.nonempty
    have hmem := List.mem_map_of_mem (f := String.toList) hname
    rw [← hsegments, List.mem_singleton] at hmem
    exact (h.isName name hname).ne_nil hmem
  have hall : (segments (joined names)).all isPlain = true := by
    rw [h.segments_joined, List.all_map, List.all_eq_true]
    intro name hname
    have hplain := h.plain name hname
    rw [Function.comp_apply, isPlain_eq_true_iff hplain.noSlash, String.ofList_toList]
    exact hplain
  rw [safe?, h.normalize_eq, if_pos ⟨hne, hall⟩]

theorem safe?_eq_none_iff {path : String} :
    safe? path = none ↔ ¬ ∃ names, AsksFor path names := by
  constructor
  · rintro h ⟨names, hasks⟩
    rw [hasks.safe?_eq] at h
    cases h
  · intro h
    cases hsafe : safe? path with
    | none => rfl
    | some name =>
        obtain ⟨names, hasks, _⟩ := asksFor_of_safe? hsafe
        exact absurd ⟨names, hasks⟩ h

example : safe? "/a/b/" = some "a/b" ∧ safe? "/a//b" = none := by decide +kernel

/-- Slashes at the ends of a name are taken off at once. -/
theorem normalize_joined {names : List String} (h : ∀ name ∈ names, Path.IsName name) :
    normalize (joined names) = joined names := by
  have := trimSlashes_replicate (head?_joined h) (getLast?_joined h) 0 0
  rw [List.replicate_zero, List.nil_append, List.append_nil] at this
  rw [normalize, this, String.ofList_toList]

end SiteServer.Route
