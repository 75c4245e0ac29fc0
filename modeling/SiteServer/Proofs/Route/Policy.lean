import Mathlib.Data.List.Basic
import Mathlib.Data.List.TakeWhile
import SiteServer.Proofs.Join
import SiteServer.Proofs.Text.Boundary
import SiteServer.Proofs.Text.Slice
import SiteServer.Route.Resolver

/-! # What routing asks a matcher, and what it makes of the answers.

A request path is routed as the part before its query, and where that says nothing, as the index. A path that
asks for data is matched as it stands and without its ending. All that is decided depends on these answers
alone, and on each of them, in whatever order they arrive. -/

namespace SiteServer.Route

open Text.Utf8 (byteSize)

variable {m : Matcher} {order : List Nat} {requestPath path : String}

/-! ## The path that is routed -/

/-- A part of a request path is what stands before its query. -/
def BeforeQuery (requestPath part : String) : Prop :=
  '?' ∉ part.toList ∧ (requestPath = part ∨ ∃ query, requestPath = part ++ "?" ++ query)

/-- What a request path is routed as: without its query, where nothing and a slash stand for the index. -/
inductive RoutedAs (requestPath : String) : String → Prop where
  | index {part : String} (before : BeforeQuery requestPath part) (bare : part = "" ∨ part = "/") :
      RoutedAs requestPath "/default"
  | indexData (before : BeforeQuery requestPath "/.json") : RoutedAs requestPath "/default.json"
  | itself {part : String} (before : BeforeQuery requestPath part) (nonempty : part ≠ "")
      (notRoot : part ≠ "/") (notData : part ≠ "/.json") : RoutedAs requestPath part

theorem beforeQuery_iff {part : String} : BeforeQuery requestPath part ↔
    String.ofList (requestPath.toList.takeWhile (· ≠ '?')) = part := by
  constructor
  · rintro ⟨hquery, hwhole⟩
    have hall : ∀ c ∈ part.toList, (c ≠ '?' : Bool) = true := by
      intro c hc
      rw [decide_eq_true_eq]
      rintro rfl
      exact hquery hc
    rcases hwhole with rfl | ⟨query, rfl⟩
    · rw [List.takeWhile_eq_self_iff.mpr hall, String.ofList_toList]
    · rw [String.toList_append, String.toList_append, List.append_assoc,
        List.takeWhile_append_of_pos hall]
      simp
  · rintro rfl
    refine ⟨?_, ?_⟩
    · rw [String.toList_ofList]
      intro hmem
      simpa using List.mem_takeWhile_imp hmem
    · have hwhole := List.takeWhile_append_dropWhile (p := (· ≠ '?')) (l := requestPath.toList)
      cases hdrop : requestPath.toList.dropWhile (· ≠ '?') with
      | nil =>
          rw [hdrop, List.append_nil] at hwhole
          exact .inl (String.toList_inj.mp (by rw [hwhole, String.toList_ofList]))
      | cons c query =>
          have hc : c = '?' := by
            have := List.head?_dropWhile_not (p := (· ≠ '?')) (l := requestPath.toList)
            rw [hdrop] at this
            simpa using this
          refine .inr ⟨String.ofList query, String.toList_inj.mp ?_⟩
          rw [hdrop, hc] at hwhole
          conv_lhs => rw [← hwhole]
          simp

theorem asked_of_beforeQuery {part : String} (h : BeforeQuery requestPath part) :
    asked requestPath = if part = "" ∨ part = "/" then "/default"
      else if part = "/.json" then "/default.json" else part := by
  rw [asked, beforeQuery_iff.mp h]
  split
  · rfl
  · rfl
  · rfl
  · rename_i hempty hroot hdata
    rw [if_neg (not_or.mpr ⟨hempty, hroot⟩), if_neg hdata]

theorem routedAs_iff : RoutedAs requestPath path ↔ asked requestPath = path := by
  constructor
  · rintro (⟨before, bare⟩ | ⟨before⟩ | ⟨before, nonempty, notRoot, notData⟩)
    · rw [asked_of_beforeQuery before, if_pos bare]
    · rw [asked_of_beforeQuery before]
      decide
    · rw [asked_of_beforeQuery before, if_neg (not_or.mpr ⟨nonempty, notRoot⟩), if_neg notData]
  · rintro rfl
    have hbefore : BeforeQuery requestPath _ := beforeQuery_iff.mpr rfl
    rw [asked_of_beforeQuery hbefore]
    split_ifs with hbare hdata
    · exact .index hbefore hbare
    · rw [hdata] at hbefore
      exact .indexData hbefore
    · obtain ⟨hempty, hroot⟩ := not_or.mp hbare
      exact .itself hbefore hempty hroot hdata

/-! ## The ending of a path for data -/

def AsksForData (path : String) : Prop :=
  ∃ front, path = front ++ "json"

theorem wantsData_iff : wantsData path = true ↔ AsksForData path := by
  rw [wantsData, List.isSuffixOf_iff_suffix]
  constructor
  · rintro ⟨front, hfront⟩
    exact ⟨String.ofList front, String.toList_inj.mp (by rw [← hfront]; simp)⟩
  · rintro ⟨front, rfl⟩
    rw [String.toList_append]
    exact List.suffix_append _ _

/-- The longest start of a text that takes at most so many bytes and ends between two characters. -/
structure LongestStart (limit : Nat) (text start : List Char) : Prop where
  starts : start <+: text
  byteSize_le : byteSize start ≤ limit
  longest : ∀ other, other <+: text → byteSize other ≤ limit → other <+: start

theorem LongestStart.unique {limit : Nat} {text start other : List Char}
    (h : LongestStart limit text start) (hother : LongestStart limit text other) : start = other :=
  have hle := hother.longest start h.starts h.byteSize_le
  hle.eq_of_length_le (h.longest other hother.starts hother.byteSize_le).length_le

/-- What a path is matched as without its ending: less its last five bytes, and less the character that the
cut runs through, where nothing and a slash stand for the index. -/
inductive StrippedTo (path : String) : String → Prop where
  | index {front : String}
      (cut : LongestStart (byteSize path.toList - 5) path.toList front.toList)
      (bare : front = "" ∨ front = "/") : StrippedTo path "/default"
  | itself {front : String}
      (cut : LongestStart (byteSize path.toList - 5) path.toList front.toList)
      (nonempty : front ≠ "") (notRoot : front ≠ "/") : StrippedTo path front

/-- Going back from five bytes before the end there is a place where no character is cut, after three bytes at
most, and the part of the path before it is the longest start of that size. -/
theorem exists_beforeSuffix?_eq (path : String) : ∃ place front,
    Text.Utf8.boundaryBefore? (bytesOf path) ((bytesOf path).length - 5) = some place ∧
      (bytesOf path).length - 5 ≤ place + 3 ∧
      Text.Utf8.textBefore? (bytesOf path) place = some front ∧ beforeSuffix? path = some front ∧
      LongestStart (byteSize path.toList - 5) path.toList front.toList := by
  have hlength := length_bytesOf path
  obtain ⟨front, hfront, hplace, hle, hnear, hlongest⟩ :=
    Text.Utf8.exists_boundaryBefore?_eq (Nat.sub_le (byteSize path.toList) 5)
  have hfound : Text.Utf8.boundaryBefore? (bytesOf path) ((bytesOf path).length - 5) =
      some (byteSize front) := by
    rw [hlength]
    exact hplace
  have hbefore : Text.Utf8.textBefore? (bytesOf path) (byteSize front) = some (String.ofList front) :=
    Text.Utf8.textBefore?_start hfront
  refine ⟨byteSize front, String.ofList front, hfound, ?_, hbefore, ?_, ?_⟩
  · rw [hlength]
    exact hnear
  · rw [beforeSuffix?]
    dsimp only [suffixSize]
    rw [hfound, Option.bind_some, hbefore]
  · rw [String.toList_ofList]
    exact ⟨hfront, hle, hlongest⟩

theorem withoutSuffix_of_longestStart {front : String}
    (h : LongestStart (byteSize path.toList - 5) path.toList front.toList) :
    withoutSuffix path = if front = "" ∨ front = "/" then "/default" else front := by
  obtain ⟨_, other, _, _, _, hbefore, hother⟩ := exists_beforeSuffix?_eq path
  have hsame : other = front := String.toList_inj.mp (hother.unique h)
  rw [withoutSuffix, hbefore, hsame]
  split
  · contradiction
  · rename_i heq
    rw [Option.some.inj heq]
    rfl
  · rename_i heq
    rw [Option.some.inj heq]
    rfl
  · rename_i stripped hempty hroot heq
    cases heq
    rw [if_neg (not_or.mpr ⟨hempty, hroot⟩)]

theorem strippedTo_iff {stripped : String} :
    StrippedTo path stripped ↔ withoutSuffix path = stripped := by
  constructor
  · rintro (⟨cut, bare⟩ | ⟨cut, nonempty, notRoot⟩)
    · rw [withoutSuffix_of_longestStart cut, if_pos bare]
    · rw [withoutSuffix_of_longestStart cut, if_neg (not_or.mpr ⟨nonempty, notRoot⟩)]
  · rintro rfl
    obtain ⟨_, front, _, _, _, _, hcut⟩ := exists_beforeSuffix?_eq path
    rw [withoutSuffix_of_longestStart hcut]
    split_ifs with hbare
    · exact .index hcut hbare
    · obtain ⟨hempty, hroot⟩ := not_or.mp hbare
      exact .itself hcut hempty hroot

example : withoutSuffix "/caféjson" = "/caf" := by decide +kernel

/-! ## The answers -/

theorem resolve_eq_ok_iff {decision : Decision} : resolve m order requestPath = .ok decision ↔
    ∃ answers, (asks requestPath).map m = answers.map .ok ∧ decide answers = decision := by
  rw [resolve]
  constructor
  · intro h
    cases hsettle : Join.settle order ((asks requestPath).map m) with
    | error fault =>
        rw [hsettle] at h
        cases h
    | ok answers =>
        rw [hsettle] at h
        exact ⟨answers, Join.settle_eq_ok_iff.mp hsettle, Except.ok.inj h⟩
  · rintro ⟨answers, hanswers, rfl⟩
    rw [Join.settle_eq_ok_iff.mpr hanswers]
    rfl

/-- Routing fails with the fault of a path that the matcher is asked for. -/
theorem exists_of_resolve_eq_error {fault : Fault} (h : resolve m order requestPath = .error fault) :
    ∃ path ∈ asks requestPath, m path = .error fault := by
  rw [resolve] at h
  cases hsettle : Join.settle order ((asks requestPath).map m) with
  | ok answers =>
      rw [hsettle] at h
      cases h
  | error other =>
      rw [hsettle] at h
      cases h
      exact List.mem_map.mp (Join.error_mem_of_settle_eq_error hsettle)

/-- The template of a decision is one that the matcher answered with. -/
theorem exists_of_template {decision : Decision} {template : Path}
    (h : resolve m order requestPath = .ok decision) (htemplate : decision.targets.template = some template) :
    ∃ path targets, m path = .ok targets ∧ targets.template = some template := by
  obtain ⟨answers, hanswers, rfl⟩ := resolve_eq_ok_iff.mp h
  obtain ⟨targets, hmem, htargets⟩ : ∃ targets ∈ answers, targets.template = some template := by
    match answers with
    | [] => cases htemplate
    | [targets] => exact ⟨targets, List.mem_cons_self, htemplate⟩
    | given :: stripped :: rest => exact ⟨stripped, by simp, htemplate⟩
  have hanswer : .ok targets ∈ (asks requestPath).map m := by
    rw [hanswers]
    exact List.mem_map_of_mem hmem
  obtain ⟨path, _, hpath⟩ := List.mem_map.mp hanswer
  exact ⟨path, targets, hpath, htargets⟩

theorem resolve_eq_error_iff : (∃ fault, resolve m order requestPath = .error fault) ↔
    ∃ path ∈ asks requestPath, ∃ fault, m path = .error fault := by
  constructor
  · rintro ⟨fault, h⟩
    obtain ⟨path, hpath, hfault⟩ := exists_of_resolve_eq_error h
    exact ⟨path, hpath, fault, hfault⟩
  · rintro ⟨path, hpath, fault, hfault⟩
    cases h : resolve m order requestPath with
    | error other => exact ⟨other, rfl⟩
    | ok decision =>
        obtain ⟨answers, hanswers, _⟩ := resolve_eq_ok_iff.mp h
        have hmem : Except.error fault ∈ answers.map Except.ok := by
          rw [← hanswers, ← hfault]
          exact List.mem_map_of_mem hpath
        obtain ⟨answer, _, hanswer⟩ := List.mem_map.mp hmem
        cases hanswer

/-- What is decided for a request path may change when the matcher changes its answer for a path alone. -/
def DependsOn (order : List Nat) (requestPath path : String) : Prop :=
  ∃ m other : Matcher, (∀ p, p ≠ path → other p = m p) ∧
    resolve other order requestPath ≠ resolve m order requestPath

theorem dependsOn_iff : DependsOn order requestPath path ↔ path ∈ asks requestPath := by
  constructor
  · rintro ⟨m, other, hagree, hne⟩
    by_contra hpath
    have hmap : (asks requestPath).map other = (asks requestPath).map m :=
      List.map_congr_left fun p hp => hagree p fun heq => hpath (heq ▸ hp)
    rw [resolve, resolve, hmap] at hne
    exact hne rfl
  · intro hpath
    refine ⟨fun _ => .ok .none, fun p => if p = path then .error ⟨p, ""⟩ else .ok .none,
      fun p hp => if_neg hp, ?_⟩
    obtain ⟨fault, hfails⟩ : ∃ fault, resolve
        (fun p => if p = path then .error ⟨p, ""⟩ else .ok .none) order requestPath = .error fault :=
      resolve_eq_error_iff.mpr ⟨path, hpath, ⟨path, ""⟩, if_pos rfl⟩
    rw [hfails]
    intro hsame
    obtain ⟨_, _, _, hfault⟩ := resolve_eq_error_iff.mp ⟨fault, hsame.symm⟩
    cases hfault

/-! ## The policy -/

/-- How a request path is decided on that is routed as a path which does not ask for data. -/
structure DecidesPage (m : Matcher) (order : List Nat) (requestPath path : String) : Prop where
  /-- The matcher is asked once. -/
  asks : asks requestPath = [path]
  /-- The decision is its answer, and a template may be rendered. -/
  decision : resolve m order requestPath = (m path).map fun targets => ⟨targets, true⟩

/-- How a request path is decided on that is routed as a path which asks for data, and is `stripped` without
its ending. -/
structure DecidesData (m : Matcher) (order : List Nat) (requestPath path stripped : String) : Prop where
  /-- The matcher is asked for both paths. -/
  asks : asks requestPath = [path, stripped]
  /-- There is a decision when there are both answers. Only the second one has a say in the controller and
  the template, and the static file is that of the first one, if it has one. -/
  decision : ∀ decision, resolve m order requestPath = .ok decision ↔
    ∃ given target, m path = .ok given ∧ m stripped = .ok target ∧
      decision = ⟨⟨target.controller, target.template, given.static.or target.static⟩, false⟩
  /-- There is none when there is no answer for one of the paths. -/
  fails : (∃ fault, resolve m order requestPath = .error fault) ↔
    (∃ fault, m path = .error fault) ∨ ∃ fault, m stripped = .error fault
  /-- The fault is then that of one of the paths. -/
  fault : ∀ fault, resolve m order requestPath = .error fault →
    m path = .error fault ∨ m stripped = .error fault
  /-- It is that of the path whose answer arrives first, if this is a fault. -/
  first : ∀ fault, (order.head? = some 0 → m path = .error fault →
      resolve m order requestPath = .error fault) ∧
    (order.head? = some 1 → m stripped = .error fault →
      resolve m order requestPath = .error fault)

theorem decidesPage (m : Matcher) (order : List Nat) (h : ¬ AsksForData (asked requestPath)) :
    DecidesPage m order requestPath (asked requestPath) := by
  have hasks : asks requestPath = [asked requestPath] := by
    simp only [asks, if_neg (wantsData_iff.not.mpr h)]
  refine ⟨hasks, ?_⟩
  cases hanswer : m (asked requestPath) with
  | ok targets =>
      refine resolve_eq_ok_iff.mpr ⟨[targets], ?_, rfl⟩
      rw [hasks, List.map_singleton, hanswer, List.map_singleton]
  | error fault =>
      obtain ⟨other, hother⟩ : ∃ other, resolve m order requestPath = .error other :=
        resolve_eq_error_iff.mpr ⟨_, hasks ▸ List.mem_singleton_self _, fault, hanswer⟩
      obtain ⟨path, hpath, hfault⟩ := exists_of_resolve_eq_error hother
      rw [hasks, List.mem_singleton] at hpath
      rw [hpath, hanswer] at hfault
      rw [hother, ← Except.error.inj hfault]
      rfl

theorem resolve_of_head? {task : Nat} {fault : Fault} (hfirst : order.head? = some task)
    (hpath : (asks requestPath)[task]? = some path) (hfault : m path = .error fault) :
    resolve m order requestPath = .error fault := by
  obtain ⟨later, rfl⟩ := List.head?_eq_some_iff.mp hfirst
  have hfails : Join.failureAt? ((asks requestPath).map m) task = some fault := by
    rw [Join.failureAt?_eq_some_iff, List.getElem?_map, hpath, Option.map_some, hfault]
  rw [resolve, Join.settle_eq, List.cons_append, List.findSome?_cons, hfails]
  rfl

theorem decidesData (m : Matcher) (order : List Nat) (h : AsksForData (asked requestPath)) :
    DecidesData m order requestPath (asked requestPath) (withoutSuffix (asked requestPath)) := by
  have hasks : asks requestPath = [asked requestPath, withoutSuffix (asked requestPath)] := by
    simp only [asks, if_pos (wantsData_iff.mpr h)]
  refine ⟨hasks, ?_, ?_, ?_, ?_⟩
  · intro decision
    rw [resolve_eq_ok_iff, hasks]
    constructor
    · rintro ⟨answers, hanswers, rfl⟩
      have hlength := congrArg List.length hanswers
      rw [List.length_map, List.length_map] at hlength
      obtain ⟨given, target, rfl⟩ := List.length_eq_two.mp hlength.symm
      obtain ⟨hgiven, htarget⟩ : m (asked requestPath) = .ok given ∧
          m (withoutSuffix (asked requestPath)) = .ok target := by simpa using hanswers
      exact ⟨given, target, hgiven, htarget, rfl⟩
    · rintro ⟨given, target, hgiven, htarget, rfl⟩
      exact ⟨[given, target], by simp [hgiven, htarget], rfl⟩
  · rw [resolve_eq_error_iff, hasks]
    simp
  · intro fault hfault
    obtain ⟨path, hpath, hfails⟩ := exists_of_resolve_eq_error hfault
    rw [hasks] at hpath
    rcases List.mem_cons.mp hpath with rfl | hpath
    · exact .inl hfails
    · rw [List.mem_singleton.mp hpath] at hfails
      exact .inr hfails
  · intro fault
    exact ⟨fun hfirst => resolve_of_head? hfirst (by rw [hasks]; rfl),
      fun hfirst => resolve_of_head? hfirst (by rw [hasks]; rfl)⟩

/-- Every request path is routed by one policy, whatever the matcher answers and in whatever order the answers
arrive. -/
theorem routing_policy (m : Matcher) (order : List Nat) (requestPath : String) :
    ∃ path stripped, RoutedAs requestPath path ∧ StrippedTo path stripped ∧
      (∀ p, DependsOn order requestPath p ↔ p = path ∨ AsksForData path ∧ p = stripped) ∧
      (¬ AsksForData path → DecidesPage m order requestPath path) ∧
      (AsksForData path → DecidesData m order requestPath path stripped) := by
  refine ⟨asked requestPath, withoutSuffix (asked requestPath), routedAs_iff.mpr rfl,
    strippedTo_iff.mpr rfl, ?_, decidesPage m order, decidesData m order⟩
  intro p
  rw [dependsOn_iff]
  by_cases hdata : AsksForData (asked requestPath)
  · rw [(decidesData m order hdata).asks]
    simp [hdata]
  · rw [(decidesPage m order hdata).asks, List.mem_singleton]
    simp [hdata]

/-! ## A page and its data -/

/-- A path without a query that does not ask for data is routed as itself or as the index. -/
theorem asked_page (hquery : '?' ∉ path.toList) (hpage : ¬ AsksForData path) :
    asked path = if path = "" ∨ path = "/" then "/default" else path := by
  have hdata : path ≠ "/.json" := by
    rintro rfl
    exact hpage ⟨"/.", by decide⟩
  rw [asked_of_beforeQuery ⟨hquery, .inl rfl⟩, if_neg hdata]

theorem asked_data (hquery : '?' ∉ path.toList) :
    asked (path ++ ".json") = if path = "/" then "/default.json" else path ++ ".json" := by
  have hlist : (path ++ ".json").toList = path.toList ++ ".json".toList := String.toList_append
  have hwhole : '?' ∉ (path ++ ".json").toList := by
    rw [hlist]
    exact List.not_mem_append hquery (by decide)
  have hbare : ¬ (path ++ ".json" = "" ∨ path ++ ".json" = "/") := by
    rintro (heq | heq)
    all_goals
      have hlength := congrArg (fun text : String => text.toList.length) heq
      simp [hlist] at hlength
  have hroot : path ++ ".json" = "/.json" ↔ path = "/" := by
    have hslash : "/.json".toList = "/".toList ++ ".json".toList := rfl
    rw [← String.toList_inj, ← String.toList_inj, hlist, hslash, List.append_left_inj]
  rw [asked_of_beforeQuery ⟨hwhole, .inl rfl⟩, if_neg hbare]
  split_ifs <;> simp_all

theorem asksForData_asked (hquery : '?' ∉ path.toList) : AsksForData (asked (path ++ ".json")) := by
  rw [asked_data hquery]
  split_ifs
  · exact ⟨"/default.", rfl⟩
  · exact ⟨path ++ ".", String.toList_inj.mp (by simp)⟩

theorem longestStart_append (front ending : List Char) :
    LongestStart (byteSize (front ++ ending) - byteSize ending) (front ++ ending) front := by
  have hlimit : byteSize (front ++ ending) - byteSize ending = byteSize front := by
    rw [Text.Utf8.byteSize_append]
    omega
  rw [hlimit]
  exact ⟨List.prefix_append front ending, le_refl _, fun other hother hle =>
    Text.Utf8.prefix_of_byteSize_le (List.prefix_append front ending) hother hle⟩

theorem withoutSuffix_append (path : String) :
    withoutSuffix (path ++ ".json") = if path = "" ∨ path = "/" then "/default" else path := by
  have hcut := longestStart_append path.toList ".json".toList
  rw [← String.toList_append] at hcut
  exact withoutSuffix_of_longestStart hcut

/-- What is left of a path for data without its ending is the page. -/
theorem withoutSuffix_data (path : String) :
    withoutSuffix (if path = "/" then "/default.json" else path ++ ".json") =
      if path = "" ∨ path = "/" then "/default" else path := by
  by_cases hroot : path = "/"
  · rw [if_pos hroot, if_pos (.inr hroot)]
    decide +kernel
  · rw [if_neg hroot, withoutSuffix_append]

/-- The ending is cut off safely from every path, however short it is and whatever character the cut would run
through. The search for a place to cut at starts five bytes before the end, or at the start of a shorter path,
does not go on below the start, and goes back three bytes at most. No character is cut at the place that it
finds, and the path before it is the longest start that takes no more bytes. That is what the path is matched
as, where nothing and a slash stand for the index; so of a path with `.json` behind it the path is left. -/
theorem suffix_cut_safely (path : String) :
    (∃ place front,
      Text.Utf8.boundaryBefore? (bytesOf path) ((bytesOf path).length - 5) = some place ∧
      (bytesOf path).length - 5 ≤ place + 3 ∧
      Text.Utf8.textBefore? (bytesOf path) place = some front ∧ beforeSuffix? path = some front ∧
      LongestStart ((bytesOf path).length - 5) path.toList front.toList ∧
      withoutSuffix path = if front = "" ∨ front = "/" then "/default" else front) ∧
    withoutSuffix (path ++ ".json") = if path = "" ∨ path = "/" then "/default" else path := by
  refine ⟨?_, withoutSuffix_append path⟩
  obtain ⟨place, front, hplace, hnear, htext, hbefore, hcut⟩ := exists_beforeSuffix?_eq path
  have hstripped := withoutSuffix_of_longestStart hcut
  rw [← length_bytesOf] at hcut
  exact ⟨place, front, hplace, hnear, htext, hbefore, hcut, hstripped⟩

/-- A path that ends in `.json` is routed as one that asks for data. -/
theorem wantsData_asked (h : ".json".toList <:+ path.toList) (hquery : '?' ∉ path.toList) :
    wantsData (asked path) = true := by
  obtain ⟨front, hfront⟩ := h
  have hpath : path = String.ofList front ++ ".json" := String.toList_inj.mp (by simp [← hfront])
  rw [hpath, String.toList_append, String.toList_ofList] at hquery
  rw [hpath, wantsData_iff]
  refine asksForData_asked ?_
  rw [String.toList_ofList]
  exact fun hmem => hquery (List.mem_append_left _ hmem)

/-- Where a path asks for data, nothing is to be rendered. -/
theorem render_of_wantsData {decision : Decision} (hdata : wantsData (asked requestPath) = true)
    (h : resolve m order requestPath = .ok decision) : decision.render = false := by
  obtain ⟨given, target, _, _, rfl⟩ :=
    ((decidesData m order (wantsData_iff.mp hdata)).decision decision).mp h
  rfl

/-- What is decided for a page and for its data, by the answers of one matcher. -/
structure AgreeOnTargets (m : Matcher) (path : String) (data page : Decision) : Prop where
  controller : data.targets.controller = page.targets.controller
  template : data.targets.template = page.targets.template
  dataRender : data.render = false
  pageRender : page.render = true
  /-- The static file is the same too, if there is none for the path of the data; for the index this is the
  path of its data, not a slash with an ending. -/
  static : (∀ given, m (if path = "/" then "/default.json" else path ++ ".json") = .ok given →
    given.static = none) → data.targets.static = page.targets.static

/-- A page and its data are served by the same controller and template, whatever the matcher answers and in
whatever order the answers arrive. -/
theorem data_agrees_with_page {other : List Nat} {data page : Decision}
    (hquery : '?' ∉ path.toList) (hpage : ¬ AsksForData path)
    (hdata : resolve m order (path ++ ".json") = .ok data) (hhtml : resolve m other path = .ok page) :
    AgreeOnTargets m path data page := by
  have haskedData := asked_data hquery
  have haskedPage := asked_page hquery hpage
  have hasksPage : ¬ AsksForData (asked path) := by
    rw [haskedPage]
    split_ifs
    · exact wantsData_iff.not.mp (by decide)
    · exact hpage
  obtain ⟨given, target, hgiven, htarget, rfl⟩ :=
    ((decidesData m order (asksForData_asked hquery)).decision data).mp hdata
  rw [haskedData] at hgiven
  rw [haskedData, withoutSuffix_data, ← haskedPage] at htarget
  rw [(decidesPage m other hasksPage).decision, htarget] at hhtml
  cases hhtml
  refine ⟨rfl, rfl, rfl, rfl, fun hstatic => ?_⟩
  dsimp only
  rw [hstatic given hgiven, Option.none_or]

/-- A site with a page of summer, and with a controller at the path of its data. -/
def summer : Matcher := fun path =>
  if path = "/été" then .ok ⟨some "summer", some ⟨"/t/summer.tmpl"⟩, some ⟨"/s/summer"⟩⟩
  else if path = "/été.json" then .ok ⟨some "other", none, none⟩
  else .error ⟨path, "not asked for"⟩

theorem summer_data_agrees :
    '?' ∉ "/été".toList ∧ ¬ AsksForData "/été" ∧
      resolve summer [1, 0] ("/été" ++ ".json") =
        .ok ⟨⟨some "summer", some ⟨"/t/summer.tmpl"⟩, some ⟨"/s/summer"⟩⟩, false⟩ ∧
      resolve summer [] "/été" =
        .ok ⟨⟨some "summer", some ⟨"/t/summer.tmpl"⟩, some ⟨"/s/summer"⟩⟩, true⟩ ∧
      AgreeOnTargets summer "/été"
        ⟨⟨some "summer", some ⟨"/t/summer.tmpl"⟩, some ⟨"/s/summer"⟩⟩, false⟩
        ⟨⟨some "summer", some ⟨"/t/summer.tmpl"⟩, some ⟨"/s/summer"⟩⟩, true⟩ := by
  have hquery : '?' ∉ "/été".toList := by decide
  have hpage : ¬ AsksForData "/été" := wantsData_iff.not.mp (by decide +kernel)
  have hdata : resolve summer [1, 0] ("/été" ++ ".json") =
      .ok ⟨⟨some "summer", some ⟨"/t/summer.tmpl"⟩, some ⟨"/s/summer"⟩⟩, false⟩ := by decide +kernel
  have hhtml : resolve summer [] "/été" =
      .ok ⟨⟨some "summer", some ⟨"/t/summer.tmpl"⟩, some ⟨"/s/summer"⟩⟩, true⟩ := by decide +kernel
  exact ⟨hquery, hpage, hdata, hhtml, data_agrees_with_page hquery hpage hdata hhtml⟩

/-- A site with a controller for its index, and with a file for the data of the index. -/
def indexFile : Matcher := fun path =>
  if path = "/default" then .ok ⟨some "default", none, none⟩
  else if path = "/default.json" then .ok ⟨none, none, some ⟨"/site/public/default.json"⟩⟩
  else .ok .none

/-- The data of the index is not matched as a slash with an ending: that there is no file for this path says
nothing about the file that is sent. -/
theorem index_data_has_file :
    '?' ∉ "/".toList ∧ ¬ AsksForData "/" ∧ indexFile ("/" ++ ".json") = .ok .none ∧
      resolve indexFile [] "/" = .ok ⟨⟨some "default", none, none⟩, true⟩ ∧
      resolve indexFile [] ("/" ++ ".json") =
        .ok ⟨⟨some "default", none, some ⟨"/site/public/default.json"⟩⟩, false⟩ :=
  ⟨by decide, wantsData_iff.not.mp (by decide), by decide +kernel, by decide +kernel, by decide +kernel⟩

end SiteServer.Route
