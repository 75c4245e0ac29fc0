import SiteServer.Intake
import SiteServer.Proofs.FileTree.Removal

/-! # What is released when a request is over.

The tracked files are removed one after the other, whatever becomes of the single ones. So all of them are gone
afterwards and nothing else is, in whatever order they were tracked and however often. What is reported is the
first removal that fails at its turn, when the files of the paths before it are gone already; that there is
nothing to remove is no failure. -/

namespace SiteServer.Intake

open Message (Request)

variable {files : FileTree} {request : Request} {fault : IoFault} {place : Nat}

/-- At a place in a list of paths, when the files of the paths before it are gone, the removal fails, and not
because there is nothing to remove. -/
def FailsAt (files : FileTree) (paths : List Path) (place : Nat) (fault : IoFault) : Prop :=
  ∃ path, paths[place]? = some path ∧ (files.without (paths.take place)).remove path = .error fault ∧
    fault ≠ .notFound

def fault? : Except IoFault FileTree → Option IoFault
  | .ok _ => none
  | .error .notFound => none
  | .error fault => some fault

theorem fault?_eq_some_iff {result : Except IoFault FileTree} :
    fault? result = some fault ↔ result = .error fault ∧ fault ≠ .notFound := by
  constructor
  · intro h
    unfold fault? at h
    split at h
    · cases h
    · cases h
    · rename_i hne
      cases h
      exact ⟨rfl, hne⟩
  · rintro ⟨rfl, hne⟩
    cases fault with
    | notFound => exact absurd rfl hne
    | _ => rfl

/-- However the removal of a path ends, the others are removed behind it. -/
theorem removeAll_cons (tree : FileTree) (path : Path) (rest : List Path) :
    removeAll tree (path :: rest) =
      ((removeAll ((tree.remove path).toOption.getD tree) rest).1,
        (fault? (tree.remove path)).toList ++ (removeAll ((tree.remove path).toOption.getD tree) rest).2) := by
  rw [removeAll]
  cases tree.remove path with
  | ok left => rfl
  | error fault => cases fault <;> rfl

/-- What is left behind some paths, and what was reported from there on. -/
theorem removeAll_without (files : FileTree) (front path rest) :
    removeAll (files.without front) (path :: rest) =
      ((removeAll (files.without (front ++ [path])) rest).1,
        (fault? ((files.without front).remove path)).toList ++
          (removeAll (files.without (front ++ [path])) rest).2) := by
  rw [removeAll_cons, ← FileTree.without_concat]

theorem files_removeAll (files : FileTree) (front rest : List Path) :
    (removeAll (files.without front) rest).1 = files.without (front ++ rest) := by
  induction rest generalizing front with
  | nil => rw [removeAll, List.append_nil]
  | cons path rest ih =>
      rw [removeAll_without, ih, List.append_assoc]
      rfl

theorem failsAt_append_iff {front : List Path} {path : Path} {rest : List Path} :
    FailsAt files (front ++ path :: rest) front.length fault ↔
      fault? ((files.without front).remove path) = some fault := by
  rw [fault?_eq_some_iff]
  simp [FailsAt]

/-- The first fault that is reported is that of the first removal that fails. -/
theorem head?_removeAll_eq_some_iff {front rest : List Path} :
    (removeAll (files.without front) rest).2.head? = some fault ↔
      ∃ place, front.length ≤ place ∧ FailsAt files (front ++ rest) place fault ∧
        ∀ other, front.length ≤ other → other < place → ∀ earlier,
          ¬ FailsAt files (front ++ rest) other earlier := by
  induction rest generalizing front with
  | nil =>
      constructor
      · intro h
        cases h
      · rintro ⟨place, hplace, ⟨path, hpath, _⟩, _⟩
        rw [List.append_nil, List.getElem?_eq_none hplace] at hpath
        cases hpath
  | cons path rest ih =>
      have hpaths : front ++ path :: rest = front ++ [path] ++ rest := by simp
      rw [removeAll_without]
      cases hfault : fault? ((files.without front).remove path) with
      | some first =>
          have hfirst : FailsAt files (front ++ path :: rest) front.length first :=
            failsAt_append_iff.mpr hfault
          constructor
          · intro h
            cases h
            refine ⟨front.length, Nat.le_refl _, hfirst, ?_⟩
            intro other hle hlt
            omega
          · rintro ⟨place, hplace, hfails, hbefore⟩
            rcases Nat.eq_or_lt_of_le hplace with rfl | hlt
            · rw [← failsAt_append_iff.mp hfails]
              simp [hfault]
            · exact absurd hfirst (hbefore front.length (Nat.le_refl _) hlt first)
      | none =>
          have hnone : ∀ other, ¬ FailsAt files (front ++ path :: rest) front.length other := by
            intro other hother
            rw [failsAt_append_iff, hfault] at hother
            cases hother
          rw [Option.toList_none, List.nil_append, ih, ← hpaths]
          simp only [List.length_append, List.length_singleton]
          constructor
          · rintro ⟨place, hplace, hfails, hbefore⟩
            refine ⟨place, by omega, hfails, ?_⟩
            intro other hle hlt
            rcases Nat.eq_or_lt_of_le hle with rfl | hle
            · exact hnone
            · exact hbefore other hle hlt
          · rintro ⟨place, hplace, hfails, hbefore⟩
            have hne : front.length ≠ place := by
              rintro rfl
              exact hnone fault hfails
            refine ⟨place, by omega, hfails, ?_⟩
            intro other hle hlt
            exact hbefore other (by omega) hlt

/-- A file is in the way of a path below it, until it is removed. -/
example : removeAll ⟨[(["f"], .file [])]⟩ [⟨"f/g"⟩, ⟨"f"⟩, ⟨"f/g"⟩] = (.empty, [.notDirectory]) := by rfl

/-- What releasing the tracked files comes to: none is tracked any more, those that were regular files are gone,
nothing else has changed, and the first removal that failed is reported. A second release does nothing. -/
structure ReleasesAll (files : FileTree) (request : Request) (out : Outcome) : Prop where
  untracked : out.request = { request with tempFiles := [] }
  left : out.files = files.without request.tempFiles
  gone : ∀ path ∈ request.tempFiles, files.isFile path = true → out.files.occupied path = false
  kept : ∀ place, (∀ path ∈ request.tempFiles, files.fileOf? path ≠ some place) →
    out.files.occupant? place = files.occupant? place
  succeeds : out.result = .ok () ↔ ∀ place fault, ¬ FailsAt files request.tempFiles place fault
  fails : ∀ failure, out.result = .error failure ↔
    ∃ place fault, FailsAt files request.tempFiles place fault ∧
      (∀ other < place, ∀ earlier, ¬ FailsAt files request.tempFiles other earlier) ∧ failure = .io fault
  again : release out.files out.request = ⟨.ok (), out.files, out.request, []⟩

/-- There is a first removal that fails if there is any. -/
theorem exists_first_of_failsAt {paths : List Path} (h : FailsAt files paths place fault) :
    ∃ first earliest, FailsAt files paths first earliest ∧
      ∀ other < first, ∀ earlier, ¬ FailsAt files paths other earlier := by
  induction place using Nat.strongRecOn generalizing fault with
  | ind place ih =>
      by_cases hbefore : ∃ other < place, ∃ earlier, FailsAt files paths other earlier
      · obtain ⟨other, hlt, earlier, hother⟩ := hbefore
        exact ih other hlt hother
      · refine ⟨place, fault, h, ?_⟩
        intro other hlt earlier hother
        exact hbefore ⟨other, hlt, earlier, hother⟩

theorem files_release (files : FileTree) (request : Request) :
    (release files request).files = files.without request.tempFiles := by
  have h := files_removeAll files [] request.tempFiles
  rwa [FileTree.without_nil, List.nil_append] at h

theorem result_release_eq_error_iff {failure : Failure} :
    (release files request).result = .error failure ↔
      ∃ fault, (removeAll files request.tempFiles).2.head? = some fault ∧ failure = .io fault := by
  rw [release]
  dsimp only
  cases (removeAll files request.tempFiles).2.head? with
  | none => simp
  | some fault => simp [eq_comm]

/-- The fault that is reported is that of the first removal that fails. -/
theorem release_fails_iff {failure : Failure} :
    (release files request).result = .error failure ↔
      ∃ place fault, FailsAt files request.tempFiles place fault ∧
        (∀ other < place, ∀ earlier, ¬ FailsAt files request.tempFiles other earlier) ∧
          failure = .io fault := by
  have hfirst (fault : IoFault) : (removeAll files request.tempFiles).2.head? = some fault ↔
      ∃ place, FailsAt files request.tempFiles place fault ∧
        ∀ other < place, ∀ earlier, ¬ FailsAt files request.tempFiles other earlier := by
    have h := @head?_removeAll_eq_some_iff files fault [] request.tempFiles
    simpa [FileTree.without_nil] using h
  rw [result_release_eq_error_iff]
  constructor
  · rintro ⟨fault, hhead, rfl⟩
    obtain ⟨place, hfails, hbefore⟩ := (hfirst fault).mp hhead
    exact ⟨place, fault, hfails, hbefore, rfl⟩
  · rintro ⟨place, fault, hfails, hbefore, rfl⟩
    exact ⟨fault, (hfirst fault).mpr ⟨place, hfails, hbefore⟩, rfl⟩

theorem release_succeeds_iff : (release files request).result = .ok () ↔
    ∀ place fault, ¬ FailsAt files request.tempFiles place fault := by
  constructor
  · intro hok place fault hfails
    obtain ⟨first, earliest, hfails, hbefore⟩ := exists_first_of_failsAt hfails
    rw [release_fails_iff.mpr ⟨first, earliest, hfails, hbefore, rfl⟩] at hok
    cases hok
  · intro hnone
    cases hresult : (release files request).result with
    | ok _ => rfl
    | error failure =>
        obtain ⟨place, fault, hfails, _⟩ := release_fails_iff.mp hresult
        exact absurd hfails (hnone place fault)

/-- Every tracked file that can be released is released, whatever happens to the others. -/
theorem release_releasesAll (options : ParserOptions) (files : FileTree) (request : Request) :
    ReleasesAll files request ((usual options).cleanup files request) := by
  change ReleasesAll files request (release files request)
  refine ⟨rfl, files_release files request, ?_, ?_, release_succeeds_iff, ?_, rfl⟩
  · intro path hpath hfile
    rw [files_release]
    exact FileTree.occupied_without hpath hfile
  · intro place hplace
    rw [files_release]
    exact FileTree.occupant?_without_of_forall_ne hplace
  · intro failure
    exact release_fails_iff

end SiteServer.Intake
