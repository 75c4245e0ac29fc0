import Mathlib.Data.List.Basic
import Mathlib.Data.List.Induction
import SiteServer.Join

/-! # What waiting for several tasks comes to.

Slots and failure are known exactly at every moment of a wait: they depend on which tasks have finished, and
the failure on the order in which these did. When all have finished, no slot is empty unless a task failed, so
that no value is dropped and none is shifted. -/

namespace SiteServer.Join

variable {ε α : Type} {order : List Nat} {results : List (Except ε α)}

/-! ## Results -/

def failure? : Except ε α → Option ε
  | .ok _ => none
  | .error e => some e

def value? : Except ε α → Option α
  | .ok a => some a
  | .error _ => none

/-- The failure of a task, if it fails. -/
def failureAt? (results : List (Except ε α)) (task : Nat) : Option ε :=
  results[task]?.bind failure?

theorem failureAt?_eq_some_iff {task : Nat} {e : ε} :
    failureAt? results task = some e ↔ results[task]? = some (.error e) := by
  rw [failureAt?]
  cases results[task]? with
  | none => simp
  | some result => cases result <;> simp [failure?]

theorem value?_map_ok (values : List α) :
    (values.map (Except.ok (ε := ε))).filterMap value? = values := by
  induction values with
  | nil => rfl
  | cons value values ih => simpa [value?] using ih

/-! ## Every moment of a wait -/

namespace Wait

/-- What is known of a wait when these tasks have finished, in this order. -/
structure Tracks (results : List (Except ε α)) (finished : List Nat) (wait : Wait ε α) : Prop where
  pending : ∀ task, task ∈ wait.pending ↔ task < results.length ∧ task ∉ finished
  slots : ∀ task, wait.slots[task]? =
    results[task]?.map fun result => if task ∈ finished then value? result else none
  failure : wait.failure = finished.findSome? (failureAt? results)

variable {finished : List Nat} {wait : Wait ε α} {task : Nat}

theorem tracks_start (results : List (Except ε α)) : (start results.length).Tracks results [] where
  pending task := by simp [start]
  slots task := by
    rw [start, List.getElem?_replicate]
    by_cases h : task < results.length
    · simp [h]
    · simp [h]
  failure := rfl

/-- A task that finishes fills its slot, or its failure arrives. -/
theorem Tracks.finish {result : Except ε α} (h : wait.Tracks results finished)
    (hresult : results[task]? = some result) :
    (wait.finish task result).Tracks results (finished ++ [task]) := by
  have hpending : ∀ other, other ∈ wait.pending.filter (· ≠ task) ↔
      other < results.length ∧ other ∉ finished ++ [task] := by
    intro other
    simp [h.pending, and_assoc]
  have hlt : task < results.length := (List.getElem?_eq_some_iff.mp hresult).1
  cases result with
  | ok value =>
      refine ⟨hpending, ?_, ?_⟩
      · intro other
        have hlength : task < wait.slots.length := by
          by_contra hbeyond
          have hnone := h.slots task
          rw [List.getElem?_eq_none (Nat.le_of_not_lt hbeyond), hresult] at hnone
          cases hnone
        by_cases hother : task = other
        · subst hother
          simp [Wait.finish, hlength, hresult, value?]
        · simp [Wait.finish, hother, Ne.symm hother, h.slots]
      · simp [Wait.finish, h.failure, failureAt?, hresult, failure?]
  | error e =>
      refine ⟨hpending, ?_, ?_⟩
      · intro other
        by_cases hother : other = task
        · subst hother
          simp [Wait.finish, h.slots, hresult, value?]
        · simp [Wait.finish, hother, h.slots]
      · simp [Wait.finish, h.failure, failureAt?, hresult, failure?]

/-- The result of a task that has finished before, or of no task at all, changes nothing. -/
theorem Tracks.ignore (h : wait.Tracks results finished)
    (hdone : task < results.length → task ∈ finished) :
    wait.Tracks results (finished ++ [task]) := by
  have hmem : ∀ other < results.length, other ∈ finished ++ [task] ↔ other ∈ finished := by
    intro other hlt
    refine ⟨fun hother => ?_, List.mem_append_left _⟩
    rcases List.mem_append.mp hother with hold | hnew
    · exact hold
    · cases List.mem_singleton.mp hnew
      exact hdone hlt
  refine ⟨?_, ?_, ?_⟩
  · intro other
    rw [h.pending]
    exact and_congr_right fun hlt => not_congr (hmem other hlt).symm
  · intro other
    rw [h.slots]
    by_cases hlt : other < results.length
    · simp only [hmem other hlt]
    · rw [List.getElem?_eq_none (Nat.le_of_not_lt hlt)]
      rfl
  · rw [h.failure, List.findSome?_append]
    cases hfirst : finished.findSome? (failureAt? results) with
    | some e => rfl
    | none =>
        have hquiet : failureAt? results task = none := by
          by_cases hlt : task < results.length
          · exact List.findSome?_eq_none_iff.mp hfirst task (hdone hlt)
          · rw [failureAt?, List.getElem?_eq_none (Nat.le_of_not_lt hlt)]
            rfl
        simp [hquiet]

theorem Tracks.arrive (h : wait.Tracks results finished) (task : Nat) :
    (wait.arrive results task).Tracks results (finished ++ [task]) := by
  rw [Wait.arrive]
  cases hresult : results[task]? with
  | none =>
      refine h.ignore fun hlt => ?_
      rw [List.getElem?_eq_getElem hlt] at hresult
      cases hresult
  | some result =>
      dsimp only
      by_cases hpending : task ∈ wait.pending
      · rw [if_pos hpending]
        exact h.finish hresult
      · rw [if_neg hpending]
        refine h.ignore fun hlt => ?_
        by_contra hunfinished
        exact hpending ((h.pending task).mpr ⟨hlt, hunfinished⟩)

theorem tracks_after (results : List (Except ε α)) (finished : List Nat) :
    (after results finished).Tracks results finished := by
  induction finished using List.reverseRecOn with
  | nil => exact tracks_start results
  | append_singleton finished task ih =>
      rw [after, List.foldl_append]
      exact ih.arrive task

/-- When all tasks have finished, every slot holds what its task gave. -/
theorem Tracks.outcome_eq (h : wait.Tracks results finished)
    (hall : ∀ task < results.length, task ∈ finished) :
    wait.outcome = match finished.findSome? (failureAt? results) with
      | some e => .error e
      | none => .ok (results.filterMap value?) := by
  have hslots : wait.slots = results.map value? := by
    refine List.ext_getElem? fun task => ?_
    rw [h.slots, List.getElem?_map]
    by_cases hlt : task < results.length
    · simp [hall task hlt]
    · simp [List.getElem?_eq_none (Nat.le_of_not_lt hlt)]
  rw [outcome, h.failure, hslots, List.filterMap_map]
  rfl

theorem Tracks.answer?_eq_none (h : wait.Tracks results finished) (hlt : task < results.length)
    (hrunning : task ∉ finished) : wait.answer? = none := by
  have hmem := (h.pending task).mpr ⟨hlt, hrunning⟩
  rw [answer?, if_neg (List.ne_nil_of_mem hmem)]

theorem Tracks.answer?_eq_some (h : wait.Tracks results finished)
    (hall : ∀ task < results.length, task ∈ finished) : wait.answer? = some wait.outcome := by
  have hnone : wait.pending = [] := by
    refine List.eq_nil_iff_forall_not_mem.mpr fun task hmem => ?_
    obtain ⟨hlt, hunfinished⟩ := (h.pending task).mp hmem
    exact hunfinished (hall task hlt)
  rw [answer?, if_pos hnone]

end Wait

/-! ## The whole wait -/

theorem settle_eq (order : List Nat) (results : List (Except ε α)) :
    settle order results =
      match (order ++ List.range results.length).findSome? (failureAt? results) with
      | some e => .error e
      | none => .ok (results.filterMap value?) :=
  (Wait.tracks_after results _).outcome_eq fun _ hlt =>
    List.mem_append_right _ (List.mem_range.mpr hlt)

theorem error_mem_of_settle_eq_error {e : ε} (h : settle order results = .error e) :
    .error e ∈ results := by
  rw [settle_eq] at h
  split at h
  · rename_i found hfound
    cases h
    obtain ⟨task, _, hfault⟩ := List.exists_of_findSome?_eq_some hfound
    exact List.mem_of_getElem? (failureAt?_eq_some_iff.mp hfault)
  · cases h

/-- Waiting succeeds if and only if every task does, and then with their values in order. -/
theorem settle_eq_ok_iff {values : List α} :
    settle order results = .ok values ↔ results = values.map .ok := by
  rw [settle_eq]
  constructor
  · intro h
    split at h
    · cases h
    · rename_i hnone
      cases h
      have hall : ∀ result ∈ results, failure? result = none := by
        intro result hmem
        obtain ⟨task, hlt, rfl⟩ := List.mem_iff_getElem.mp hmem
        have hquiet := List.findSome?_eq_none_iff.mp hnone task
          (List.mem_append_right _ (List.mem_range.mpr hlt))
        simpa [failureAt?, hlt] using hquiet
      clear hnone
      induction results with
      | nil => rfl
      | cons result results ih =>
          have hresult := hall result List.mem_cons_self
          cases result with
          | error e => cases hresult
          | ok value =>
              have htail := ih fun other hother => hall other (List.mem_cons_of_mem _ hother)
              exact congrArg (Except.ok value :: ·) htail
  · rintro rfl
    split
    · rename_i found hfound
      obtain ⟨task, _, hfault⟩ := List.exists_of_findSome?_eq_some hfound
      obtain ⟨value, _, hvalue⟩ := List.mem_map.mp
        (List.mem_of_getElem? (failureAt?_eq_some_iff.mp hfault))
      cases hvalue
    · rw [value?_map_ok]

/-! ## A task that succeeds -/

/-- The place of a task among those other than one. -/
def placeBut? (one task : Nat) : Option Nat :=
  if task < one then some task else if task = one then none else some (task - 1)

theorem filterMap_placeBut?_range (one more : Nat) :
    (List.range (one + more + 1)).filterMap (placeBut? one) = List.range (one + more) := by
  induction more with
  | zero =>
      have hbefore : (List.range one).filterMap (placeBut? one) = List.range one := by
        conv_rhs => rw [← List.filterMap_some (l := List.range one)]
        exact List.filterMap_congr fun task htask => if_pos (List.mem_range.mp htask)
      rw [List.range_succ, List.filterMap_append, Nat.add_zero, hbefore]
      simp [placeBut?]
  | succ more ih =>
      have hlater : placeBut? one (one + more + 1) = some (one + more) := by
        rw [placeBut?, if_neg (by omega), if_neg (by omega), Nat.add_sub_cancel]
      rw [← Nat.add_assoc, List.range_succ, List.filterMap_append, ih, List.range_succ]
      simp [hlater]

theorem failureAt?_between (before : List (Except ε α)) (value : α) (behind : List (Except ε α))
    (task : Nat) : failureAt? (before ++ .ok value :: behind) task =
      (placeBut? before.length task).bind (failureAt? (before ++ behind)) := by
  unfold failureAt? placeBut?
  rcases Nat.lt_trichotomy task before.length with hlt | rfl | hgt
  · rw [if_pos hlt, List.getElem?_append_left hlt]
    simp [List.getElem?_append_left hlt]
  · simp [failure?]
  · obtain ⟨more, rfl⟩ := Nat.exists_eq_add_of_lt hgt
    rw [if_neg (by omega), if_neg (by omega), List.getElem?_append_right (by omega)]
    have hplace : before.length + more + 1 - before.length = more + 1 := by omega
    simp [hplace, List.getElem?_append_right]

/-- A task that succeeds has no part in which failure is reported, if one is. -/
theorem settle_between (order : List Nat) (before : List (Except ε α)) (value : α)
    (behind : List (Except ε α)) :
    (∃ e, settle order (before ++ .ok value :: behind) = .error e ∧
      settle (order.filterMap (placeBut? before.length)) (before ++ behind) = .error e) ∨
    ∃ first last : List α, before = first.map .ok ∧ behind = last.map .ok := by
  have hrange : (List.range (before ++ .ok value :: behind).length).filterMap
      (placeBut? before.length) = List.range (before ++ behind).length := by
    rw [List.length_append, List.length_cons, ← Nat.add_assoc, List.length_append]
    exact filterMap_placeBut?_range _ _
  have hfailure : (order ++ List.range (before ++ .ok value :: behind).length).findSome?
      (failureAt? (before ++ .ok value :: behind)) =
        (order.filterMap (placeBut? before.length) ++ List.range (before ++ behind).length).findSome?
          (failureAt? (before ++ behind)) := by
    rw [← hrange, ← List.filterMap_append, ← List.head?_filterMap (f := failureAt? (before ++ behind)),
      List.filterMap_filterMap, List.head?_filterMap]
    exact congrArg (List.findSome? · _) (funext (failureAt?_between before value behind))
  cases hsettle : settle (order.filterMap (placeBut? before.length)) (before ++ behind) with
  | error e =>
      refine .inl ⟨e, ?_, rfl⟩
      rw [settle_eq] at hsettle ⊢
      rw [hfailure]
      split at hsettle
      · exact hsettle
      · cases hsettle
  | ok values =>
      obtain ⟨first, last, _, hfirst, hlast⟩ := List.append_eq_map_iff.mp (settle_eq_ok_iff.mp hsettle)
      exact .inr ⟨first, last, hfirst.symm, hlast.symm⟩

/-! ## Orders in which every task finishes once -/

section Complete

variable (hperm : order.Perm (List.range results.length))

include hperm

theorem mem_of_complete {task : Nat} (hlt : task < results.length) : task ∈ order :=
  hperm.mem_iff.mpr (List.mem_range.mpr hlt)

theorem settle_eq_outcome : settle order results = (Wait.after results order).outcome := by
  rw [(Wait.tracks_after results order).outcome_eq fun _ => mem_of_complete hperm, settle_eq,
    List.findSome?_append]
  cases hfirst : order.findSome? (failureAt? results) with
  | some e => rfl
  | none =>
      have hrange : (List.range results.length).findSome? (failureAt? results) = none := by
        refine List.findSome?_eq_none_iff.mpr fun task hmem => ?_
        exact List.findSome?_eq_none_iff.mp hfirst task (hperm.mem_iff.mpr hmem)
      rw [Option.none_or, hrange]

/-- The failure that arrives first is the one that is reported. -/
theorem settle_eq_error_iff {e : ε} :
    settle order results = .error e ↔
      ∃ before task later, order = before ++ task :: later ∧ results[task]? = some (.error e) ∧
        ∀ other ∈ before, ∀ fault, results[other]? ≠ some (.error fault) := by
  have hquiet : ∀ task, failureAt? results task = none ↔
      ∀ fault, results[task]? ≠ some (.error fault) := by
    intro task
    simp only [Option.eq_none_iff_forall_ne_some, ne_eq, failureAt?_eq_some_iff]
  have hsettle : settle order results = .error e ↔
      order.findSome? (failureAt? results) = some e := by
    rw [settle_eq_outcome hperm,
      (Wait.tracks_after results order).outcome_eq fun _ => mem_of_complete hperm]
    cases order.findSome? (failureAt? results) <;> simp
  rw [hsettle, List.findSome?_eq_some_iff]
  simp only [failureAt?_eq_some_iff, hquiet]

end Complete

/-- How a wait for all tasks goes when they finish in an order. -/
structure SettlesAll (order : List Nat) (results : List (Except ε α)) : Prop where
  /-- There is no answer as long as a task has not finished. -/
  patient : ∀ finished unfinished, order = finished ++ unfinished → unfinished ≠ [] →
    (Wait.after results finished).answer? = none
  /-- There is one when all have. -/
  answers : (Wait.after results order).answer? = some (settle order results)
  /-- It is a success exactly if all tasks succeeded, with their values in the order of the tasks. -/
  values : ∀ values, settle order results = .ok values ↔ results = values.map .ok
  /-- Otherwise it is the failure that arrived before all others. -/
  first : ∀ e, settle order results = .error e ↔
    ∃ before task later, order = before ++ task :: later ∧ results[task]? = some (.error e) ∧
      ∀ other ∈ before, ∀ fault, results[other]? ≠ some (.error fault)
  /-- In any other order the same tasks give the same values, or none. -/
  orderFree : ∀ other : List Nat, other.Perm (List.range results.length) →
    (settle other results).toOption = (settle order results).toOption

/-- A wait for tasks that finish in any order, each once, settles all of them. -/
theorem settles_all (hperm : order.Perm (List.range results.length)) : SettlesAll order results where
  patient finished unfinished horder hne := by
    obtain ⟨task, rest, rfl⟩ := List.exists_cons_of_ne_nil hne
    have hlt : task < results.length :=
      List.mem_range.mp (hperm.subset (by simp [horder]))
    have hrunning : task ∉ finished := by
      have hnodup := hperm.nodup_iff.mpr List.nodup_range
      rw [horder] at hnodup
      exact fun hmem => (List.nodup_append.mp hnodup).2.2 task hmem task List.mem_cons_self rfl
    exact (Wait.tracks_after results finished).answer?_eq_none hlt hrunning
  answers := by
    rw [settle_eq_outcome hperm]
    exact (Wait.tracks_after results order).answer?_eq_some fun _ => mem_of_complete hperm
  values _ := settle_eq_ok_iff
  first _ := settle_eq_error_iff hperm
  orderFree other _ := by
    refine Option.ext fun values => ?_
    have htoOption : ∀ order : List Nat,
        (settle order results).toOption = some values ↔ results = values.map .ok := by
      intro order
      rw [← settle_eq_ok_iff]
      cases settle order results <;> simp [Except.toOption]
    rw [htoOption, htoOption]

/-- Three tasks, of which the last fails first and the first one last. -/
theorem settles_all_fastFailure :
    SettlesAll [2, 1, 0] [.error "slow failure", .ok 1, .error "fast failure"] ∧
      settle [2, 1, 0] [.error "slow failure", .ok 1, .error "fast failure"] =
        .error "fast failure" :=
  ⟨settles_all (by decide), rfl⟩

end SiteServer.Join
