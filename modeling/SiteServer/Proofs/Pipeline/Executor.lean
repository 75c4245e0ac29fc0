import Mathlib.Data.List.Nodup
import SiteServer.Proofs.Pipeline.Calls

/-! # The law of the executor: which stages are called, when the handler is, and what is reported.

Stages, handler and exchange are arbitrary. What one step adds to the calls is known from `Step`; the
invariants below carry it through a run, stage by stage. -/

namespace SiteServer.Pipeline

variable {σ : Type} {pipeline : Pipeline σ} {turn : Turn σ}

/-! ## The place of each call -/

theorem passReason?_eq_none_iff (p : Progress σ) (kind : StageKind) :
    p.passReason? kind = none ↔
      kind = .cleanup ∨ p.failure = none ∧ p.turn.exchange.request.finished = false := by
  rw [Progress.passReason?, StageKind.alwaysRuns]
  by_cases hk : kind = .cleanup
  · simp [hk]
  · cases hf : p.failure with
    | none => simp [hk]
    | some failure => simp [hk]

theorem Step.placesOf {place : Nat} {kind : StageKind} {p q : Progress (σ × List Call)}
    (h : Step place kind p q) :
    placesOf q.turn.shared.2 = placesOf p.turn.shared.2 ++
      if p.passReason? kind = none then [place] else [] := by
  cases h with
  | passed asked calls failure => simp [calls, asked]
  | called asked stage calls settled failure =>
      simp [calls, asked, stage, Pipeline.placesOf, Call.place?]
  | handed asked stage calls first escalates failure =>
      simp [calls, asked, stage, Pipeline.placesOf, Call.place?]

/-- The step of an observed run at a place that has a stage. -/
theorem step_reach {place : Nat} {stage : Stage σ} (h : pipeline.stages[place]? = some stage) :
    Step place stage.kind (pipeline.observed.reach (turn.observed []) place)
      (pipeline.observed.reach (turn.observed []) (place + 1)) := by
  have hobserved := observed_stages_getElem? pipeline place
  rw [h] at hobserved
  rw [reach_succ hobserved]
  exact step_advance pipeline _ place stage

theorem callsBefore_beyond {place : Nat} (h : pipeline.stages[place]? = none) :
    pipeline.callsBefore turn (place + 1) = pipeline.callsBefore turn place := by
  have hobserved := observed_stages_getElem? pipeline place
  rw [h] at hobserved
  rw [callsBefore, reach_beyond hobserved, callsBefore]

theorem observed_passReason? (place : Nat) (kind : StageKind) :
    (pipeline.observed.reach (turn.observed []) place).passReason? kind =
      (pipeline.reach turn place).passReason? kind := by
  rw [← reach_plain pipeline turn place]
  rfl

theorem placesOf_callsBefore_succ {place : Nat} {stage : Stage σ}
    (h : pipeline.stages[place]? = some stage) :
    placesOf (pipeline.callsBefore turn (place + 1)) =
      placesOf (pipeline.callsBefore turn place) ++
        if (pipeline.reach turn place).passReason? stage.kind = none then [place] else [] := by
  rw [← observed_passReason?]
  exact (step_reach h).placesOf

theorem lt_of_mem_placesOf {place i : Nat}
    (h : i ∈ placesOf (pipeline.callsBefore turn place)) : i < place := by
  induction place with
  | zero => cases h
  | succ place ih =>
      cases hs : pipeline.stages[place]? with
      | none =>
          rw [callsBefore_beyond hs] at h
          exact Nat.lt_succ_of_lt (ih h)
      | some stage =>
          rw [placesOf_callsBefore_succ hs, List.mem_append] at h
          rcases h with h | h
          · exact Nat.lt_succ_of_lt (ih h)
          · split at h
            · rw [List.mem_singleton.mp h]
              exact Nat.lt_succ_self place
            · cases h

theorem Step.stage_mem {place i : Nat} {kind k : StageKind} {p q : Progress (σ × List Call)}
    {entry exit : Message.Exchange} {result : Except Failure StageOutput}
    (h : Step place kind p q) (hmem : .stage i k entry result exit ∈ q.turn.shared.2) :
    .stage i k entry result exit ∈ p.turn.shared.2 ∨ i = place ∧ k = kind := by
  cases h with
  | passed asked calls failure =>
      rw [calls] at hmem
      exact Or.inl hmem
  | called asked stage calls settled failure =>
      rw [calls, stage] at hmem
      rcases List.mem_append.mp hmem with hold | hnew
      · exact Or.inl hold
      · simp only [List.mem_singleton, Call.stage.injEq] at hnew
        exact Or.inr ⟨hnew.1, hnew.2.1⟩
  | handed asked stage calls first escalates failure =>
      rw [calls, stage] at hmem
      rcases List.mem_append.mp hmem with hold | hnew
      · exact Or.inl hold
      · simp only [List.mem_cons, Call.stage.injEq, reduceCtorEq, List.not_mem_nil, or_self,
          or_false] at hnew
        exact Or.inr ⟨hnew.1, hnew.2.1⟩

/-- A call of a stage is that of the stage at its place. -/
theorem stage_of_mem_callsBefore {later place : Nat} {kind : StageKind}
    {entry exit : Message.Exchange} {result : Except Failure StageOutput}
    (h : .stage place kind entry result exit ∈ pipeline.callsBefore turn later) :
    ∃ stage, pipeline.stages[place]? = some stage ∧ stage.kind = kind := by
  induction later with
  | zero => cases h
  | succ later ih =>
      cases hs : pipeline.stages[later]? with
      | none =>
          rw [callsBefore_beyond hs] at h
          exact ih h
      | some stage =>
          rcases (step_reach hs).stage_mem h with hold | ⟨rfl, rfl⟩
          · exact ih hold
          · exact ⟨stage, hs, rfl⟩

/-- Stages are called in the order of their places, none of them twice. -/
theorem placesOf_pairwise_lt (place : Nat) :
    (placesOf (pipeline.callsBefore turn place)).Pairwise (· < ·) := by
  induction place with
  | zero => exact List.Pairwise.nil
  | succ place ih =>
      cases hs : pipeline.stages[place]? with
      | none =>
          rw [callsBefore_beyond hs]
          exact ih
      | some stage =>
          rw [placesOf_callsBefore_succ hs]
          refine List.pairwise_append.mpr ⟨ih, ?_, ?_⟩
          · split
            · exact List.pairwise_singleton _ _
            · exact List.Pairwise.nil
          · intro i hi j hj
            split at hj
            · rw [List.mem_singleton.mp hj]
              exact lt_of_mem_placesOf hi
            · cases hj

/-- Whether a stage is called is decided when it is reached. -/
theorem mem_placesOf_iff {place later : Nat} {stage : Stage σ}
    (h : pipeline.stages[place]? = some stage) (hlt : place < later) :
    place ∈ placesOf (pipeline.callsBefore turn later) ↔
      (pipeline.reach turn place).passReason? stage.kind = none := by
  induction later with
  | zero => cases hlt
  | succ later ih =>
      rcases Nat.lt_succ_iff_lt_or_eq.mp hlt with hbefore | rfl
      · rw [← ih hbefore]
        cases hs : pipeline.stages[later]? with
        | none => rw [callsBefore_beyond hs]
        | some other =>
            rw [placesOf_callsBefore_succ hs, List.mem_append]
            refine or_iff_left ?_
            intro hmem
            split at hmem
            · exact absurd (List.mem_singleton.mp hmem) (Nat.ne_of_lt hbefore)
            · cases hmem
      · rw [placesOf_callsBefore_succ h, List.mem_append]
        have hnot : place ∉ placesOf (pipeline.callsBefore turn place) :=
          fun hmem => Nat.lt_irrefl _ (lt_of_mem_placesOf hmem)
        by_cases hasked : (pipeline.reach turn place).passReason? stage.kind = none
        · simp [hasked]
        · simp [hasked, hnot]

/-! ## The call of the handler -/

/-- A call that is neither of the handler nor a reason to call it. -/
def Call.Quiet (call : Call) : Prop :=
  call.isHandler = false ∧ call.escalates = false

/-- How the calls of a run and the reported failure go together. Either no failure escalates, the
handler is not called and nothing is reported; or the handler is called once, right after the first
call whose failure escalates, with that failure, and it is the one that is reported. -/
inductive Outcome : List Call → Option Failure → Prop where
  | quiet {calls : List Call} (silent : ∀ call ∈ calls, call.Quiet) : Outcome calls none
  | handled {before after : List Call} {place : Nat} {kind : StageKind}
      {entry exit left : Message.Exchange} {failure : Failure}
      (silent : ∀ call ∈ before, call.Quiet)
      (escalates : (Call.stage place kind entry (.error failure) exit).escalates = true)
      (late : ∀ call ∈ after, call.isHandler = false) :
      Outcome (before ++ .stage place kind entry (.error failure) exit ::
        .handler failure exit left :: after) (some failure)

theorem Outcome.quiet_of_none {calls : List Call} (h : Outcome calls none) :
    ∀ call ∈ calls, call.Quiet := by
  generalize hnone : (none : Option Failure) = failure at h
  cases h with
  | quiet silent => exact silent
  | handled silent escalates late => cases hnone

theorem Outcome.failure_eq_none_iff {calls : List Call} {failure : Option Failure}
    (h : Outcome calls failure) :
    failure = none ↔ ∀ call ∈ calls, call.isHandler = false := by
  cases h with
  | quiet silent => simp only [true_iff]; exact fun call hc => (silent call hc).1
  | handled silent escalates late =>
      simp only [reduceCtorEq, false_iff]
      intro hall
      have hhandler := hall (.handler _ _ _)
        (List.mem_append_right _ (List.mem_cons_of_mem _ List.mem_cons_self))
      cases hhandler

theorem Outcome.handler_once {calls : List Call} {failure : Option Failure}
    (h : Outcome calls failure) : (calls.filter Call.isHandler).length ≤ 1 := by
  cases h with
  | quiet silent =>
      rw [List.filter_eq_nil_iff.mpr]
      · exact Nat.zero_le 1
      · intro call hc
        simp [(silent call hc).1]
  | @handled before after _ _ _ _ _ _ silent escalates late =>
      have hbefore : before.filter Call.isHandler = [] := by
        refine List.filter_eq_nil_iff.mpr ?_
        intro call hc
        simp [(silent call hc).1]
      have hafter : after.filter Call.isHandler = [] := by
        refine List.filter_eq_nil_iff.mpr ?_
        intro call hc
        simp [late call hc]
      simp [List.filter_cons, Call.isHandler, hbefore, hafter]

theorem Outcome.step {place : Nat} {kind : StageKind} {p q : Progress (σ × List Call)}
    (h : Outcome p.turn.shared.2 p.failure) (hstep : Step place kind p q) :
    Outcome q.turn.shared.2 q.failure := by
  cases hstep with
  | passed asked calls failure =>
      rw [calls, failure]
      exact h
  | @called call result exit asked stage calls settled failure =>
      have hcall : call.isHandler = false := by rw [stage]; rfl
      rw [calls, failure]
      generalize p.turn.shared.2 = made at h
      generalize p.failure = found at h settled
      cases h with
      | quiet silent =>
          refine .quiet ?_
          intro other hother
          rcases List.mem_append.mp hother with hother | hother
          · exact silent other hother
          · rw [List.mem_singleton.mp hother]
            exact ⟨hcall, settled rfl⟩
      | @handled before after _ _ _ _ _ _ silent escalates late =>
          rw [List.append_assoc, List.cons_append, List.cons_append]
          refine .handled silent escalates ?_
          intro other hother
          rcases List.mem_append.mp hother with hother | hother
          · exact late other hother
          · rw [List.mem_singleton.mp hother]
            exact hcall
  | handed asked stage calls first escalates failure =>
      rw [first] at h
      rw [calls, failure, stage]
      rw [stage] at escalates
      exact .handled h.quiet_of_none escalates (by simp)

theorem outcome_callsBefore (pipeline : Pipeline σ) (turn : Turn σ) (place : Nat) :
    Outcome (pipeline.callsBefore turn place) (pipeline.reach turn place).failure := by
  induction place with
  | zero => exact .quiet (by simp [callsBefore, reach, Progress.start, Turn.observed])
  | succ place ih =>
      cases hs : pipeline.stages[place]? with
      | none =>
          rw [callsBefore_beyond hs, reach_beyond hs]
          exact ih
      | some stage =>
          rw [← reach_plain] at ih ⊢
          exact ih.step (step_reach hs)

/-! ## What a later step leaves alone -/

theorem Step.calls_initial {place : Nat} {kind : StageKind} {p q : Progress (σ × List Call)}
    (h : Step place kind p q) : p.turn.shared.2 <+: q.turn.shared.2 := by
  cases h with
  | passed asked calls failure => simp [calls]
  | called asked stage calls settled failure => rw [calls]; exact List.prefix_append _ _
  | handed asked stage calls first escalates failure => rw [calls]; exact List.prefix_append _ _

theorem Step.latched {place : Nat} {kind : StageKind} {p q : Progress (σ × List Call)}
    {failure : Failure} (h : Step place kind p q) (hp : p.failure = some failure) :
    q.failure = some failure ∧
      q.turn.shared.2.filter Call.isHandler = p.turn.shared.2.filter Call.isHandler := by
  cases h with
  | passed asked calls same => exact ⟨same.trans hp, by rw [calls]⟩
  | called asked stage calls settled same =>
      refine ⟨same.trans hp, ?_⟩
      rw [calls, stage, List.filter_append]
      simp [Call.isHandler]
  | handed asked stage calls first escalates same =>
      rw [hp] at first
      cases first

theorem callsBefore_prefix_succ (pipeline : Pipeline σ) (turn : Turn σ) (place : Nat) :
    pipeline.callsBefore turn place <+: pipeline.callsBefore turn (place + 1) := by
  cases hs : pipeline.stages[place]? with
  | none => simp [callsBefore_beyond hs]
  | some stage => exact (step_reach hs).calls_initial

/-- From the stage on at which a failure was handed to the handler, neither the failure nor the calls
of the handler change. -/
theorem latched_of_le {place later : Nat} {failure : Failure}
    (h : (pipeline.reach turn place).failure = some failure) (hle : place ≤ later) :
    (pipeline.reach turn later).failure = some failure ∧
      (pipeline.callsBefore turn later).filter Call.isHandler =
        (pipeline.callsBefore turn place).filter Call.isHandler := by
  induction hle with
  | refl => exact ⟨h, rfl⟩
  | @step later hle ih =>
      obtain ⟨hfailure, hcalls⟩ := ih
      cases hs : pipeline.stages[later]? with
      | none =>
          rw [reach_beyond hs, callsBefore_beyond hs]
          exact ⟨hfailure, hcalls⟩
      | some stage =>
          rw [← reach_plain] at hfailure ⊢
          obtain ⟨hnext, hsame⟩ := (step_reach hs).latched hfailure
          exact ⟨hnext, hsame.trans hcalls⟩

theorem callsBefore_prefix_of_le {place later : Nat} (hle : place ≤ later) :
    pipeline.callsBefore turn place <+: pipeline.callsBefore turn later := by
  induction hle with
  | refl => exact List.prefix_refl _
  | @step later hle ih => exact ih.trans (callsBefore_prefix_succ pipeline turn later)

/-! ## Records -/

theorem records_reach (pipeline : Pipeline σ) (turn : Turn σ) (place : Nat) :
    (pipeline.reach turn place).records.map (fun record => (record.name, record.kind)) =
      (pipeline.stages.take place).map fun stage => (stage.name, stage.kind) := by
  induction place with
  | zero => rfl
  | succ place ih =>
      rw [List.take_add_one]
      cases hs : pipeline.stages[place]? with
      | none => simpa [reach_beyond hs] using ih
      | some stage =>
          obtain ⟨record, hrecords, hname, hkind⟩ :=
            records_advance pipeline (pipeline.reach turn place) stage
          rw [reach_succ hs, hrecords, List.map_append, ih]
          simp [hname, hkind]

/-! ## The law -/

/-- What a run of a pipeline does, whatever its stages and its handler do. A stage is named by its
place, so that the same stage may stand in several places. -/
structure ExecutorLaw (pipeline : Pipeline σ) (turn : Turn σ) : Prop where
  /-- The calls are those of the run itself: noting them changes nothing. -/
  faithful : (pipeline.observed.run (turn.observed [])).1 = (pipeline.run turn).1 ∧
    (pipeline.observed.run (turn.observed [])).2.plain = (pipeline.run turn).2
  /-- There is one record for each stage, in order, with its name and kind. -/
  records : (pipeline.run turn).1.records.map (fun record => (record.name, record.kind)) =
    pipeline.stages.map fun stage => (stage.name, stage.kind)
  /-- Only stages of the pipeline are called. -/
  stages : ∀ place kind entry result exit,
    .stage place kind entry result exit ∈ pipeline.calls turn →
      ∃ stage, pipeline.stages[place]? = some stage ∧ stage.kind = kind
  /-- Stages are called in order, none of them twice. -/
  once : (placesOf (pipeline.calls turn)).Pairwise (· < ·)
  /-- A stage that cleans up is called exactly once. -/
  cleanup : ∀ place stage, pipeline.stages[place]? = some stage → stage.kind = .cleanup →
    (placesOf (pipeline.calls turn)).count place = 1
  /-- Any other stage is called if and only if the handler has not been called when it is reached,
  and the request is not finished then. -/
  others : ∀ place stage, pipeline.stages[place]? = some stage → stage.kind ≠ .cleanup →
    (place ∈ placesOf (pipeline.calls turn) ↔
      (∀ call ∈ pipeline.callsBefore turn place, call.isHandler = false) ∧
        (pipeline.reach turn place).turn.exchange.request.finished = false)
  /-- What was called before a stage was reached stays the first part of the calls. -/
  before : ∀ place ≤ pipeline.stages.length,
    pipeline.callsBefore turn place <+: pipeline.calls turn
  /-- The handler is called at most once. -/
  handler : ((pipeline.calls turn).filter Call.isHandler).length ≤ 1
  /-- It is called right after the first failure that escalates, which is the one reported. -/
  outcome : Outcome (pipeline.calls turn) (pipeline.run turn).1.failure
  /-- Later failures change neither the reported failure nor the calls of the handler. -/
  latched : ∀ place ≤ pipeline.stages.length, ∀ failure,
    (pipeline.reach turn place).failure = some failure →
      (pipeline.run turn).1.failure = some failure ∧
        (pipeline.calls turn).filter Call.isHandler =
          (pipeline.callsBefore turn place).filter Call.isHandler

/-- Every run obeys the law of the executor. -/
theorem run_obeys_executorLaw (pipeline : Pipeline σ) (turn : Turn σ) :
    ExecutorLaw pipeline turn := by
  have hcalls := calls_eq_callsBefore pipeline turn
  obtain ⟨hrecords, hfailure⟩ := run_report pipeline turn
  have houtcome := outcome_callsBefore pipeline turn pipeline.stages.length
  have hcalled : ∀ place stage, pipeline.stages[place]? = some stage →
      (place ∈ placesOf (pipeline.calls turn) ↔
        (pipeline.reach turn place).passReason? stage.kind = none) := by
    intro place stage hs
    rw [hcalls]
    exact mem_placesOf_iff hs (List.getElem?_eq_some_iff.mp hs).1
  refine ⟨observed_run_plain pipeline turn, ?_, ?_, ?_, ?_, ?_, ?_, ?_, ?_, ?_⟩
  · rw [hrecords, records_reach, List.take_length]
  · intro place kind entry result exit hmem
    rw [hcalls] at hmem
    exact stage_of_mem_callsBefore hmem
  · rw [hcalls]
    exact placesOf_pairwise_lt _
  · intro place stage hs hkind
    have hnodup : (placesOf (pipeline.calls turn)).Nodup := by
      rw [hcalls]
      exact (placesOf_pairwise_lt _).imp Nat.ne_of_lt
    have hmem : place ∈ placesOf (pipeline.calls turn) :=
      (hcalled place stage hs).mpr ((passReason?_eq_none_iff _ _).mpr (Or.inl hkind))
    exact List.count_eq_one_of_mem hnodup hmem
  · intro place stage hs hkind
    rw [hcalled place stage hs, passReason?_eq_none_iff, or_iff_right hkind,
      (outcome_callsBefore pipeline turn place).failure_eq_none_iff]
  · intro place hle
    rw [hcalls]
    exact callsBefore_prefix_of_le hle
  · rw [hcalls]
    exact houtcome.handler_once
  · rw [hcalls, hfailure]
    exact houtcome
  · intro place hle failure hp
    rw [hcalls, hfailure]
    exact latched_of_le hp hle

end SiteServer.Pipeline
