import Mathlib.Data.List.Basic
import SiteServer.Pipeline.Run

/-! # Calls of a run: which stages a pipeline asks, and when its handler is called.

A pipeline is observed by letting its stages and its handler note each call of them in what requests
share. The observed pipeline runs as the one it observes does, so that what was noted are the calls of
that run. One step of it is described once, by `Transition`, guards included. -/

namespace SiteServer.Pipeline

open Message (Exchange)

variable {σ : Type}

/-! ## Observed pipelines -/

/-- A call of the stage at a place, or of the handler, with the exchange it was given and the one it
left. -/
inductive Call where
  | stage (place : Nat) (kind : StageKind) (entry : Exchange)
      (result : Except Failure StageOutput) (exit : Exchange)
  | handler (failure : Failure) (entry exit : Exchange)

namespace Call

def place? : Call → Option Nat
  | .stage place _ _ _ _ => some place
  | .handler _ _ _ => none

def isHandler : Call → Bool
  | .stage _ _ _ _ _ => false
  | .handler _ _ _ => true

/-- A stage failed, and was not one that cleans up while the response is written already. -/
def escalates : Call → Bool
  | .stage _ kind _ (.error _) exit => !(kind = .cleanup && exit.response.isWritten)
  | _ => false

end Call

/-- The places of the stages that were called, in the order of the calls. -/
def placesOf (calls : List Call) : List Nat :=
  calls.filterMap Call.place?

/-- A turn together with the calls noted so far. -/
def Turn.observed (turn : Turn σ) (calls : List Call) : Turn (σ × List Call) :=
  ⟨turn.exchange, (turn.shared, calls), turn.log⟩

/-- The turn without the calls. -/
def Turn.plain (turn : Turn (σ × List Call)) : Turn σ :=
  ⟨turn.exchange, turn.shared.1, turn.log⟩

/-- The stage at a place, which also notes each call of it. -/
def Stage.observed (place : Nat) (stage : Stage σ) : Stage (σ × List Call) where
  name := stage.name
  kind := stage.kind
  run turn :=
    let (result, inner) := stage.run turn.plain
    (result, inner.observed
      (turn.shared.2 ++ [.stage place stage.kind turn.exchange result inner.exchange]))

/-- The handler, which also notes each call of it. -/
def Handler.observed (handler : Handler σ) : Handler (σ × List Call) :=
  fun failure turn =>
    let inner := handler failure turn.plain
    inner.observed (turn.shared.2 ++ [.handler failure turn.exchange inner.exchange])

/-- The pipeline whose stages and handler note their calls. -/
def observed (pipeline : Pipeline σ) : Pipeline (σ × List Call) where
  stages := pipeline.stages.mapIdx Stage.observed
  handler := pipeline.handler.observed
  sink := pipeline.sink
  clock := pipeline.clock

/-- How far a run has come when it reaches the stage at a place. -/
def reach (pipeline : Pipeline σ) (turn : Turn σ) (place : Nat) : Progress σ :=
  (pipeline.stages.take place).foldl pipeline.advance (.start turn)

def Progress.completed (p : Progress σ) (pipeline : Pipeline σ) : Progress σ :=
  p.emit pipeline.sink (.completed p.requestId (pipeline.clock p.records.length))

/-- The calls that a run makes before it reaches the stage at a place. -/
def callsBefore (pipeline : Pipeline σ) (turn : Turn σ) (place : Nat) : List Call :=
  (pipeline.observed.reach (turn.observed []) place).turn.shared.2

def calls (pipeline : Pipeline σ) (turn : Turn σ) : List Call :=
  (pipeline.observed.run (turn.observed [])).2.shared.2

/-! ## Runs as steps -/

theorem reach_succ {pipeline : Pipeline σ} {turn : Turn σ} {place : Nat} {stage : Stage σ}
    (h : pipeline.stages[place]? = some stage) :
    pipeline.reach turn (place + 1) = pipeline.advance (pipeline.reach turn place) stage := by
  rw [reach, reach, List.take_add_one, h, List.foldl_append]
  rfl

theorem reach_beyond {pipeline : Pipeline σ} {turn : Turn σ} {place : Nat}
    (h : pipeline.stages[place]? = none) :
    pipeline.reach turn (place + 1) = pipeline.reach turn place := by
  rw [reach, reach, List.take_add_one, h, Option.toList_none, List.append_nil]

theorem reach_length (pipeline : Pipeline σ) (turn : Turn σ) :
    pipeline.reach turn pipeline.stages.length =
      pipeline.stages.foldl pipeline.advance (.start turn) := by
  rw [reach, List.take_length]

theorem reach_of_length_le {pipeline : Pipeline σ} {place : Nat} (turn : Turn σ)
    (h : pipeline.stages.length ≤ place) :
    pipeline.reach turn place = pipeline.reach turn pipeline.stages.length := by
  rw [reach, reach, List.take_of_length_le h, List.take_length]

/-- A run is over when it has passed the last stage. -/
theorem run_eq_completed (pipeline : Pipeline σ) (turn : Turn σ) :
    pipeline.run turn =
      let p := (pipeline.reach turn pipeline.stages.length).completed pipeline
      (⟨p.records, p.failure, p.events⟩, p.turn) := by
  rw [reach_length]
  rfl

theorem run_report (pipeline : Pipeline σ) (turn : Turn σ) :
    (pipeline.run turn).1.records = (pipeline.reach turn pipeline.stages.length).records ∧
      (pipeline.run turn).1.failure = (pipeline.reach turn pipeline.stages.length).failure := by
  rw [run_eq_completed]
  exact ⟨rfl, rfl⟩

theorem calls_eq_callsBefore (pipeline : Pipeline σ) (turn : Turn σ) :
    pipeline.calls turn = pipeline.callsBefore turn pipeline.stages.length := by
  have hlength : pipeline.observed.stages.length = pipeline.stages.length := by simp [observed]
  rw [calls, callsBefore, ← hlength, reach_length]
  rfl

/-! ## One step -/

namespace Progress

def started (p : Progress σ) (pipeline : Pipeline σ) (stage : Stage σ) : Progress σ :=
  p.emit pipeline.sink (.ofStage .stageStarted p.requestId stage.name)

/-- The progress after a call of a stage that left `turn`, with the event and the record of it. -/
def concluded (p : Progress σ) (pipeline : Pipeline σ) (stage : Stage σ) (turn : Turn σ)
    (kind : EventKind) (detail : Option String) (record : StageRecord) : Progress σ :=
  ({ p.started pipeline stage with turn }.emit pipeline.sink
    { Event.ofStage kind p.requestId stage.name with
      duration := some (pipeline.clock p.records.length), detail }).record record

@[simp] theorem concluded_failure (p : Progress σ) (pipeline : Pipeline σ) (stage : Stage σ)
    (turn : Turn σ) (kind : EventKind) (detail : Option String) (record : StageRecord) :
    (p.concluded pipeline stage turn kind detail record).failure = p.failure := rfl

end Progress

theorem runStage_ok {pipeline : Pipeline σ} {stage : Stage σ} {p : Progress σ}
    {output : StageOutput} {turn : Turn σ}
    (h : stage.run (p.started pipeline stage).turn = (.ok output, turn)) :
    pipeline.runStage stage p =
      p.concluded pipeline stage turn
        (if output.isSkipped then .stageSkipped else .stageCompleted) output.skipReason
        ⟨stage.name, stage.kind, output.status, output.skipReason, true⟩ := by
  rw [Progress.started] at h
  simp only [runStage, h]
  rfl

theorem runStage_error {pipeline : Pipeline σ} {stage : Stage σ} {p : Progress σ}
    {failure : Failure} {turn : Turn σ}
    (h : stage.run (p.started pipeline stage).turn = (.error failure, turn)) :
    pipeline.runStage stage p =
      pipeline.settleFailure stage.kind failure
        (p.concluded pipeline stage turn .stageFailed (some failure.message)
          ⟨stage.name, stage.kind, .fail, none, true⟩) := by
  rw [Progress.started] at h
  simp only [runStage, h]
  rfl

section SettleFailure

variable (pipeline : Pipeline σ) (kind : StageKind) (failure : Failure) {p : Progress σ}

theorem settleFailure_late (h : p.failure.isSome = true) :
    pipeline.settleFailure kind failure p =
      { p with turn := p.turn.report .warn "stage failed after an earlier failure" } := by
  rw [settleFailure, if_pos h]

theorem settleFailure_written (h : p.failure.isSome = false)
    (hw : (kind.alwaysRuns && p.turn.exchange.response.isWritten) = true) :
    pipeline.settleFailure kind failure p =
      { p with turn := p.turn.report .warn "cleanup failed" } := by
  rw [settleFailure, if_neg (by simp [h]), if_pos hw]

theorem settleFailure_handed (h : p.failure.isSome = false)
    (hw : (kind.alwaysRuns && p.turn.exchange.response.isWritten) = false) :
    pipeline.settleFailure kind failure p =
      { p with
        turn := pipeline.handler failure (p.turn.report .error "stage failed")
        failure := some failure } := by
  rw [settleFailure, if_neg (by simp [h]), if_neg (by simp [hw])]

theorem settleFailure_records (p : Progress σ) :
    (pipeline.settleFailure kind failure p).records = p.records := by
  rw [settleFailure]
  split
  · rfl
  · split <;> rfl

end SettleFailure

theorem advance_passed {pipeline : Pipeline σ} {p : Progress σ} {stage : Stage σ}
    {reason : PassReason} (h : p.passReason? stage.kind = some reason) :
    pipeline.advance p stage = pipeline.passStage stage reason p := by
  rw [advance, h]

theorem advance_called {pipeline : Pipeline σ} {p : Progress σ} {stage : Stage σ}
    (h : p.passReason? stage.kind = none) :
    pipeline.advance p stage = pipeline.runStage stage p := by
  rw [advance, h]

/-- Every step adds one record, with the name and the kind of its stage. -/
theorem records_advance (pipeline : Pipeline σ) (p : Progress σ) (stage : Stage σ) :
    ∃ record : StageRecord, (pipeline.advance p stage).records = p.records ++ [record] ∧
      record.name = stage.name ∧ record.kind = stage.kind := by
  cases h : p.passReason? stage.kind with
  | some reason =>
      rw [advance_passed h]
      exact ⟨_, rfl, rfl, rfl⟩
  | none =>
      rw [advance_called h]
      cases hrun : stage.run (p.started pipeline stage).turn with
      | mk result turn =>
          cases result with
          | ok output =>
              rw [runStage_ok hrun]
              exact ⟨_, rfl, rfl, rfl⟩
          | error failure =>
              rw [runStage_error hrun, settleFailure_records]
              exact ⟨_, rfl, rfl, rfl⟩

/-! ## The observed run is the run -/

def Progress.plain (p : Progress (σ × List Call)) : Progress σ :=
  ⟨p.turn.plain, p.records, p.events, p.failure, p.requestId⟩

theorem Stage.observed_run {place : Nat} {stage : Stage σ} {turn : Turn (σ × List Call)}
    {result : Except Failure StageOutput} {inner : Turn σ}
    (h : stage.run turn.plain = (result, inner)) :
    (stage.observed place).run turn = (result, inner.observed
      (turn.shared.2 ++ [.stage place stage.kind turn.exchange result inner.exchange])) := by
  simp [Stage.observed, h]

theorem Handler.observed_calls (handler : Handler σ) (failure : Failure)
    (turn : Turn (σ × List Call)) :
    (handler.observed failure turn).shared.2 = turn.shared.2 ++
      [.handler failure turn.exchange (handler failure turn.plain).exchange] := rfl

theorem settleFailure_plain (pipeline : Pipeline σ) (kind : StageKind) (failure : Failure)
    (p : Progress (σ × List Call)) :
    (pipeline.observed.settleFailure kind failure p).plain =
      pipeline.settleFailure kind failure p.plain := by
  cases hf : p.failure.isSome with
  | true =>
      rw [settleFailure_late pipeline.observed kind failure hf,
        settleFailure_late pipeline kind failure (p := p.plain) hf]
      rfl
  | false =>
      cases hw : kind.alwaysRuns && p.turn.exchange.response.isWritten with
      | true =>
          rw [settleFailure_written pipeline.observed kind failure hf hw,
            settleFailure_written pipeline kind failure (p := p.plain) hf hw]
          rfl
      | false =>
          rw [settleFailure_handed pipeline.observed kind failure hf hw,
            settleFailure_handed pipeline kind failure (p := p.plain) hf hw]
          rfl

theorem advance_plain (pipeline : Pipeline σ) (p : Progress (σ × List Call)) (place : Nat)
    (stage : Stage σ) :
    (pipeline.observed.advance p (stage.observed place)).plain =
      pipeline.advance p.plain stage := by
  have hreason : p.plain.passReason? stage.kind = p.passReason? stage.kind := rfl
  have hkind : p.passReason? (stage.observed place).kind = p.passReason? stage.kind := rfl
  cases h : p.passReason? stage.kind with
  | some reason =>
      rw [advance_passed (hreason.trans h), advance_passed (hkind.trans h)]
      rfl
  | none =>
      rw [advance_called (hreason.trans h), advance_called (hkind.trans h)]
      cases hrun : stage.run (p.plain.started pipeline stage).turn with
      | mk result turn =>
          have hobserved : (stage.observed place).run
              (p.started pipeline.observed (stage.observed place)).turn = (result, _) :=
            Stage.observed_run hrun
          cases result with
          | ok output =>
              rw [runStage_ok hrun, runStage_ok hobserved]
              rfl
          | error failure =>
              rw [runStage_error hrun, runStage_error hobserved, settleFailure_plain]
              rfl

theorem observed_stages_getElem? (pipeline : Pipeline σ) (place : Nat) :
    pipeline.observed.stages[place]? = pipeline.stages[place]?.map (Stage.observed place) := by
  simp [observed]

theorem reach_plain (pipeline : Pipeline σ) (turn : Turn σ) (place : Nat) :
    (pipeline.observed.reach (turn.observed []) place).plain = pipeline.reach turn place := by
  induction place with
  | zero => rfl
  | succ place ih =>
      have hobserved := observed_stages_getElem? pipeline place
      cases h : pipeline.stages[place]? with
      | none =>
          rw [h] at hobserved
          rw [reach_beyond h, reach_beyond hobserved, ih]
      | some stage =>
          rw [h] at hobserved
          rw [reach_succ h, reach_succ hobserved, advance_plain, ih]

/-- Noting the calls changes neither what a run reports nor the turn it leaves. -/
theorem observed_run_plain (pipeline : Pipeline σ) (turn : Turn σ) :
    (pipeline.observed.run (turn.observed [])).1 = (pipeline.run turn).1 ∧
      (pipeline.observed.run (turn.observed [])).2.plain = (pipeline.run turn).2 := by
  have hreach := reach_plain pipeline turn pipeline.stages.length
  have hlength : pipeline.observed.stages.length = pipeline.stages.length := by simp [observed]
  rw [run_eq_completed, run_eq_completed, hlength, ← hreach]
  exact ⟨rfl, rfl⟩

/-! ## What a step does -/

section Step

variable {pipeline : Pipeline σ}

/-- A failure has no further consequences if another one came first, or if it is that of a stage that
cleans up after a response was written. -/
def Excused (stage : Stage σ) (p : Progress (σ × List Call)) (left : Turn σ) : Prop :=
  p.failure ≠ none ∨ stage.kind = .cleanup ∧ left.exchange.response.isWritten = true

/-- A step of an observed run passes over its stage; or the stage succeeds; or it fails and is excused; or
its failure goes to the handler. -/
inductive Transition (pipeline : Pipeline σ) (place : Nat) (stage : Stage σ)
    (p q : Progress (σ × List Call)) : Prop where
  | passed (asked : p.passReason? stage.kind ≠ none) (exchange : q.turn.exchange = p.turn.exchange)
      (shared : q.turn.shared = p.turn.shared) (failure : q.failure = p.failure)
  | succeeded {log : List LogRecord} {output : StageOutput} {left : Turn σ}
      (asked : p.passReason? stage.kind = none)
      (ran : stage.run ⟨p.turn.exchange, p.turn.shared.1, log⟩ = (.ok output, left))
      (exchange : q.turn.exchange = left.exchange)
      (shared : q.turn.shared = (left.shared, p.turn.shared.2 ++
        [.stage place stage.kind p.turn.exchange (.ok output) left.exchange]))
      (failure : q.failure = p.failure)
  | excused {log : List LogRecord} {fault : Failure} {left : Turn σ}
      (asked : p.passReason? stage.kind = none)
      (ran : stage.run ⟨p.turn.exchange, p.turn.shared.1, log⟩ = (.error fault, left))
      (excused : Excused stage p left) (exchange : q.turn.exchange = left.exchange)
      (shared : q.turn.shared = (left.shared, p.turn.shared.2 ++
        [.stage place stage.kind p.turn.exchange (.error fault) left.exchange]))
      (failure : q.failure = p.failure)
  | handed {log later : List LogRecord} {fault : Failure} {left handled : Turn σ}
      (asked : p.passReason? stage.kind = none)
      (ran : stage.run ⟨p.turn.exchange, p.turn.shared.1, log⟩ = (.error fault, left))
      (pending : ¬ Excused stage p left)
      (answered : pipeline.handler fault { left with log := later } = handled)
      (exchange : q.turn.exchange = handled.exchange)
      (shared : q.turn.shared = (handled.shared, p.turn.shared.2 ++
        [.stage place stage.kind p.turn.exchange (.error fault) left.exchange,
          .handler fault left.exchange handled.exchange]))
      (failure : q.failure = some fault)

theorem transition_runStage {p : Progress (σ × List Call)} {place : Nat} {stage : Stage σ}
    (h : p.passReason? stage.kind = none) :
    Transition pipeline place stage p
      (pipeline.observed.runStage (stage.observed place) p) := by
  cases hrun : stage.run (p.plain.started pipeline stage).turn with
  | mk result left =>
      have hobserved : (stage.observed place).run
          (p.started pipeline.observed (stage.observed place)).turn = (result, _) :=
        Stage.observed_run hrun
      cases result with
      | ok output =>
          rw [runStage_ok hobserved]
          exact .succeeded h hrun rfl rfl rfl
      | error fault =>
          rw [runStage_error hobserved]
          cases hf : p.failure with
          | some first =>
              rw [settleFailure_late _ _ _ (by rw [Progress.concluded_failure, hf]; rfl)]
              exact .excused h hrun (.inl (by simp [hf])) rfl rfl rfl
          | none =>
              have hfirst : ∀ after kind detail record,
                  (p.concluded pipeline.observed (stage.observed place) after kind detail
                    record).failure.isSome = false := by
                intro after kind detail record
                rw [Progress.concluded_failure, hf]
                rfl
              cases hw : stage.kind.alwaysRuns && left.exchange.response.isWritten with
              | true =>
                  rw [settleFailure_written _ _ _ (hfirst _ _ _ _) hw]
                  exact .excused h hrun (.inr (by simpa [StageKind.alwaysRuns] using hw)) rfl rfl rfl
              | false =>
                  have hpending : ¬ Excused stage p left := by
                    simp only [Excused, hf, ne_eq, not_true_eq_false, false_or]
                    rintro ⟨hkind, hwritten⟩
                    simp [hkind, hwritten, StageKind.alwaysRuns] at hw
                  rw [settleFailure_handed _ _ _ (hfirst _ _ _ _) hw]
                  refine .handed h hrun hpending rfl rfl (Prod.ext rfl ?_) rfl
                  exact (Handler.observed_calls _ _ _).trans
                    (List.append_assoc p.turn.shared.2 [_] [_])

theorem transition_advance (pipeline : Pipeline σ) (p : Progress (σ × List Call)) (place : Nat)
    (stage : Stage σ) :
    Transition pipeline place stage p (pipeline.observed.advance p (stage.observed place)) := by
  have hkind : p.passReason? (stage.observed place).kind = p.passReason? stage.kind := rfl
  cases h : p.passReason? stage.kind with
  | some reason =>
      rw [advance_passed (hkind.trans h)]
      exact .passed (by simp [h]) rfl rfl rfl
  | none =>
      rw [advance_called (hkind.trans h)]
      exact transition_runStage h

/-! ## What a step does to the calls -/

/-- A step of an observed run passes over its stage; or calls it, without the handler; or calls it and
then the handler, with the failure of the stage. -/
inductive Step (place : Nat) (kind : StageKind) (p q : Progress (σ × List Call)) : Prop where
  | passed {reason : PassReason} (asked : p.passReason? kind = some reason)
      (calls : q.turn.shared.2 = p.turn.shared.2) (failure : q.failure = p.failure)
  | called {call : Call} {result : Except Failure StageOutput} {exit : Exchange}
      (asked : p.passReason? kind = none)
      (stage : call = .stage place kind p.turn.exchange result exit)
      (calls : q.turn.shared.2 = p.turn.shared.2 ++ [call])
      (settled : p.failure = none → call.escalates = false) (failure : q.failure = p.failure)
  | handed {call : Call} {fault : Failure} {exit handled : Exchange}
      (asked : p.passReason? kind = none)
      (stage : call = .stage place kind p.turn.exchange (.error fault) exit)
      (calls : q.turn.shared.2 = p.turn.shared.2 ++ [call, .handler fault exit handled])
      (first : p.failure = none) (escalates : call.escalates = true)
      (failure : q.failure = some fault)

theorem Transition.step {place : Nat} {stage : Stage σ} {p q : Progress (σ × List Call)}
    (h : Transition pipeline place stage p q) : Step place stage.kind p q := by
  cases h with
  | passed asked exchange shared failure =>
      obtain ⟨reason, hreason⟩ := Option.ne_none_iff_exists'.mp asked
      exact .passed hreason (by rw [shared]) failure
  | succeeded asked ran exchange shared failure =>
      exact .called asked rfl (by rw [shared]) (fun _ => rfl) failure
  | excused asked ran excused exchange shared failure =>
      refine .called asked rfl (by rw [shared]) ?_ failure
      intro hnone
      obtain ⟨hkind, hwritten⟩ := excused.resolve_left (not_not_intro hnone)
      simp [Call.escalates, hkind, hwritten]
  | handed asked ran pending answered exchange shared failure =>
      obtain ⟨hnone, hunexcused⟩ := not_or.mp pending
      refine .handed asked rfl (by rw [shared]) (not_not.mp hnone) ?_ failure
      simpa [Call.escalates, imp_iff_not_or] using hunexcused

theorem step_advance (pipeline : Pipeline σ) (p : Progress (σ × List Call)) (place : Nat)
    (stage : Stage σ) :
    Step place stage.kind p (pipeline.observed.advance p (stage.observed place)) :=
  (transition_advance pipeline p place stage).step

end Step

end SiteServer.Pipeline
