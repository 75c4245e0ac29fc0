import SiteServer.Proofs.Pipeline.Calls

/-! # Runs that are alike.

Two runs may differ in what requests share. As long as no stage and no handler lets the difference show,
they do not differ in anything else. -/

namespace SiteServer.Pipeline

variable {σ : Type} {R : σ → σ → Prop} {Q : Turn σ → Prop} {pipeline : Pipeline σ}

/-! ## Turns and runs that are alike -/

/-- Two turns differ in what requests share only, and there as a relation tells. -/
structure Turn.Alike (R : σ → σ → Prop) (t u : Turn σ) : Prop where
  exchange : u.exchange = t.exchange
  log : u.log = t.log
  shared : R t.shared u.shared

/-- Two runs have come equally far, to turns that are alike. -/
structure Progress.Alike (R : σ → σ → Prop) (p q : Progress σ) : Prop where
  turn : p.turn.Alike R q.turn
  records : q.records = p.records
  events : q.events = p.events
  failure : q.failure = p.failure
  requestId : q.requestId = p.requestId

namespace Turn.Alike

variable {t u : Turn σ}

theorem note (h : t.Alike R u) (records : List LogRecord) : (t.note records).Alike R (u.note records) where
  exchange := h.exchange
  log := congrArg (· ++ records) h.log
  shared := h.shared

theorem report (h : t.Alike R u) (level : Level) (message : String) :
    (t.report level message).Alike R (u.report level message) := by
  rw [Turn.report, Turn.report, h.exchange]
  exact h.note _

end Turn.Alike

namespace Progress.Alike

variable {p q : Progress σ}

theorem withTurn (h : p.Alike R q) {t u : Turn σ} (hturn : t.Alike R u) :
    Progress.Alike R { p with turn := t } { q with turn := u } :=
  ⟨hturn, h.records, h.events, h.failure, h.requestId⟩

theorem emit (h : p.Alike R q) (sink : Sink) (event : Event) :
    (p.emit sink event).Alike R (q.emit sink event) :=
  ⟨h.turn.note _, h.records, congrArg (· ++ [event]) h.events, h.failure, h.requestId⟩

theorem record (h : p.Alike R q) (r : StageRecord) : (p.record r).Alike R (q.record r) :=
  ⟨h.turn, congrArg (· ++ [r]) h.records, h.events, h.failure, h.requestId⟩

theorem passReason? (h : p.Alike R q) (kind : StageKind) : q.passReason? kind = p.passReason? kind := by
  rw [Progress.passReason?, Progress.passReason?, h.failure, h.turn.exchange]

theorem started (h : p.Alike R q) (stage : Stage σ) :
    (p.started pipeline stage).Alike R (q.started pipeline stage) := by
  rw [Progress.started, Progress.started, h.requestId]
  exact h.emit _ _

theorem concluded (h : p.Alike R q) (stage : Stage σ) {t u : Turn σ} (hturn : t.Alike R u)
    (kind : EventKind) (detail : Option String) (record : StageRecord) :
    (p.concluded pipeline stage t kind detail record).Alike R
      (q.concluded pipeline stage u kind detail record) := by
  rw [Progress.concluded, Progress.concluded, h.requestId, h.records]
  exact (((h.started stage).withTurn hturn).emit _ _).record _

theorem completed (h : p.Alike R q) (pipeline : Pipeline σ) :
    (p.completed pipeline).Alike R (q.completed pipeline) := by
  rw [Progress.completed, Progress.completed, h.requestId, h.records]
  exact h.emit _ _

theorem passStage (h : p.Alike R q) (stage : Stage σ) (reason : PassReason) :
    (pipeline.passStage stage reason p).Alike R (pipeline.passStage stage reason q) := by
  rw [Pipeline.passStage, Pipeline.passStage, h.requestId]
  exact (h.emit _ _).record _

end Progress.Alike

/-! ## Pipelines that let no difference show -/

variable (R Q) in
/-- On turns that a property holds for, no stage and no handler of a pipeline tells turns that are alike
from each other. The property does not depend on the log. -/
structure Hides (pipeline : Pipeline σ) : Prop where
  stage : ∀ stage ∈ pipeline.stages, ∀ t u, Q t → t.Alike R u →
    (stage.run u).1 = (stage.run t).1 ∧ (stage.run t).2.Alike R (stage.run u).2
  handler : ∀ failure t u, Q (pipeline.handler failure t) → t.Alike R u →
    (pipeline.handler failure t).Alike R (pipeline.handler failure u)
  note : ∀ t records, Q t → Q (t.note records)

namespace Hides

variable {p q : Progress σ} {stage : Stage σ} {turn other : Turn σ}

theorem settleFailure (h : pipeline.Hides R Q) (hpq : p.Alike R q) (kind : StageKind)
    (failure : Failure) (hafter : Q (pipeline.settleFailure kind failure p).turn) :
    (pipeline.settleFailure kind failure p).Alike R (pipeline.settleFailure kind failure q) := by
  cases hfailure : p.failure.isSome with
  | true =>
      rw [settleFailure_late _ _ _ hfailure, settleFailure_late _ _ _ (by rw [hpq.failure, hfailure])]
      exact hpq.withTurn (hpq.turn.report _ _)
  | false =>
      have hother : q.failure.isSome = false := by rw [hpq.failure, hfailure]
      cases hexcuse : kind.alwaysRuns && p.turn.exchange.response.isWritten with
      | true =>
          rw [settleFailure_written _ _ _ hfailure hexcuse,
            settleFailure_written _ _ _ hother (by rw [hpq.turn.exchange, hexcuse])]
          exact hpq.withTurn (hpq.turn.report _ _)
      | false =>
          rw [settleFailure_handed _ _ _ hfailure hexcuse] at hafter ⊢
          rw [settleFailure_handed _ _ _ hother (by rw [hpq.turn.exchange, hexcuse])]
          exact ⟨h.handler _ _ _ hafter (hpq.turn.report _ _), hpq.records, hpq.events, rfl, hpq.requestId⟩

/-- Runs that are alike stay alike when both pass a stage. -/
theorem advance (h : pipeline.Hides R Q) (hpq : p.Alike R q) (hstage : stage ∈ pipeline.stages)
    (hbefore : Q p.turn) (hafter : Q (pipeline.advance p stage).turn) :
    (pipeline.advance p stage).Alike R (pipeline.advance q stage) := by
  cases hreason : p.passReason? stage.kind with
  | some reason =>
      rw [advance_passed hreason, advance_passed (by rw [hpq.passReason?, hreason])]
      exact hpq.passStage stage reason
  | none =>
      rw [advance_called hreason] at hafter ⊢
      rw [advance_called (by rw [hpq.passReason?, hreason])]
      have hstarted : Q (p.started pipeline stage).turn := h.note p.turn _ hbefore
      obtain ⟨hresult, hturn⟩ := h.stage stage hstage _ _ hstarted (hpq.started stage).turn
      cases hrun : stage.run (p.started pipeline stage).turn with
      | mk result turn =>
          have hother : stage.run (q.started pipeline stage).turn =
              (result, (stage.run (q.started pipeline stage).turn).2) := by
            rw [hrun] at hresult
            exact Prod.ext hresult rfl
          rw [hrun] at hturn
          cases result with
          | ok output =>
              rw [runStage_ok hrun, runStage_ok hother]
              exact hpq.concluded stage hturn _ _ _
          | error failure =>
              rw [runStage_error hrun] at hafter ⊢
              rw [runStage_error hother]
              exact h.settleFailure (hpq.concluded stage hturn _ _ _) _ _ hafter

/-- Runs from turns that are alike are alike at every place. -/
theorem reach (h : pipeline.Hides R Q) (hstart : turn.Alike R other)
    (hplaces : ∀ place, Q (pipeline.reach turn place).turn) (place : Nat) :
    (pipeline.reach turn place).Alike R (pipeline.reach other place) := by
  induction place with
  | zero => exact ⟨hstart, rfl, rfl, rfl, congrArg (·.request.id) hstart.exchange⟩
  | succ place ih =>
      cases hs : pipeline.stages[place]? with
      | none =>
          rw [reach_beyond hs, reach_beyond hs]
          exact ih
      | some stage =>
          have hafter := hplaces (place + 1)
          rw [reach_succ hs] at hafter ⊢
          rw [reach_succ hs]
          exact h.advance ih (List.mem_of_getElem? hs) (hplaces place) hafter

/-- Runs from turns that are alike report the same and end in turns that are alike. -/
theorem run (h : pipeline.Hides R Q) (hstart : turn.Alike R other)
    (hplaces : ∀ place, Q (pipeline.reach turn place).turn) :
    (pipeline.run other).1 = (pipeline.run turn).1 ∧
      (pipeline.run turn).2.Alike R (pipeline.run other).2 := by
  have hdone := (h.reach hstart hplaces pipeline.stages.length).completed pipeline
  rw [run_eq_completed, run_eq_completed]
  refine ⟨?_, hdone.turn⟩
  dsimp only
  rw [hdone.failure, hdone.events, hdone.records]

end Hides

end SiteServer.Pipeline
