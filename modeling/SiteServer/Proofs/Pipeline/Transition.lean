import SiteServer.Proofs.Pipeline.Executor

/-! # Runs, transition by transition.

What a run keeps is derived from `Transition`. For runs whose stages are known, `At` tells all that matters
of a run at a place, and each kind of step takes it to the next place. -/

namespace SiteServer.Pipeline

open Message (Exchange)

variable {σ : Type} {pipeline : Pipeline σ} {turn : Turn σ}

/-! ## Runs, observed -/

/-- How far the observed run has come when it reaches a place. -/
def trace (pipeline : Pipeline σ) (turn : Turn σ) (place : Nat) : Progress (σ × List Call) :=
  pipeline.observed.reach (turn.observed []) place

theorem transition_trace (turn : Turn σ) {place : Nat} {stage : Stage σ}
    (h : pipeline.stages[place]? = some stage) :
    Transition pipeline place stage (pipeline.trace turn place) (pipeline.trace turn (place + 1)) := by
  have hobserved := observed_stages_getElem? pipeline place
  rw [h] at hobserved
  rw [trace, trace, reach_succ hobserved]
  exact transition_advance pipeline _ place stage

theorem trace_beyond {place : Nat} (h : pipeline.stages[place]? = none) :
    pipeline.trace turn (place + 1) = pipeline.trace turn place := by
  have hobserved := observed_stages_getElem? pipeline place
  rw [h] at hobserved
  rw [trace, reach_beyond hobserved, trace]

/-- What holds when a run starts, and is kept by every step, holds at every place. -/
theorem trace_invariant {P : Progress (σ × List Call) → Prop}
    (start : P (.start (turn.observed [])))
    (step : ∀ place stage p q, pipeline.stages[place]? = some stage →
      Transition pipeline place stage p q → P p → P q) (place : Nat) :
    P (pipeline.trace turn place) := by
  induction place with
  | zero => exact start
  | succ place ih =>
      cases hs : pipeline.stages[place]? with
      | none =>
          rw [trace_beyond hs]
          exact ih
      | some stage => exact step place stage _ _ hs (transition_trace turn hs) ih

section Trace

variable (pipeline : Pipeline σ) (turn : Turn σ) (place : Nat)

theorem exchange_trace :
    (pipeline.trace turn place).turn.exchange = (pipeline.reach turn place).turn.exchange := by
  rw [← reach_plain pipeline turn place]
  rfl

theorem shared_trace :
    (pipeline.trace turn place).turn.shared =
      ((pipeline.reach turn place).turn.shared, pipeline.callsBefore turn place) := by
  rw [← reach_plain pipeline turn place]
  rfl

theorem failure_trace :
    (pipeline.trace turn place).failure = (pipeline.reach turn place).failure := by
  rw [← reach_plain pipeline turn place]
  rfl

/-- What is known before a stage turns into what is known behind it, if it does where the stage is passed over
and where it is called, and if the handler keeps it. -/
theorem reach_step {P Q : Exchange → σ → Prop} {stage : Stage σ}
    (hs : pipeline.stages[place]? = some stage)
    (h : P (pipeline.reach turn place).turn.exchange (pipeline.reach turn place).turn.shared)
    (passed : stage.kind ≠ .cleanup → ∀ e s, P e s → Q e s)
    (called : ∀ t, P t.exchange t.shared → Q (stage.run t).2.exchange (stage.run t).2.shared)
    (handler : ∀ failure t, Q t.exchange t.shared →
      Q (pipeline.handler failure t).exchange (pipeline.handler failure t).shared) :
    Q (pipeline.reach turn (place + 1)).turn.exchange (pipeline.reach turn (place + 1)).turn.shared := by
  have hreach (later : Nat) : (pipeline.trace turn later).turn.shared.1 =
      (pipeline.reach turn later).turn.shared := congrArg Prod.fst (shared_trace pipeline turn later)
  rw [← exchange_trace, ← hreach] at h ⊢
  have hran {log : List LogRecord} {result : Except Failure StageOutput} {left : Turn σ}
      (ran : stage.run ⟨(pipeline.trace turn place).turn.exchange,
        (pipeline.trace turn place).turn.shared.1, log⟩ = (result, left)) :
      Q left.exchange left.shared := by
    have hleft := called ⟨_, _, log⟩ h
    rwa [ran] at hleft
  cases transition_trace turn hs with
  | passed asked exchange shared _ =>
      rw [exchange, shared]
      refine passed (fun hkind => asked ?_) _ _ h
      exact (passReason?_eq_none_iff _ _).mpr (.inl hkind)
  | succeeded _ ran exchange shared _ =>
      rw [exchange, shared]
      exact hran ran
  | excused _ ran _ exchange shared _ =>
      rw [exchange, shared]
      exact hran ran
  | handed _ ran _ answered exchange shared _ =>
      have hleft := hran ran
      rw [exchange, shared, ← answered]
      exact handler _ _ hleft

/-- What the stages between two places keep, and the handler, holds at the later place if it holds at the
earlier one. -/
theorem reach_between {P : Exchange → σ → Prop} {start : Nat} (hle : start ≤ place)
    (h : P (pipeline.reach turn start).turn.exchange (pipeline.reach turn start).turn.shared)
    (stages : ∀ other stage, start ≤ other → other < place → pipeline.stages[other]? = some stage →
      ∀ t, P t.exchange t.shared → P (stage.run t).2.exchange (stage.run t).2.shared)
    (handler : ∀ failure t, P t.exchange t.shared →
      P (pipeline.handler failure t).exchange (pipeline.handler failure t).shared) :
    P (pipeline.reach turn place).turn.exchange (pipeline.reach turn place).turn.shared := by
  induction hle with
  | refl => exact h
  | @step place hle ih =>
      have hplace := ih fun other stage hfrom hto => stages other stage hfrom (Nat.lt_succ_of_lt hto)
      cases hs : pipeline.stages[place]? with
      | none =>
          rw [reach_beyond hs]
          exact hplace
      | some stage =>
          exact reach_step pipeline turn place hs hplace (fun _ _ _ => id)
            (stages place stage hle (Nat.lt_succ_self place) hs) handler

/-- What all stages and the handler keep of an exchange and of what requests share holds at every place. -/
theorem reach_invariant {P : Exchange → σ → Prop} (start : P turn.exchange turn.shared)
    (stage : ∀ stage ∈ pipeline.stages, ∀ t, P t.exchange t.shared →
      P (stage.run t).2.exchange (stage.run t).2.shared)
    (handler : ∀ failure t, P t.exchange t.shared →
      P (pipeline.handler failure t).exchange (pipeline.handler failure t).shared) :
    P (pipeline.reach turn place).turn.exchange (pipeline.reach turn place).turn.shared :=
  reach_between pipeline turn place (Nat.zero_le place) start
    (fun _ member _ _ hs => stage member (List.mem_of_getElem? hs)) handler

/-- A run leaves the exchange and what requests share as they are behind the last stage. -/
theorem run_turn :
    (pipeline.run turn).2.exchange = (pipeline.reach turn pipeline.stages.length).turn.exchange ∧
      (pipeline.run turn).2.shared = (pipeline.reach turn pipeline.stages.length).turn.shared := by
  rw [run_eq_completed]
  exact ⟨rfl, rfl⟩

end Trace

/-! ## Runs whose stages are known -/

/-- On an exchange and what requests share, work gives a result and leaves an exchange and what requests
share then, whatever has been logged. -/
def Yields (work : Work σ StageOutput) (entry : Exchange) (shared : σ)
    (result : Except Failure StageOutput) (exit : Exchange) (left : σ) : Prop :=
  ∀ log, ∃ later, work ⟨entry, shared, log⟩ = (result, ⟨exit, left, later⟩)

/-- A run reaches a place with an exchange, with what requests share, with a failure or without one, and
after some calls. -/
structure At (pipeline : Pipeline σ) (turn : Turn σ) (place : Nat) (exchange : Exchange) (shared : σ)
    (failure : Option Failure) (calls : List Call) : Prop where
  exchange : (pipeline.trace turn place).turn.exchange = exchange
  shared : (pipeline.trace turn place).turn.shared = (shared, calls)
  failure : (pipeline.trace turn place).failure = failure

theorem at_start (pipeline : Pipeline σ) (turn : Turn σ) :
    At pipeline turn 0 turn.exchange turn.shared none [] :=
  ⟨rfl, rfl, rfl⟩

namespace At

variable {place : Nat} {stage : Stage σ} {entry exit : Exchange} {shared left : σ}
  {failure : Option Failure} {calls : List Call}

theorem asked (h : At pipeline turn place entry shared failure calls) (kind : StageKind) :
    (pipeline.trace turn place).passReason? kind = none ↔
      kind = .cleanup ∨ failure = none ∧ entry.request.finished = false := by
  rw [passReason?_eq_none_iff, h.exchange, h.failure]

/-- A stage is passed over when a failure was handed to the handler or the request is finished. -/
theorem pass (h : At pipeline turn place entry shared failure calls)
    (hs : pipeline.stages[place]? = some stage) (hkind : stage.kind ≠ .cleanup)
    (hdone : failure ≠ none ∨ entry.request.finished = true) :
    At pipeline turn (place + 1) entry shared failure calls := by
  have hasked : (pipeline.trace turn place).passReason? stage.kind ≠ none := by
    rw [ne_eq, h.asked]
    rintro (hcleanup | ⟨hnone, hopen⟩)
    · exact hkind hcleanup
    · rcases hdone with hfailed | hfinished
      · exact hfailed hnone
      · rw [hopen] at hfinished
        cases hfinished
  cases transition_trace turn hs with
  | passed _ exchange shared failure =>
      exact ⟨exchange.trans h.exchange, shared.trans h.shared, failure.trans h.failure⟩
  | succeeded asked _ _ _ _ => exact absurd asked hasked
  | excused asked _ _ _ _ _ => exact absurd asked hasked
  | handed asked _ _ _ _ _ _ => exact absurd asked hasked

/-- What a stage yields is what it gave in the run. -/
theorem ran_eq {result given : Except Failure StageOutput} {log : List LogRecord} {after : Turn σ}
    (h : At pipeline turn place entry shared failure calls)
    (hyields : Yields stage.run entry shared result exit left)
    (ran : stage.run ⟨(pipeline.trace turn place).turn.exchange,
      (pipeline.trace turn place).turn.shared.1, log⟩ = (given, after)) :
    given = result ∧ ∃ later, after = ⟨exit, left, later⟩ := by
  rw [h.exchange, h.shared] at ran
  obtain ⟨later, hrun⟩ := hyields log
  obtain ⟨hgiven, hafter⟩ := Prod.mk.inj (ran.symm.trans hrun)
  exact ⟨hgiven, later, hafter⟩

/-- A stage that is called, and that succeeds or has an excuse. -/
theorem call {result : Except Failure StageOutput}
    (h : At pipeline turn place entry shared failure calls)
    (hs : pipeline.stages[place]? = some stage)
    (hasked : stage.kind = .cleanup ∨ failure = none ∧ entry.request.finished = false)
    (hyields : Yields stage.run entry shared result exit left)
    (hexcuse : ∀ fault, result = .error fault →
      failure ≠ none ∨ stage.kind = .cleanup ∧ exit.response.isWritten = true) :
    At pipeline turn (place + 1) exit left failure
      (calls ++ [.stage place stage.kind entry result exit]) := by
  have hcalled := (h.asked stage.kind).mpr hasked
  cases transition_trace turn hs with
  | passed asked _ _ _ => exact absurd hcalled asked
  | succeeded _ ran exchange shared failure =>
      obtain ⟨rfl, later, rfl⟩ := h.ran_eq hyields ran
      rw [h.exchange, h.shared] at shared
      exact ⟨exchange, shared, failure.trans h.failure⟩
  | excused _ ran _ exchange shared failure =>
      obtain ⟨rfl, later, rfl⟩ := h.ran_eq hyields ran
      rw [h.exchange, h.shared] at shared
      exact ⟨exchange, shared, failure.trans h.failure⟩
  | handed _ ran pending _ _ _ _ =>
      obtain ⟨rfl, later, rfl⟩ := h.ran_eq hyields ran
      rw [Excused, h.failure] at pending
      exact absurd (hexcuse _ rfl) pending

/-- A stage that is called and whose failure goes to the handler. -/
theorem hand {fault : Failure} (h : At pipeline turn place entry shared none calls)
    (hs : pipeline.stages[place]? = some stage)
    (hasked : stage.kind = .cleanup ∨ entry.request.finished = false)
    (hyields : Yields stage.run entry shared (.error fault) exit left)
    (hpending : ¬ (stage.kind = .cleanup ∧ exit.response.isWritten = true)) :
    ∃ log, ∃ handled : Turn σ, pipeline.handler fault ⟨exit, left, log⟩ = handled ∧
      At pipeline turn (place + 1) handled.exchange handled.shared (some fault)
        (calls ++ [.stage place stage.kind entry (.error fault) exit,
          .handler fault exit handled.exchange]) := by
  have hcalled := (h.asked stage.kind).mpr (hasked.imp id fun hopen => ⟨rfl, hopen⟩)
  cases transition_trace turn hs with
  | passed asked _ _ _ => exact absurd hcalled asked
  | succeeded _ ran _ _ _ => cases (h.ran_eq hyields ran).1
  | excused _ ran excused _ _ _ =>
      obtain ⟨_, later, rfl⟩ := h.ran_eq hyields ran
      rw [Excused, h.failure] at excused
      exact absurd (excused.resolve_left (· rfl)) hpending
  | @handed _ logged _ _ handled _ ran _ answered exchange shared failure =>
      obtain ⟨hfault, later, rfl⟩ := h.ran_eq hyields ran
      cases hfault
      rw [h.exchange, h.shared] at shared
      exact ⟨logged, handled, answered, exchange, shared, failure⟩

/-- A run that has passed its last stage. -/
theorem run_eq (h : At pipeline turn pipeline.stages.length entry shared failure calls) :
    (pipeline.run turn).2.exchange = entry ∧ (pipeline.run turn).2.shared = shared ∧
      (pipeline.run turn).1.failure = failure ∧ pipeline.calls turn = calls := by
  obtain ⟨hexchange, hshared⟩ := run_turn pipeline turn
  have hpair := (shared_trace pipeline turn pipeline.stages.length).symm.trans h.shared
  refine ⟨?_, ?_, ?_, ?_⟩
  · rw [hexchange, ← exchange_trace, h.exchange]
  · rw [hshared]
    exact congrArg Prod.fst hpair
  · rw [(run_report pipeline turn).2, ← failure_trace, h.failure]
  · rw [calls_eq_callsBefore]
    exact congrArg Prod.snd hpair

end At

end SiteServer.Pipeline
