import SiteServer.Proofs.Site.Stages

/-! # Decided responses are final.

A response is decided by a stage that succeeds with the request finished and a body written, and by the
handler. From then on a run is closed: other stages are passed over, and a stage that cleans up leaves the
response alone, so that its failure, too, stays without consequences. -/

namespace SiteServer

open Message (Exchange Response)

namespace Pipeline

variable {σ : Type} {pipeline : Pipeline σ} {turn : Turn σ}

/-! ## What a closed run keeps -/

/-- The response that a call decided, if it decided one. -/
def Call.decided? : Call → Option Response
  | .stage _ _ _ (.ok _) exit =>
    if exit.request.finished && exit.response.isWritten then some exit.response else none
  | .stage _ _ _ (.error _) _ => none
  | .handler _ _ exit => some exit.response

/-- A stage that leaves the response as it is, and a finished request finished. -/
def Stage.LeavesResponse (stage : Stage σ) : Prop :=
  ∀ turn, (stage.run turn).2.exchange.response = turn.exchange.response ∧
    (turn.exchange.request.finished = true → (stage.run turn).2.exchange.request.finished = true)

/-- A failure was handed to the handler, or the request is finished and its response written. -/
def Closed (p : Progress σ) : Prop :=
  p.failure ≠ none ∨
    p.turn.exchange.request.finished = true ∧ p.turn.exchange.response.isWritten = true

/-- The response is what it was decided to be, and the run is closed since. -/
def Frozen (p : Progress (σ × List Call)) : Prop :=
  ∀ call ∈ p.turn.shared.2, ∀ response, call.decided? = some response →
    p.turn.exchange.response = response ∧ Closed p

theorem Closed.congr {p q : Progress σ} (h : Closed p) (hexchange : q.turn.exchange = p.turn.exchange)
    (hfailure : q.failure = p.failure) : Closed q := by
  rw [Closed, hexchange, hfailure]
  exact h

section Step

variable {place : Nat} {stage : Stage σ} {p q : Progress (σ × List Call)}
  {log : List LogRecord} {result : Except Failure StageOutput} {left : Turn σ}

/-- In a closed run only a stage that cleans up is called, and it changes nothing that was decided. -/
theorem Closed.called (h : Closed p) (hcleanup : stage.kind = .cleanup → stage.LeavesResponse)
    (asked : p.passReason? stage.kind = none)
    (ran : stage.run ⟨p.turn.exchange, p.turn.shared.1, log⟩ = (result, left)) :
    stage.kind = .cleanup ∧ left.exchange.response = p.turn.exchange.response ∧
      (p.turn.exchange.request.finished = true → left.exchange.request.finished = true) := by
  have hkind : stage.kind = .cleanup := by
    rcases (passReason?_eq_none_iff _ _).mp asked with hkind | ⟨hfailure, hopen⟩
    · exact hkind
    · rcases h with hfailed | ⟨hfinished, _⟩
      · exact absurd hfailure hfailed
      · rw [hopen] at hfinished
        cases hfinished
  have hleaves := hcleanup hkind ⟨p.turn.exchange, p.turn.shared.1, log⟩
  rw [ran] at hleaves
  exact ⟨hkind, hleaves⟩

/-- A stage that is called in a closed run leaves it closed, with the same response. -/
theorem Closed.kept (h : Closed p) (hcleanup : stage.kind = .cleanup → stage.LeavesResponse)
    (asked : p.passReason? stage.kind = none)
    (ran : stage.run ⟨p.turn.exchange, p.turn.shared.1, log⟩ = (result, left))
    (exchange : q.turn.exchange = left.exchange) (failure : q.failure = p.failure) :
    q.turn.exchange.response = p.turn.exchange.response ∧ Closed q := by
  obtain ⟨_, hresponse, hfinished⟩ := h.called hcleanup asked ran
  rw [Closed, exchange, failure, hresponse]
  exact ⟨rfl, h.imp_right fun hdone => ⟨hfinished hdone.1, hdone.2⟩⟩

theorem Frozen.step (hcleanup : stage.kind = .cleanup → stage.LeavesResponse) (h : Frozen p)
    (hstep : Transition pipeline place stage p q) : Frozen q := by
  intro call hcall response hdecided
  cases hstep with
  | passed asked exchange shared failure =>
      rw [shared] at hcall
      obtain ⟨hresponse, hclosed⟩ := h call hcall response hdecided
      rw [exchange]
      exact ⟨hresponse, hclosed.congr exchange failure⟩
  | succeeded asked ran exchange shared failure =>
      rw [shared] at hcall
      rcases List.mem_append.mp hcall with hold | hnew
      · obtain ⟨rfl, hclosed⟩ := h call hold response hdecided
        exact hclosed.kept hcleanup asked ran exchange failure
      · rw [List.mem_singleton.mp hnew] at hdecided
        simp only [Call.decided?, Option.ite_none_right_eq_some, Bool.and_eq_true,
          Option.some.injEq] at hdecided
        rw [Closed, exchange]
        exact ⟨hdecided.2, .inr hdecided.1⟩
  | excused asked ran _ exchange shared failure =>
      rw [shared] at hcall
      rcases List.mem_append.mp hcall with hold | hnew
      · obtain ⟨rfl, hclosed⟩ := h call hold response hdecided
        exact hclosed.kept hcleanup asked ran exchange failure
      · rw [List.mem_singleton.mp hnew] at hdecided
        cases hdecided
  | handed asked ran pending _ exchange shared failure =>
      rw [shared] at hcall
      rcases List.mem_append.mp hcall with hold | hnew
      · -- Nothing was decided before: the failure of a closed run is excused.
        obtain ⟨_, hclosed⟩ := h call hold response hdecided
        obtain ⟨hkind, hresponse, _⟩ := hclosed.called hcleanup asked ran
        refine absurd (hclosed.imp_right fun hdone => ⟨hkind, ?_⟩) pending
        rw [hresponse]
        exact hdone.2
      · simp only [List.mem_cons, List.not_mem_nil, or_false] at hnew
        rcases hnew with rfl | rfl
        · cases hdecided
        · cases hdecided
          rw [exchange]
          exact ⟨rfl, .inl (by simp [failure])⟩

end Step

theorem frozen_trace
    (hcleanup : ∀ stage ∈ pipeline.stages, stage.kind = .cleanup → stage.LeavesResponse)
    (place : Nat) : Frozen (pipeline.trace turn place) := by
  refine trace_invariant ?_ ?_ place
  · intro call hcall
    cases hcall
  · intro place stage p q hs hstep hp
    exact hp.step (hcleanup stage (List.mem_of_getElem? hs)) hstep

end Pipeline

/-! ## Runs with the stages of a site -/

open Pipeline (Stage StageKind Turn)

namespace Site

theorem leavesResponse_of_mem_stages {site : Site}
    (hcleanup : ∀ files request, request.finished = true →
      (site.intake.cleanup files request).request.finished = true)
    {stage : Stage World} (hmem : stage ∈ site.stages) (hkind : stage.kind = .cleanup) :
    stage.LeavesResponse := by
  have hstage : stage = ⟨StageKind.name .cleanup, .cleanup, site.cleanup⟩ := by
    rw [stages_eq] at hmem
    simp only [List.mem_cons, List.not_mem_nil, or_false] at hmem
    rcases hmem with rfl | rfl | rfl | rfl | rfl | rfl | rfl
    · cases hkind
    · cases hkind
    · cases hkind
    · cases hkind
    · cases hkind
    · cases hkind
    · rfl
  subst hstage
  intro turn
  obtain ⟨later, hrun⟩ := cleanup_yields site turn.shared turn.exchange turn.log
  change (site.cleanup turn).2.exchange.response = _ ∧
    (_ → (site.cleanup turn).2.exchange.request.finished = _)
  rw [hrun]
  exact ⟨rfl, hcleanup _ _⟩

/-- A decided response is final. The stages are those of a site, in any order and with any others in
between that do not clean up; neither they nor a failure of the stage that cleans up change the response
once it is decided. -/
theorem decided_response_final (site : Site) (pipeline : Pipeline World) (turn : Turn World)
    (hcleanup : ∀ files request, request.finished = true →
      (site.intake.cleanup files request).request.finished = true)
    (hstages : ∀ stage ∈ pipeline.stages, stage ∈ site.stages ∨ stage.kind ≠ .cleanup) :
    (∀ later, ∀ call ∈ pipeline.callsBefore turn later, ∀ response,
        call.decided? = some response →
          (pipeline.reach turn later).turn.exchange.response = response) ∧
      ∀ call ∈ pipeline.calls turn, ∀ response,
        call.decided? = some response → (pipeline.run turn).2.exchange.response = response := by
  have hfrozen : ∀ later, ∀ call ∈ pipeline.callsBefore turn later, ∀ response,
      call.decided? = some response →
        (pipeline.reach turn later).turn.exchange.response = response := by
    intro later call hcall response hdecided
    have hleaves : ∀ stage ∈ pipeline.stages, stage.kind = .cleanup → stage.LeavesResponse := by
      intro stage hmem hkind
      exact leavesResponse_of_mem_stages hcleanup ((hstages stage hmem).resolve_right (· hkind)) hkind
    rw [← Pipeline.exchange_trace]
    refine (Pipeline.frozen_trace hleaves later call ?_ response hdecided).1
    rw [Pipeline.shared_trace]
    exact hcall
  refine ⟨hfrozen, ?_⟩
  rw [Pipeline.calls_eq_callsBefore, (Pipeline.run_turn pipeline turn).1]
  exact hfrozen pipeline.stages.length

/-- A stage that answers every request with a text. -/
def answering (text : String) : Stage World :=
  .ofExchange text .custom fun _ e => (.ok .ok, e.answer Message.textType (bytesOf text))

/-- The stages of a site between two that answer. -/
def between (site : Site) : Pipeline World :=
  ⟨answering "early" :: site.stages ++ [answering "late"], site.errorPages, .silent, fun _ => .zero⟩

def idle : Controller := fun _ e => (.ok (), e)

theorem early_answer_final :
    ∃ call ∈ (uniform .none).between.calls (arrival "/x" .empty idle), ∃ response,
      call.decided? = some response ∧ response.body = some (bytesOf "early") ∧
        ((uniform .none).between.run (arrival "/x" .empty idle)).2.exchange.response = response := by
  have hmem : .stage 0 .custom (arrival "/x" .empty idle).exchange (.ok .ok)
      ((arrival "/x" .empty idle).exchange.answer Message.textType (bytesOf "early")) ∈
        (uniform .none).between.calls (arrival "/x" .empty idle) := by
    refine ((Pipeline.run_obeys_executorLaw _ _).before 1 (by decide)).subset ?_
    exact List.mem_singleton_self _
  have hstages : ∀ stage ∈ (uniform .none).between.stages,
      stage ∈ (uniform .none).stages ∨ stage.kind ≠ .cleanup := by
    intro stage hstage
    rw [between, List.mem_append, List.mem_cons, List.mem_singleton] at hstage
    rcases hstage with (rfl | hsite) | rfl
    · exact .inr nofun
    · exact .inl hsite
    · exact .inr nofun
  refine ⟨_, hmem, _, rfl, rfl, ?_⟩
  exact (decided_response_final _ _ (arrival "/x" .empty idle)
    (fun _ _ hfinished => hfinished) hstages).2 _ hmem _ rfl

end Site

end SiteServer
