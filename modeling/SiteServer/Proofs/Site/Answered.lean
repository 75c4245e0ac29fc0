import SiteServer.Proofs.Site.Answer
import SiteServer.Proofs.Site.Frame

/-! # Every request is answered.

Up to the stage that cleans up, no stage finishes a request without a written response, unless it fails;
then the error pages write one. The last of these stages finishes what is still open. -/

namespace SiteServer

open Message (Exchange Request)
open Pipeline (At Call Excused Progress Sink Stage StageKind StageOutput Transition Turn)

/-! ## Concluded requests -/

/-- A finished request has its response written. -/
def Message.Exchange.Concluded (e : Exchange) : Prop :=
  e.request.finished = true → e.response.isWritten = true

theorem Message.Exchange.concluded_of_open {e : Exchange} (h : e.request.finished = false) :
    e.Concluded := by
  intro hfinished
  rw [h] at hfinished
  cases hfinished

theorem Message.Exchange.concluded_of_written {e : Exchange} (h : e.response.isWritten = true) :
    e.Concluded :=
  fun _ => h

/-- A controller that has written the response whenever it succeeds with the request finished. -/
def Controller.Concludes (controller : Controller) : Prop :=
  ∀ files e left, controller files e = (.ok (), left) → left.Concluded

def Workshop.Concludes (workshop : Workshop) : Prop :=
  ∀ route controller, workshop.controllers.get? route = some controller → controller.Concludes

/-- A stage that keeps the controllers and, if they conclude, does so itself when it succeeds on an open
request. -/
structure Pipeline.Stage.Concludes (stage : Stage World) : Prop where
  controllers : ∀ turn,
    (stage.run turn).2.shared.workshop.controllers = turn.shared.workshop.controllers
  concluded : ∀ turn output left, turn.shared.workshop.Concludes →
    turn.exchange.request.finished = false → stage.run turn = (.ok output, left) →
      left.exchange.Concluded

namespace Site

/-! ## The stages, one by one -/

theorem controllers_afterErrorPage (site : Site) (world : World) (failure : Failure) :
    (site.afterErrorPage world failure).workshop.controllers = world.workshop.controllers := by
  obtain ⟨templates, hleft⟩ := exists_afterErrorPage_eq site world failure
  rw [hleft]
  rfl

theorem parse_concludes {site : Site} (hintake : site.intake.KeepsFinished) :
    Stage.Concludes ⟨StageKind.name .parse, .parse, site.parse⟩ where
  controllers _ := rfl
  concluded turn output left _ hopen hrun := by
    obtain ⟨_, hyields⟩ := parse_yields site turn.shared turn.exchange turn.log
    obtain ⟨_, rfl⟩ := Prod.mk.inj (hyields.symm.trans hrun)
    exact Exchange.concluded_of_open ((hintake.parse _ _).trans hopen)

theorem route_concludes (site : Site) :
    Stage.Concludes ⟨StageKind.name .route, .route, site.route⟩ where
  controllers turn := (route_untouched site turn).controllers
  concluded turn output left _ hopen hrun := by
    simp only [route] at hrun
    split at hrun
    · cases hrun
    · split at hrun
      · cases hrun
      · cases hrun
        exact Exchange.concluded_of_open hopen

theorem serveStatic_concludes (site : Site) :
    Stage.Concludes ⟨StageKind.name .serveStatic, .serveStatic, site.serveStatic⟩ where
  controllers turn := (serveStatic_untouched site turn).controllers
  concluded turn output left _ hopen hrun := by
    simp only [serveStatic] at hrun
    split at hrun
    · cases hrun
      exact Exchange.concluded_of_open hopen
    · split at hrun
      · cases hrun
      · cases hrun
        exact Exchange.concluded_of_written rfl

theorem targetNotFound_concludes {site : Site} {turn left : Turn World} {output : StageOutput}
    (hopen : turn.exchange.request.finished = false)
    (hrun : site.targetNotFound turn = (.ok output, left)) : left.exchange.Concluded := by
  simp only [targetNotFound] at hrun
  split at hrun
  · split at hrun
    · cases hrun
    · split at hrun
      · cases hrun
        exact Exchange.concluded_of_open hopen
      · cases hrun
        exact Exchange.concluded_of_written rfl
  · cases hrun
    exact Exchange.concluded_of_written rfl

theorem runController_concludes {controller : Controller} {turn left : Turn World}
    {output : StageOutput} (h : controller.Concludes)
    (hrun : runController controller turn = (.ok output, left)) : left.exchange.Concluded := by
  rw [runController] at hrun
  obtain ⟨hresult, rfl⟩ := Prod.mk.inj hrun
  cases hcontroller : controller turn.shared.files turn.exchange with
  | mk result exit =>
      rw [hcontroller] at hresult
      cases result with
      | error failure => cases hresult
      | ok _ => exact h _ _ _ hcontroller

theorem dispatch_concludes (site : Site) :
    Stage.Concludes ⟨StageKind.name .runController, .runController, site.dispatch⟩ where
  controllers turn := (dispatch_framed site turn).controllers
  concluded turn output left hcontrollers hopen hrun := by
    simp only [dispatch] at hrun
    split at hrun
    · split at hrun
      · rename_i hget
        exact runController_concludes (hcontrollers _ _ hget) hrun
      · cases hrun
    · cases hrun
      exact Exchange.concluded_of_open hopen
    · cases hrun
      exact Exchange.concluded_of_open hopen
    · exact targetNotFound_concludes hopen hrun

theorem render_concludes (site : Site) :
    Stage.Concludes ⟨StageKind.name .render, .render, site.render⟩ where
  controllers turn := (render_untouched site turn).controllers
  concluded turn output left _ hopen hrun := by
    have hleft : (site.render turn).2 = left := congrArg Prod.snd hrun
    have hrequest := (render_frame site turn).1
    rw [hleft] at hrequest
    exact Exchange.concluded_of_open ((congrArg Request.finished hrequest).trans hopen)

theorem emit_finishes {e exit : Exchange} {output : StageOutput} (h : emit e = (.ok output, exit)) :
    exit.request.finished = true ∧ exit.response.isWritten = true := by
  rw [emit] at h
  split at h
  · cases h
    exact ⟨rfl, rfl⟩
  · split at h <;> cases h
    exact ⟨rfl, rfl⟩

theorem emit_concludes : Stage.Concludes emitStage where
  controllers _ := rfl
  concluded turn output left _ _ hrun := by
    obtain ⟨hresult, rfl⟩ := Prod.mk.inj hrun
    exact Exchange.concluded_of_written (emit_finishes (Prod.ext hresult rfl)).2

/-- The stages before the one that cleans up. -/
theorem concludes_of_lt {site : Site} (hintake : site.intake.KeepsFinished) (sink : Sink)
    (clock : Nat → Binary64) {place : Nat} (hlt : place < 6) :
    ∃ stage, (site.pipeline sink clock).stages[place]? = some stage ∧ stage.kind ≠ .cleanup ∧
      stage.Concludes := by
  match place, hlt with
  | 0, _ => exact ⟨_, rfl, nofun, parse_concludes hintake⟩
  | 1, _ => exact ⟨_, rfl, nofun, route_concludes site⟩
  | 2, _ => exact ⟨_, rfl, nofun, serveStatic_concludes site⟩
  | 3, _ => exact ⟨_, rfl, nofun, dispatch_concludes site⟩
  | 4, _ => exact ⟨_, rfl, nofun, render_concludes site⟩
  | 5, _ => exact ⟨_, rfl, nofun, emit_concludes⟩

end Site

/-! ## What every step keeps -/

/-- The failure of a stage, unless it is one that cleans up. -/
def Pipeline.Call.fault? : Call → Option Failure
  | .stage _ kind _ (.error failure) _ => if kind = .cleanup then none else some failure
  | _ => none

/-- A stage fails where a run reaches it, and leaves a turn. -/
def Pipeline.FailsIn {σ : Type} (pipeline : Pipeline σ) (turn : Turn σ) (failure : Failure)
    (left : Turn σ) : Prop :=
  ∃ place, ∃ stage : Stage σ, ∃ log, pipeline.stages[place]? = some stage ∧
    stage.kind ≠ .cleanup ∧
      stage.run ⟨(pipeline.reach turn place).turn.exchange,
        (pipeline.reach turn place).turn.shared, log⟩ = (.error failure, left)

namespace Site

variable {site : Site} {sink : Sink} {clock : Nat → Binary64} {turn : Turn World} {place : Nat}

/-- What holds whenever a run reaches a stage up to the one that cleans up. -/
structure Orderly (site : Site) (pipeline : Pipeline World) (turn : Turn World)
    (p : Progress (World × List Call)) : Prop where
  controllers : p.turn.shared.1.workshop.controllers = turn.shared.workshop.controllers
  concluded : p.turn.exchange.Concluded
  reported : p.failure = p.turn.shared.2.findSome? Call.fault?
  answered : ∀ failure, p.failure = some failure → ∃ left, pipeline.FailsIn turn failure left ∧
    p.turn.exchange.request.finished = true ∧
      p.turn.exchange.response = site.errorResponse left.shared failure left.exchange.response

theorem Orderly.step {stage : Stage World} {p q : Progress (World × List Call)}
    (h : Orderly site (site.pipeline sink clock) turn p)
    (hp : p.plain = (site.pipeline sink clock).reach turn place)
    (hs : (site.pipeline sink clock).stages[place]? = some stage) (hkind : stage.kind ≠ .cleanup)
    (hstage : stage.Concludes) (hcontrollers : turn.shared.workshop.Concludes)
    (hstep : Transition (site.pipeline sink clock) place stage p q) :
    Orderly site (site.pipeline sink clock) turn q := by
  have hopen : p.passReason? stage.kind = none →
      p.failure = none ∧ p.turn.exchange.request.finished = false := by
    intro asked
    exact ((Pipeline.passReason?_eq_none_iff _ _).mp asked).resolve_left hkind
  have hkept : ∀ {log result left},
      stage.run ⟨p.turn.exchange, p.turn.shared.1, log⟩ = (result, left) →
        left.shared.workshop.controllers = turn.shared.workshop.controllers := by
    intro log result left ran
    have hsame := hstage.controllers ⟨p.turn.exchange, p.turn.shared.1, log⟩
    rw [ran] at hsame
    exact hsame.trans h.controllers
  cases hstep with
  | passed asked exchange shared failure =>
      refine ⟨?_, ?_, ?_, ?_⟩
      · rw [shared]
        exact h.controllers
      · rw [exchange]
        exact h.concluded
      · rw [failure, shared]
        exact h.reported
      · rw [failure, exchange]
        exact h.answered
  | succeeded asked ran exchange shared failure =>
      obtain ⟨hnone, hunfinished⟩ := hopen asked
      refine ⟨?_, ?_, ?_, ?_⟩
      · rw [shared]
        exact hkept ran
      · rw [exchange]
        refine hstage.concluded _ _ _ ?_ hunfinished ran
        rw [Workshop.Concludes, h.controllers]
        exact hcontrollers
      · rw [failure, shared, List.findSome?_append, ← h.reported, hnone]
        rfl
      · rw [failure, hnone]
        nofun
  | excused asked _ excused _ _ _ =>
      -- A stage that is called finds no failure, and it is not the one that cleans up.
      exact absurd (hopen asked).1 (excused.resolve_right fun hcleanup => hkind hcleanup.1)
  | @handed log later fault left handled asked ran pending answered exchange shared failure =>
      obtain ⟨hexchange, hshared⟩ := errorPages_eq site fault { left with log := later }
      change site.errorPages fault { left with log := later } = handled at answered
      rw [answered] at hexchange hshared
      refine ⟨?_, ?_, ?_, ?_⟩
      · rw [shared, hshared]
        have hfailed := hkept ran
        exact (controllers_afterErrorPage site _ fault).trans hfailed
      · rw [exchange, hexchange]
        exact Exchange.concluded_of_written (isWritten_errorResponse site _ _ _)
      · rw [failure, shared, List.findSome?_append, ← h.reported, (hopen asked).1]
        simp [Call.fault?, hkind]
      · intro reported hreported
        rw [failure] at hreported
        cases hreported
        refine ⟨left, ⟨place, stage, log, hs, hkind, ?_⟩, ?_⟩
        · rw [← hp]
          exact ran
        · rw [exchange, hexchange]
          exact ⟨rfl, rfl⟩

theorem orderly_trace (hintake : site.intake.KeepsFinished) (sink : Sink) (clock : Nat → Binary64)
    (hcontrollers : turn.shared.workshop.Concludes) (hentry : turn.exchange.Concluded)
    (hle : place ≤ 6) :
    Orderly site (site.pipeline sink clock) turn
      ((site.pipeline sink clock).trace turn place) := by
  induction place with
  | zero => exact ⟨rfl, hentry, rfl, nofun⟩
  | succ place ih =>
      obtain ⟨stage, hs, hkind, hstage⟩ := concludes_of_lt hintake sink clock hle
      exact (ih (Nat.le_of_lt hle)).step (Pipeline.reach_plain _ _ _) hs hkind hstage hcontrollers
        (Pipeline.transition_trace turn hs)

/-! ## Cleaning up -/

/-- When only cleaning up is left, the request is finished or a failure was answered. -/
theorem closed_at_cleanup (site : Site) (sink : Sink) (clock : Nat → Binary64) (turn : Turn World) :
    ((site.pipeline sink clock).trace turn 6).failure ≠ none ∨
      ((site.pipeline sink clock).trace turn 6).turn.exchange.request.finished = true := by
  have hs : (site.pipeline sink clock).stages[5]? = some emitStage := rfl
  cases Pipeline.transition_trace turn hs with
  | passed asked exchange _ failure =>
      rw [failure, exchange]
      by_contra hdone
      obtain ⟨hfailure, hfinished⟩ := not_or.mp hdone
      exact asked ((Pipeline.passReason?_eq_none_iff _ _).mpr
        (.inr ⟨not_not.mp hfailure, Bool.eq_false_iff.mpr hfinished⟩))
  | succeeded _ ran exchange _ _ =>
      obtain ⟨hresult, rfl⟩ := Prod.mk.inj ran
      rw [exchange]
      exact .inr (emit_finishes (Prod.ext hresult rfl)).1
  | excused asked _ excused _ _ failure =>
      rw [failure]
      exact .inl (excused.resolve_right fun hcleanup => absurd hcleanup.1 (by decide))
  | handed _ _ _ _ _ _ failure =>
      rw [failure]
      exact .inl nofun

theorem fault?_cleanup {entry exit : Exchange} {result : Except Failure StageOutput} :
    (Call.stage place .cleanup entry result exit).fault? = none := by
  cases result <;> rfl

/-- Up to there, no stage has cleaned up. -/
theorem cleanup_not_mem_trace (site : Site) (sink : Sink) (clock : Nat → Binary64)
    (turn : Turn World) : ∀ place entry result exit,
      .stage place .cleanup entry result exit ∉
        ((site.pipeline sink clock).trace turn 6).turn.shared.2 := by
  intro place entry result exit hmem
  obtain ⟨stage, hs, hkind⟩ := Pipeline.stage_of_mem_callsBefore hmem
  have hlt : place < 6 :=
    Pipeline.lt_of_mem_placesOf (List.mem_filterMap.mpr ⟨_, hmem, rfl⟩)
  obtain ⟨other, hother, hne⟩ := exists_stage site sink clock hlt
  cases hother.symm.trans hs
  exact hne hkind

/-- What every run of the default stages comes to. -/
structure Answered (site : Site) (pipeline : Pipeline World) (turn : Turn World) : Prop where
  /-- The request is finished. -/
  finished : (pipeline.run turn).2.exchange.request.finished = true
  /-- The response is written. -/
  written : (pipeline.run turn).2.exchange.response.isWritten = true
  /-- The failure that is reported is the first one, failures to clean up apart. -/
  reported : (pipeline.run turn).1.failure = (pipeline.calls turn).findSome? Call.fault?
  /-- Such a failure is answered with status 500: with the page that the error route has for it as the
  failing stage left the site, or else with the fixed text. -/
  failed : ∀ failure, (pipeline.run turn).1.failure = some failure →
    ∃ left, pipeline.FailsIn turn failure left ∧
      (pipeline.run turn).2.exchange.response.status = 500 ∧
      (pipeline.run turn).2.exchange.response.body =
        some (bytesOf ((site.errorPage? left.shared failure).getD errorBody))
  /-- The response is what it was before cleaning up. -/
  cleanup : ∀ place entry result exit,
    .stage place .cleanup entry result exit ∈ pipeline.calls turn →
      (pipeline.run turn).2.exchange.response = entry.response

/-- A run of the default stages answers every request, if the controllers conclude. -/
theorem every_request_answered (sink : Sink) (clock : Nat → Binary64)
    (hintake : site.intake.KeepsFinished) (hcontrollers : turn.shared.workshop.Concludes)
    (hentry : turn.exchange.Concluded) : Answered site (site.pipeline sink clock) turn := by
  have horderly := orderly_trace hintake sink clock hcontrollers hentry (Nat.le_refl 6)
  have hclosed := closed_at_cleanup site sink clock turn
  have hearly := cleanup_not_mem_trace site sink clock turn
  have hsix : At (site.pipeline sink clock) turn 6 _ _ _ _ := ⟨rfl, rfl, rfl⟩
  generalize (site.pipeline sink clock).trace turn 6 = p at horderly hclosed hearly hsix
  have hfinished : p.turn.exchange.request.finished = true := by
    rcases hclosed with hfailed | hfinished
    · obtain ⟨failure, hfailure⟩ := Option.ne_none_iff_exists'.mp hfailed
      obtain ⟨_, _, hfinished, _⟩ := horderly.answered failure hfailure
      exact hfinished
    · exact hfinished
  have hwritten := horderly.concluded hfinished
  have hseven := hsix.call rfl (.inl rfl) (cleanup_yields site _ _) fun _ _ => .inr ⟨rfl, hwritten⟩
  obtain ⟨hexchange, hshared, hfailure, hcalls⟩ := At.run_eq hseven
  refine ⟨?_, ?_, ?_, ?_, ?_⟩
  · rw [hexchange]
    exact (hintake.cleanup _ _).trans hfinished
  · rw [hexchange]
    exact hwritten
  · rw [hfailure, hcalls, List.findSome?_append, ← horderly.reported, List.findSome?_singleton,
      fault?_cleanup, Option.or_none]
  · intro failure hreported
    rw [hfailure] at hreported
    obtain ⟨left, hfails, _, hresponse⟩ := horderly.answered failure hreported
    rw [hexchange]
    refine ⟨left, hfails, ?_⟩
    simp only [hresponse]
    exact errorResponse_spec site _ _ _
  · intro place entry result exit hmem
    rw [hcalls] at hmem
    rcases List.mem_append.mp hmem with hbefore | hlast
    · exact absurd hbefore (hearly _ _ _ _)
    · cases List.mem_singleton.mp hlast
      rw [hexchange]

/-- A controller that answers every request with a text. -/
def greet : Controller := fun _ e => (.ok (), e.answer Message.textType (bytesOf "hello"))

theorem greeting_answered :
    ∃ site, ofOptions { basePath := ⟨"/site"⟩ } {} = .ok site ∧
      Answered site (site.pipeline .silent fun _ => .zero) (arrival "/x" .empty greet) := by
  have hsite : ofOptions { basePath := ⟨"/site"⟩ } {} = .ok _ := rfl
  refine ⟨_, hsite, every_request_answered _ _ (keepsFinished_ofOptions hsite) ?_ nofun⟩
  intro route controller hget files e left hrun
  rw [eq_of_get?_arrival hget] at hrun
  cases hrun
  exact Exchange.concluded_of_written rfl

end Site

end SiteServer
