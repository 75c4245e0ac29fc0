import Mathlib.Data.List.Basic
import SiteServer.Proofs.Pipeline.Transition

/-! # Events tell what the records say.

Every step of a run adds one record, and the events that tell what this record says: a stage that was passed
over is told of by one event, a stage that was called by two. The failure of a stage is in no record, but in
the calls of the run. -/

namespace SiteServer.Pipeline

open Message (Exchange)

variable {σ : Type} {pipeline : Pipeline σ} {turn : Turn σ} {place : Nat}

/-! ## What is told of a stage -/

def StageStatus.eventKind : StageStatus → EventKind
  | .ok => .stageCompleted
  | .skip => .stageSkipped
  | .fail => .stageFailed

namespace StageRecord

/-- What the last event about a stage adds: why the stage was skipped, or the failure in words. -/
def detail? (record : StageRecord) (fault : Option Failure) : Option String :=
  match record.status with
  | .ok => none
  | .skip => record.skipReason
  | .fail => fault.map Failure.message

/-- The events that tell what a record says of a stage, which took some time and may have failed. -/
def events (record : StageRecord) (requestId : String) (duration : Binary64) (fault : Option Failure) :
    List Event :=
  if record.executed then
    [.ofStage .stageStarted requestId record.name,
      { Event.ofStage record.status.eventKind requestId record.name with
        duration := some duration, detail := record.detail? fault }]
  else [{ Event.ofStage .stageSkipped requestId record.name with detail := record.skipReason }]

end StageRecord

def Call.faultAt? (place : Nat) : Call → Option Failure
  | .stage called _ _ (.error failure) _ => if called = place then some failure else none
  | _ => none

/-- The failure of the stage at a place, if it was called and failed. -/
def faultAt? (calls : List Call) (place : Nat) : Option Failure :=
  calls.findSome? (Call.faultAt? place)

theorem faultAt?_append (calls made : List Call) (place : Nat) :
    faultAt? (calls ++ made) place = (faultAt? calls place).or (faultAt? made place) :=
  List.findSome?_append

theorem placesOf_append (calls made : List Call) :
    placesOf (calls ++ made) = placesOf calls ++ placesOf made :=
  List.filterMap_append

/-- Only a stage that was called has failed. -/
theorem faultAt?_eq_none {calls : List Call} (h : place ∉ placesOf calls) :
    faultAt? calls place = none := by
  refine List.findSome?_eq_none_iff.mpr fun call hcall => ?_
  cases call with
  | handler failure entry exit => rfl
  | stage called kind entry result exit =>
      have hother : called ≠ place := by
        rintro rfl
        exact h (List.mem_filterMap.mpr ⟨_, hcall, rfl⟩)
      cases result with
      | ok output => rfl
      | error failure => simp [Call.faultAt?, hother]

/-- Calls of other stages say nothing of the failure of a stage. -/
theorem faultAt?_append_right (calls : List Call) {made : List Call} (h : place ∉ placesOf made) :
    faultAt? (calls ++ made) place = faultAt? calls place := by
  rw [faultAt?_append, faultAt?_eq_none h, Option.or_none]

theorem faultAt?_append_left {calls : List Call} (made : List Call) (h : place ∉ placesOf calls) :
    faultAt? (calls ++ made) place = faultAt? made place := by
  rw [faultAt?_append, faultAt?_eq_none h, Option.none_or]

/-- What the record of the stage at a place has to do with the calls of a run. -/
structure StageRecord.Told (calls : List Call) (place : Nat) (record : StageRecord) : Prop where
  called : record.executed = true ↔ place ∈ placesOf calls
  passed : record.executed = false → record.status = .skip
  skipped : record.status = .skip → ∃ reason, record.skipReason = some reason
  failed : record.status = .fail ↔ ∃ failure, faultAt? calls place = some failure

namespace StageRecord.Told

variable {record : StageRecord} {calls made : List Call}

theorem append_right (h : record.Told calls place) (hmade : place ∉ placesOf made) :
    record.Told (calls ++ made) place := by
  refine ⟨h.called.trans ?_, h.passed, h.skipped, ?_⟩
  · rw [placesOf_append, List.mem_append, or_iff_left hmade]
  · rw [faultAt?_append_right calls hmade]
    exact h.failed

theorem append_left (h : record.Told made place) (hcalls : place ∉ placesOf calls) :
    record.Told (calls ++ made) place := by
  refine ⟨h.called.trans ?_, h.passed, h.skipped, ?_⟩
  · rw [placesOf_append, List.mem_append, or_iff_right hcalls]
  · rw [faultAt?_append_left made hcalls]
    exact h.failed

end StageRecord.Told

/-! ## One step -/

/-- A stage whose outputs say that it did its work, or why it had nothing to do. -/
def Stage.Reports (stage : Stage σ) : Prop :=
  ∀ turn output left, stage.run turn = (.ok output, left) →
    output = .ok ∨ ∃ reason, output = .skip reason

/-- A step at a place adds a record, the events that tell it, and some calls of the stage there. -/
structure Adds (pipeline : Pipeline σ) (place : Nat) (p q : Progress (σ × List Call))
    (record : StageRecord) (made : List Call) : Prop where
  requestId : q.requestId = p.requestId
  records : q.records = p.records ++ [record]
  events : q.events = p.events ++
    record.events p.requestId (pipeline.clock p.records.length) (faultAt? made place)
  calls : q.turn.shared.2 = p.turn.shared.2 ++ made
  places : ∀ other ∈ placesOf made, other = place
  told : record.Told made place

/-- Taking note of a failure leaves records and events alone, and calls at most the handler. -/
theorem settleFailure_frame (pipeline : Pipeline σ) (kind : StageKind) (failure : Failure) (p : Progress (σ × List Call)) :
    ∃ handled, (∀ call ∈ handled, call.isHandler = true) ∧
      (pipeline.observed.settleFailure kind failure p).turn.shared.2 = p.turn.shared.2 ++ handled ∧
      (pipeline.observed.settleFailure kind failure p).records = p.records ∧
      (pipeline.observed.settleFailure kind failure p).events = p.events ∧
      (pipeline.observed.settleFailure kind failure p).requestId = p.requestId := by
  cases hfailure : p.failure.isSome with
  | true =>
      rw [settleFailure_late _ _ _ hfailure]
      exact ⟨[], List.forall_mem_nil _, (List.append_nil _).symm, rfl, rfl, rfl⟩
  | false =>
      cases hwritten : kind.alwaysRuns && p.turn.exchange.response.isWritten with
      | true =>
          rw [settleFailure_written _ _ _ hfailure hwritten]
          exact ⟨[], List.forall_mem_nil _, (List.append_nil _).symm, rfl, rfl, rfl⟩
      | false =>
          rw [settleFailure_handed _ _ _ hfailure hwritten]
          have hcalls := Handler.observed_calls pipeline.handler failure
            (p.turn.report .error "stage failed")
          refine ⟨_, fun call hcall => ?_, hcalls, rfl, rfl, rfl⟩
          rw [List.mem_singleton.mp hcall]
          rfl

theorem placesOf_handled {handled : List Call} (h : ∀ call ∈ handled, call.isHandler = true) :
    placesOf handled = [] := by
  refine List.filterMap_eq_nil_iff.mpr fun call hcall => ?_
  cases call with
  | stage called kind entry result exit => cases h _ hcall
  | handler failure entry exit => rfl

theorem Adds.settleFailure {p q : Progress (σ × List Call)} {record : StageRecord} {made : List Call}
    (h : Adds pipeline place p q record made) (kind : StageKind) (failure : Failure) :
    ∃ more, Adds pipeline place p (pipeline.observed.settleFailure kind failure q) record more := by
  obtain ⟨handled, hhandled, hcalls, hrecords, hevents, hrequestId⟩ :=
    settleFailure_frame pipeline kind failure q
  have hquiet : placesOf handled = [] := placesOf_handled hhandled
  have hother : place ∉ placesOf handled := hquiet ▸ List.not_mem_nil
  refine ⟨made ++ handled, hrequestId.trans h.requestId, hrecords.trans h.records, ?_, ?_, ?_,
    h.told.append_right hother⟩
  · rw [hevents, faultAt?_append_right made hother]
    exact h.events
  · rw [hcalls, h.calls, List.append_assoc]
  · rw [placesOf_append, hquiet, List.append_nil]
    exact h.places

section Advance

variable {stage : Stage σ} (p : Progress (σ × List Call))

theorem adds_passStage (stage : Stage σ) (reason : PassReason) :
    Adds pipeline place p (pipeline.observed.passStage (stage.observed place) reason p)
      ⟨stage.name, stage.kind, .skip, some reason.message, false⟩ [] where
  requestId := rfl
  records := rfl
  events := rfl
  calls := (List.append_nil _).symm
  places := List.forall_mem_nil _
  told := ⟨by simp [placesOf], fun _ => rfl, fun _ => ⟨_, rfl⟩, by simp [faultAt?]⟩

/-- A call of a stage, and a record that tells how it ended. -/
theorem adds_concluded {result : Except Failure StageOutput} (left : Turn σ) {record : StageRecord}
    {kind : EventKind} {detail : Option String} {call : Call}
    (hcall : call = .stage place stage.kind p.turn.exchange result left.exchange)
    (hname : record.name = stage.name) (hexecuted : record.executed = true)
    (hkind : record.status.eventKind = kind)
    (hdetail : record.detail? (faultAt? [call] place) = detail)
    (hskipped : record.status = .skip → ∃ reason, record.skipReason = some reason)
    (hfailed : record.status = .fail ↔ ∃ failure, faultAt? [call] place = some failure) :
    Adds pipeline place p
      (p.concluded pipeline.observed (stage.observed place)
        (left.observed (p.turn.shared.2 ++ [call])) kind detail record) record [call] where
  requestId := rfl
  records := rfl
  events := by
    rw [StageRecord.events, if_pos hexecuted, hname, hkind, hdetail]
    exact List.append_assoc _ _ _
  calls := rfl
  places := by simp [hcall, placesOf, Call.place?]
  told := by
    refine ⟨?_, ?_, hskipped, hfailed⟩
    · simp [hexecuted, hcall, placesOf, Call.place?]
    · simp [hexecuted]

theorem faultAt?_succeeded (kind : StageKind) (entry exit : Exchange) (output : StageOutput) :
    faultAt? [.stage place kind entry (.ok output) exit] place = none := rfl

theorem faultAt?_failed (kind : StageKind) (entry exit : Exchange) (failure : Failure) :
    faultAt? [.stage place kind entry (.error failure) exit] place = some failure := by
  simp [faultAt?, Call.faultAt?]

theorem adds_runStage (hstage : stage.Reports) :
    ∃ record made,
      Adds pipeline place p (pipeline.observed.runStage (stage.observed place) p) record made := by
  cases hrun : stage.run (p.plain.started pipeline stage).turn with
  | mk result left =>
      have hobserved : (stage.observed place).run
          (p.started pipeline.observed (stage.observed place)).turn =
            (result, left.observed (p.turn.shared.2 ++
              [.stage place stage.kind p.turn.exchange result left.exchange])) :=
        Stage.observed_run hrun
      cases result with
      | ok output =>
          rw [runStage_ok hobserved]
          rcases hstage _ _ _ hrun with rfl | ⟨reason, rfl⟩
          · refine ⟨⟨stage.name, stage.kind, .ok, none, true⟩, _,
              adds_concluded p left rfl rfl rfl rfl rfl ?_ ?_⟩
            · exact fun hskip => by cases hskip
            · simp [StageOutput.ok, faultAt?_succeeded]
          · refine ⟨⟨stage.name, stage.kind, .skip, some reason, true⟩, _,
              adds_concluded p left rfl rfl rfl rfl rfl ?_ ?_⟩
            · exact fun _ => ⟨reason, rfl⟩
            · simp [StageOutput.skip, faultAt?_succeeded]
      | error failure =>
          rw [runStage_error hobserved]
          have hadds : Adds pipeline place p _ ⟨stage.name, stage.kind, .fail, none, true⟩ _ :=
            adds_concluded p left rfl rfl rfl rfl
              (congrArg (Option.map Failure.message) (faultAt?_failed _ _ _ failure)) ?_ ?_
          · exact ⟨_, hadds.settleFailure _ failure⟩
          · exact fun hskip => by cases hskip
          · simp [faultAt?_failed]

variable (pipeline place) in
theorem adds_advance (hstage : stage.Reports) :
    ∃ record made, Adds pipeline place p (pipeline.observed.advance p (stage.observed place))
      record made := by
  cases hreason : p.passReason? (stage.observed place).kind with
  | some reason =>
      rw [advance_passed hreason]
      exact ⟨_, _, adds_passStage p stage reason⟩
  | none =>
      rw [advance_called hreason]
      exact adds_runStage p hstage

end Advance

/-! ## A whole run -/

/-- What holds of a run when it reaches a place. -/
structure Mirrors (pipeline : Pipeline σ) (turn : Turn σ) (place : Nat)
    (p : Progress (σ × List Call)) : Prop where
  requestId : p.requestId = turn.exchange.request.id
  reached : p.records.length = place
  places : ∀ other ∈ placesOf p.turn.shared.2, other < place
  events : p.events = p.records.zipIdx.flatMap fun (record, place) =>
    record.events turn.exchange.request.id (pipeline.clock place) (faultAt? p.turn.shared.2 place)
  told : ∀ place record, p.records[place]? = some record →
    StageRecord.Told p.turn.shared.2 place record

theorem Mirrors.step {p q : Progress (σ × List Call)} {record : StageRecord} {made : List Call}
    (h : Mirrors pipeline turn place p) (hadds : Adds pipeline place p q record made) :
    Mirrors pipeline turn (place + 1) q := by
  -- The calls that are added say nothing of earlier places, and those before nothing of this one.
  have hfresh : place ∉ placesOf p.turn.shared.2 := fun hmem => Nat.lt_irrefl _ (h.places _ hmem)
  have hmade : ∀ other, other < place → other ∉ placesOf made :=
    fun other hlt hmem => Nat.ne_of_lt hlt (hadds.places other hmem)
  refine ⟨hadds.requestId.trans h.requestId, ?_, ?_, ?_, ?_⟩
  · rw [hadds.records, List.length_append, h.reached]
    rfl
  · intro other hmem
    rw [hadds.calls, placesOf_append] at hmem
    rcases List.mem_append.mp hmem with hold | hnew
    · exact Nat.lt_succ_of_lt (h.places other hold)
    · rw [hadds.places other hnew]
      exact Nat.lt_succ_self place
  · have hearlier : ∀ entry ∈ p.records.zipIdx,
        entry.1.events turn.exchange.request.id (pipeline.clock entry.2)
            (faultAt? p.turn.shared.2 entry.2) =
          entry.1.events turn.exchange.request.id (pipeline.clock entry.2)
            (faultAt? q.turn.shared.2 entry.2) := by
      intro entry hentry
      have hlt : entry.2 < place := h.reached ▸ (List.getElem?_eq_some_iff.mp
        (List.mem_zipIdx_iff_getElem?.mp hentry)).1
      rw [hadds.calls, faultAt?_append_right _ (hmade entry.2 hlt)]
    have hlatest : faultAt? q.turn.shared.2 place = faultAt? made place := by
      rw [hadds.calls, faultAt?_append_left made hfresh]
    rw [hadds.events, hadds.records, List.zipIdx_append, List.flatMap_append, h.events, h.requestId,
      List.flatMap_congr hearlier, h.reached, ← hlatest]
    simp
  · intro other told hget
    rw [hadds.records, List.getElem?_append, h.reached] at hget
    rw [hadds.calls]
    split at hget
    case isTrue hlt => exact (h.told other told hget).append_right (hmade other hlt)
    case isFalse hge =>
      obtain ⟨hindex, htold⟩ := List.getElem?_eq_some_iff.mp hget
      have hplace : other = place := by
        rw [List.length_singleton] at hindex
        omega
      have hrecord : record = told := by simpa using htold
      rw [hplace, ← hrecord]
      exact hadds.told.append_left hfresh

/-- Between two steps, the events of a run tell exactly what its records say. -/
theorem mirrors_trace (turn : Turn σ) (h : ∀ stage ∈ pipeline.stages, stage.Reports)
    (hplace : place ≤ pipeline.stages.length) :
    Mirrors pipeline turn place (pipeline.trace turn place) := by
  induction place with
  | zero =>
      refine ⟨rfl, rfl, List.forall_mem_nil _, rfl, ?_⟩
      intro place record hget
      cases hget
  | succ place ih =>
      have hs : pipeline.stages[place]? = some pipeline.stages[place] :=
        List.getElem?_eq_getElem hplace
      have hobserved := observed_stages_getElem? pipeline place
      rw [hs] at hobserved
      obtain ⟨record, made, hadds⟩ := adds_advance pipeline place (pipeline.trace turn place)
        (h _ (List.getElem_mem hplace))
      rw [trace, reach_succ hobserved]
      exact (ih (Nat.le_of_succ_le hplace)).step hadds

/-- The events of a run are those that tell what the records of its stages say, one record after the other,
and then the one that ends the run. -/
structure Mirrored (pipeline : Pipeline σ) (turn : Turn σ) : Prop where
  events : (pipeline.run turn).1.events =
    ((pipeline.run turn).1.records.zipIdx.flatMap fun (record, place) =>
      record.events turn.exchange.request.id (pipeline.clock place)
        (faultAt? (pipeline.calls turn) place)) ++
      [.completed turn.exchange.request.id (pipeline.clock pipeline.stages.length)]
  names : (pipeline.run turn).1.records.map (·.name) = pipeline.stages.map (·.name)
  told : ∀ (place : Nat) (record : StageRecord), (pipeline.run turn).1.records[place]? = some record →
    record.Told (pipeline.calls turn) place

/-- The events of every run mirror its report, if its stages give reasons for skipping. -/
theorem events_mirror_report (pipeline : Pipeline σ) (turn : Turn σ)
    (h : ∀ stage ∈ pipeline.stages, stage.Reports) : Mirrored pipeline turn := by
  have hmirrors := mirrors_trace turn h (Nat.le_refl _)
  have hlength : pipeline.observed.stages.length = pipeline.stages.length := by simp [observed]
  have hreport : (pipeline.run turn).1 =
      let p := (pipeline.trace turn pipeline.stages.length).completed pipeline.observed
      ⟨p.records, p.failure, p.events⟩ := by
    rw [← (observed_run_plain pipeline turn).1, run_eq_completed, hlength]
    rfl
  have hcalls : pipeline.calls turn = (pipeline.trace turn pipeline.stages.length).turn.shared.2 :=
    calls_eq_callsBefore pipeline turn
  have hlast : Event.completed (pipeline.trace turn pipeline.stages.length).requestId
      (pipeline.clock (pipeline.trace turn pipeline.stages.length).records.length) =
        .completed turn.exchange.request.id (pipeline.clock pipeline.stages.length) := by
    rw [hmirrors.requestId, hmirrors.reached]
  refine ⟨?_, ?_, ?_⟩
  · rw [hcalls, hreport]
    exact congrArg₂ (· ++ [·]) hmirrors.events hlast
  · have hnames := congrArg (List.map Prod.fst)
      (records_reach pipeline turn pipeline.stages.length)
    rw [← (run_report pipeline turn).1, List.take_length, List.map_map, List.map_map] at hnames
    exact hnames
  · rw [hcalls, hreport]
    exact hmirrors.told

/-! ## A run in trouble -/

def reporting (name : String) (kind : StageKind) (result : Except Failure StageOutput) : Stage Unit :=
  ⟨name, kind, fun turn => (result, turn)⟩

/-- Stages of which one has nothing to do, one fails, one comes too late, and one cleans up. -/
def troubled : Pipeline Unit where
  stages := [reporting "guard" .custom (.ok (.skip "nothing to guard")),
    reporting "store" .custom (.error (.server "disk full")), reporting "tell" .custom (.ok .ok),
    reporting "tidy" .cleanup (.ok .ok)]
  handler _ turn := turn
  sink := .silent
  clock _ := .zero

def troubling : Turn Unit :=
  ⟨.opening (.arriving "r1" "GET" ⟨none, none, "/", none⟩ [] []), (), []⟩

theorem events_mirror_report_troubled :
    (∀ stage ∈ troubled.stages, stage.Reports) ∧ Mirrored troubled troubling ∧
      (troubled.run troubling).1.events.map (fun event => (event.kind, event.stage, event.detail)) =
        [(.stageStarted, some "guard", none), (.stageSkipped, some "guard", some "nothing to guard"),
          (.stageStarted, some "store", none),
          (.stageFailed, some "store", some "Server error: disk full"),
          (.stageSkipped, some "tell", some "pipeline already failed"),
          (.stageStarted, some "tidy", none), (.stageCompleted, some "tidy", none),
          (.pipelineCompleted, none, none)] := by
  have hreports : ∀ stage ∈ troubled.stages, stage.Reports := by
    simp only [troubled, List.forall_mem_cons]
    refine ⟨?_, ?_, ?_, ?_, List.forall_mem_nil _⟩
    · rintro _ _ _ ⟨⟩
      exact .inr ⟨_, rfl⟩
    · rintro _ _ _ ⟨⟩
    · rintro _ _ _ ⟨⟩
      exact .inl rfl
    · rintro _ _ _ ⟨⟩
      exact .inl rfl
  exact ⟨hreports, events_mirror_report troubled troubling hreports, rfl⟩

end SiteServer.Pipeline
