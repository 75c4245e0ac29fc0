import Mathlib.Data.List.Induction
import SiteServer.App

/-! # The life of an application.

An application is started and stopped, gets more stages, and is sent requests, in any order. What it does
then can be told from the history alone: its stages are those that were inserted, and its listener is the
one of the last start that found none running, with the stages inserted before that start. -/

namespace SiteServer.App

open Message (Request)
open Pipeline (Report Stage Turn)

variable {σ : Type}

/-! ## Histories -/

/-- What can be done with an application. A start gives the address that the listener gets. A request is
sent to the listener, or handled without one. -/
inductive Operation (σ : Type) where
  | insert (index : Nat) (stage : Stage σ)
  | start (address : SocketAddress)
  | stop
  | send (request : Request)
  | handle (request : Request)

/-- What came of an operation. -/
inductive Answer (σ : Type) where
  | done
  | started (result : Except Failure SocketAddress)
  | served (result : Option (Served σ))
  | handled (report : Report) (turn : Turn σ)

/-- An application, with what all requests share. -/
structure Session (σ : Type) where
  app : App σ
  shared : σ

def Session.perform (session : Session σ) : Operation σ → Answer σ × Session σ
  | .insert index stage => (.done, { session with app := session.app.insertStage index stage })
  | .start address =>
    let (result, app) := session.app.start fun _ => .ok address
    (.started result, { session with app })
  | .stop => (.done, { session with app := session.app.stop })
  | .send request =>
    let served := session.app.serve? session.shared request
    (.served served, { session with shared := served.elim session.shared (·.shared) })
  | .handle request =>
    let (report, turn) := session.app.handle session.shared request
    (.handled report turn, { session with shared := turn.shared })

def Session.after (session : Session σ) (history : List (Operation σ)) : Session σ :=
  history.foldl (fun current operation => (current.perform operation).2) session

/-! ## What a history says -/

/-- The stages behind an operation: one is put in at its index, or at the end if that is past it. -/
def stagesBehind (stages : List (Stage σ)) : Operation σ → List (Stage σ)
  | .insert index stage => stages.insertIdx (min index stages.length) stage
  | .start _ => stages
  | .stop => stages
  | .send _ => stages
  | .handle _ => stages

/-- The pipeline that an application has behind a history: only insertions count. -/
def pipelineBehind (app : App σ) (history : List (Operation σ)) : Pipeline σ :=
  ⟨history.foldl stagesBehind app.stages, app.handler, app.sink, app.clock⟩

/-- No listener runs: every start is followed by a stop. -/
def Shut (history : List (Operation σ)) : Prop :=
  ∀ address between, .start address :: between <:+ history → .stop ∈ between

/-- A listener runs: nothing ran before its start, and there was no stop behind it. -/
structure Opened (before : List (Operation σ)) (address : SocketAddress)
    (history : List (Operation σ)) : Prop where
  shut : Shut before
  running : ∃ between, history = before ++ .start address :: between ∧ .stop ∉ between

theorem shut_nil : Shut ([] : List (Operation σ)) := by
  intro address between hsuffix
  cases List.suffix_nil.mp hsuffix

theorem shut_concat_stop (history : List (Operation σ)) : Shut (history ++ [.stop]) := by
  intro address between hsuffix
  obtain hnil | ⟨front, hfront, _⟩ := List.suffix_concat_iff.mp hsuffix
  · cases hnil
  · cases front with
    | nil => cases hfront
    | cons operation front =>
        rw [(List.cons.inj hfront).2]
        exact List.mem_append_right front List.mem_cons_self

theorem Shut.concat {history : List (Operation σ)} {operation : Operation σ} (h : Shut history)
    (hstart : ∀ address, operation ≠ .start address) : Shut (history ++ [operation]) := by
  intro address between hsuffix
  obtain hnil | ⟨front, hfront, hbehind⟩ := List.suffix_concat_iff.mp hsuffix
  · cases hnil
  · cases front with
    | nil => exact absurd (List.cons.inj hfront).1.symm (hstart address)
    | cons _ front =>
        obtain ⟨rfl, rfl⟩ := List.cons.inj hfront
        exact List.mem_append_left [operation] (h address front hbehind)

theorem Shut.of_concat {history : List (Operation σ)} {operation : Operation σ}
    (h : Shut (history ++ [operation])) (hstop : operation ≠ .stop) :
    Shut history ∧ ∀ address, operation ≠ .start address := by
  constructor
  · intro address between hsuffix
    have hmem := h address (between ++ [operation])
      (List.suffix_concat_iff.mpr (.inr ⟨_, rfl, hsuffix⟩))
    rcases List.mem_append.mp hmem with hmem | hmem
    · exact hmem
    · exact absurd (List.mem_singleton.mp hmem).symm hstop
  · rintro address rfl
    have hmem := h address [] (List.suffix_append history _)
    cases hmem

theorem Opened.concat {before history : List (Operation σ)} {address : SocketAddress}
    {operation : Operation σ} (h : Opened before address history) (hstop : operation ≠ .stop) :
    Opened before address (history ++ [operation]) := by
  obtain ⟨between, rfl, hbetween⟩ := h.running
  refine ⟨h.shut, between ++ [operation], by simp, ?_⟩
  rw [List.mem_append, List.mem_singleton]
  rintro (hmem | heq)
  · exact hbetween hmem
  · exact hstop heq.symm

/-- Behind every history, either no listener runs or that of one start does. -/
theorem shut_or_opened (history : List (Operation σ)) :
    Shut history ∨ ∃ before address, Opened before address history := by
  induction history using List.reverseRecOn with
  | nil => exact .inl shut_nil
  | append_singleton history operation ih =>
      by_cases hstop : operation = .stop
      · subst hstop
        exact .inl (shut_concat_stop history)
      · rcases ih with hshut | ⟨before, address, hopened⟩
        · by_cases hstart : ∃ address, operation = .start address
          · obtain ⟨address, rfl⟩ := hstart
            exact .inr ⟨history, address, hshut, [], rfl, List.not_mem_nil⟩
          · exact .inl (hshut.concat fun address heq => hstart ⟨address, heq⟩)
        · exact .inr ⟨before, address, hopened.concat hstop⟩

/-! ## One operation -/

/-- A stage inserted at an index stands there, or at the end if the index is past it. -/
theorem insertIdx_min {α : Type} (list : List α) (index : Nat) (a : α) :
    list.insertIdx (min index list.length) a = list.take index ++ a :: list.drop index := by
  induction list generalizing index with
  | nil => simp
  | cons b list ih =>
      cases index with
      | zero => rfl
      | succ index =>
          rw [List.length_cons, Nat.succ_min_succ, List.insertIdx_succ_cons, ih]
          rfl

/-- An operation changes nothing of an application but its stages and its listener. -/
theorem perform_app (session : Session σ) (operation : Operation σ) :
    (session.perform operation).2.app = { session.app with
      stages := stagesBehind session.app.stages operation
      listener := (session.perform operation).2.app.listener } := by
  cases operation with
  | insert index stage =>
      simp only [Session.perform, insertStage, stagesBehind, insertIdx_min]
  | start address =>
      simp only [Session.perform, start, stagesBehind]
      split <;> rfl
  | stop => rfl
  | send request => rfl
  | handle request => rfl

section Listener

variable {session : Session σ} {operation : Operation σ} {listener : Listener σ}

theorem perform_start_of_idle (h : session.app.listener = none) (address : SocketAddress) :
    session.perform (.start address) = (.started (.ok address),
      { session with app := { session.app with listener := some ⟨address, session.app.pipeline⟩ } }) := by
  simp [Session.perform, start, isListening, h]

theorem perform_start_of_running (h : session.app.listener = some listener)
    (address : SocketAddress) :
    session.perform (.start address) = (.started (.error (.server "already started")), session) := by
  simp [Session.perform, start, isListening, h]

theorem perform_stop_of_idle (h : session.app.listener = none) :
    session.perform .stop = (.done, session) := by
  obtain ⟨app, shared⟩ := session
  obtain ⟨stages, handler, sink, clock, listen, maxBody, running⟩ := app
  cases h
  rfl

/-- A listener does not start by itself. -/
theorem idle_perform (h : session.app.listener = none)
    (hstart : ∀ address, operation ≠ .start address) :
    (session.perform operation).2.app.listener = none := by
  cases operation with
  | insert index stage => exact h
  | start address => exact absurd rfl (hstart address)
  | stop => rfl
  | send request => exact h
  | handle request => exact h

/-- A listener stays as it is until it is stopped: neither a start nor an insertion changes it. -/
theorem running_perform (h : session.app.listener = some listener) (hstop : operation ≠ .stop) :
    (session.perform operation).2.app.listener = some listener := by
  cases operation with
  | insert index stage => exact h
  | start address =>
      rw [perform_start_of_running h]
      exact h
  | stop => exact absurd rfl hstop
  | send request => exact h
  | handle request => exact h

end Listener

/-! ## Histories of operations -/

theorem after_concat (session : Session σ) (history : List (Operation σ))
    (operation : Operation σ) :
    session.after (history ++ [operation]) = ((session.after history).perform operation).2 := by
  simp [Session.after]

theorem after_append (session : Session σ) (first second : List (Operation σ)) :
    session.after (first ++ second) = (session.after first).after second := by
  simp [Session.after]

/-- A history changes nothing of an application but its stages and its listener. -/
theorem after_app (session : Session σ) (history : List (Operation σ)) :
    (session.after history).app = { session.app with
      stages := history.foldl stagesBehind session.app.stages
      listener := (session.after history).app.listener } := by
  induction history using List.reverseRecOn with
  | nil => rfl
  | append_singleton history operation ih =>
      rw [after_concat, perform_app, ih, List.foldl_append]
      rfl

theorem pipeline_after (session : Session σ) (history : List (Operation σ)) :
    (session.after history).app.pipeline = pipelineBehind session.app history := by
  rw [after_app]
  rfl

theorem idle_after {session : Session σ} (h : session.app.listener = none)
    {history : List (Operation σ)} (hshut : Shut history) :
    (session.after history).app.listener = none := by
  induction history using List.reverseRecOn with
  | nil => exact h
  | append_singleton history operation ih =>
      rw [after_concat]
      by_cases hstop : operation = .stop
      · subst hstop
        rfl
      · obtain ⟨hbefore, hstart⟩ := hshut.of_concat hstop
        exact idle_perform (ih hbefore) hstart

theorem running_after {session : Session σ} {listener : Listener σ}
    (h : session.app.listener = some listener) {history : List (Operation σ)}
    (hstop : .stop ∉ history) : (session.after history).app.listener = some listener := by
  induction history using List.reverseRecOn with
  | nil => exact h
  | append_singleton history operation ih =>
      rw [List.mem_append, List.mem_singleton, not_or] at hstop
      rw [after_concat]
      exact running_perform (ih hstop.1) (Ne.symm hstop.2)

/-- The listener that runs was started with the stages inserted before its start. -/
theorem Opened.listener_after {session : Session σ} (h : session.app.listener = none)
    {before history : List (Operation σ)} {address : SocketAddress}
    (hopened : Opened before address history) :
    (session.after history).app.listener = some ⟨address, pipelineBehind session.app before⟩ := by
  obtain ⟨between, rfl, hbetween⟩ := hopened.running
  have hidle := idle_after h hopened.shut
  have hstarted := perform_start_of_idle hidle address
  rw [List.append_cons, after_append, after_concat, hstarted, ← pipeline_after]
  exact running_after rfl hbetween

section Fresh

variable {session : Session σ} {history : List (Operation σ)}

theorem listener_after_eq_none_iff (h : session.app.listener = none) :
    (session.after history).app.listener = none ↔ Shut history := by
  refine ⟨?_, idle_after h⟩
  intro hnone
  rcases shut_or_opened history with hshut | ⟨before, address, hopened⟩
  · exact hshut
  · rw [hopened.listener_after h] at hnone
    cases hnone

theorem localAddress?_after_eq_some_iff (h : session.app.listener = none) {address : SocketAddress} :
    (session.after history).app.localAddress? = some address ↔
      ∃ before, Opened before address history := by
  unfold localAddress?
  constructor
  · intro hsome
    rcases shut_or_opened history with hshut | ⟨before, other, hopened⟩
    · rw [idle_after h hshut] at hsome
      cases hsome
    · rw [hopened.listener_after h] at hsome
      cases hsome
      exact ⟨before, hopened⟩
  · rintro ⟨before, hopened⟩
    rw [hopened.listener_after h]
    rfl

end Fresh

/-! ## The law -/

/-- What an application does behind a history, told from the history. -/
structure Lifecycle (session : Session σ) (history : List (Operation σ)) (current : Session σ) :
    Prop where
  /-- The stages are those that were inserted, in their places. -/
  stages : current.app.stages = history.foldl stagesBehind session.app.stages
  /-- An address is there from a start that succeeded to the next stop. -/
  address : ∀ address, current.app.localAddress? = some address ↔
    ∃ before, Opened before address history
  /-- A listener runs unless every start was followed by a stop. -/
  listening : current.app.isListening = true ↔ ¬ Shut history
  /-- A start with no listener running succeeds. -/
  start_idle : Shut history → ∀ address,
    (current.perform (.start address)).1 = .started (.ok address)
  /-- A start with a listener running fails and changes nothing. -/
  start_again : ¬ Shut history → ∀ address,
    current.perform (.start address) = (.started (.error (.server "already started")), current)
  /-- A stop with no listener running succeeds and changes nothing. -/
  stop_idle : Shut history → current.perform .stop = (.done, current)
  /-- A body within the limit runs through the stages of the start, whatever was inserted since. -/
  send_within : ∀ before address, Opened before address history → ∀ request : Request,
    request.rawBody.length ≤ session.app.maxBody.toNat →
      let turn := (dispatch (pipelineBehind session.app before) current.shared request).2
      current.perform (.send request) =
        (.served (some ⟨turn.exchange.response, turn.shared, turn.log⟩), ⟨current.app, turn.shared⟩)
  /-- A larger body is refused: no stage has touched what requests share, or the log. -/
  send_beyond : ∀ before address, Opened before address history → ∀ request : Request,
    session.app.maxBody.toNat < request.rawBody.length →
      tooLarge.status = 413 ∧ current.perform (.send request) =
        (.served (some ⟨tooLarge, current.shared, [.plain .warn "Could not read request body"]⟩), current)
  /-- With no listener running, a request that is sent gets no answer. -/
  send_idle : Shut history → ∀ request,
    current.perform (.send request) = (.served none, current)
  /-- A request that is handled runs through the stages as they are now. -/
  handle_current : ∀ request,
    let outcome := dispatch (pipelineBehind session.app history) current.shared request
    current.perform (.handle request) =
      (.handled outcome.1 outcome.2, ⟨current.app, outcome.2.shared⟩)
  /-- An inserted stage is at its index, or at the end if that is past it, and the others are in order. -/
  insert_keeps : ∀ index stage,
    let place := min index current.app.stages.length
    let next := (current.perform (.insert index stage)).2.app.stages
    next[place]? = some stage ∧ next.eraseIdx place = current.app.stages

theorem stages_insert (app : App σ) (index : Nat) (stage : Stage σ) :
    (app.insertStage index stage).stages[min index app.stages.length]? = some stage ∧
      (app.insertStage index stage).stages.eraseIdx (min index app.stages.length) = app.stages := by
  rw [insertStage, ← insertIdx_min]
  refine ⟨?_, List.eraseIdx_insertIdx_self stage⟩
  rw [List.getElem?_insertIdx_self, if_pos (Nat.min_le_right index app.stages.length)]

theorem serve?_of_running {app : App σ} {listener : Listener σ} (h : app.listener = some listener)
    (shared : σ) (request : Request) :
    app.serve? shared request = some (if app.maxBody.toNat < request.rawBody.length then
        ⟨tooLarge, shared, [.plain .warn "Could not read request body"]⟩
      else
        let turn := (dispatch listener.pipeline shared request).2
        ⟨turn.exchange.response, turn.shared, turn.log⟩) := by
  rw [serve?, h]
  rfl

/-- An application that starts without a listener obeys the law behind any history. -/
theorem history_obeys_lifecycle {session : Session σ} (h : session.app.listener = none)
    (history : List (Operation σ)) : Lifecycle session history (session.after history) := by
  have hidle := @listener_after_eq_none_iff σ session history h
  have hrunning {before : List (Operation σ)} {address : SocketAddress}
      (hopened : Opened before address history) := hopened.listener_after h
  have happ := after_app session history
  have hmaxBody : (session.after history).app.maxBody = session.app.maxBody := by rw [happ]
  refine
    { stages := by rw [happ]
      address := fun address => localAddress?_after_eq_some_iff h
      listening := ?listening
      start_idle := ?start_idle
      start_again := ?start_again
      stop_idle := fun hshut => perform_stop_of_idle (hidle.mpr hshut)
      send_within := ?send_within
      send_beyond := ?send_beyond
      send_idle := ?send_idle
      handle_current := ?handle_current
      insert_keeps := fun index stage => stages_insert (session.after history).app index stage }
  case listening => rw [← hidle, isListening, Option.isSome_iff_ne_none]
  case start_idle =>
    intro hshut address
    rw [perform_start_of_idle (hidle.mpr hshut)]
  case start_again =>
    intro hshut address
    obtain ⟨before, other, hopened⟩ := (shut_or_opened history).resolve_left hshut
    exact perform_start_of_running (hrunning hopened) address
  case send_within =>
    intro before address hopened request hwithin
    rw [Session.perform, serve?_of_running (hrunning hopened), hmaxBody,
      if_neg (Nat.not_lt.mpr hwithin)]
    rfl
  case send_beyond =>
    intro before address hopened request hbeyond
    rw [Session.perform, serve?_of_running (hrunning hopened), hmaxBody, if_pos hbeyond]
    exact ⟨rfl, rfl⟩
  case send_idle =>
    intro hshut request
    rw [Session.perform, serve?, hidle.mpr hshut]
    rfl
  case handle_current =>
    intro request
    rw [Session.perform, App.handle, pipeline_after]

def counting (name : String) (change : Nat → Nat) : Stage Nat :=
  ⟨name, .custom, fun turn => (.ok .ok, { turn with shared := change turn.shared })⟩

/-- An application with one stage, which takes bodies of at most two bytes. -/
def countingSession : Session Nat where
  app :=
    { stages := [counting "add" (· + 1)], handler := fun _ turn => turn, sink := .silent,
      clock := fun _ => .zero, listen := {}, maxBody := 2, listener := none }
  shared := 0

def posting (body : Bytes) : Request :=
  .arriving "r" "POST" ⟨none, none, "/", none⟩ [] body

/-- Two starts in a row with an insertion between them, a request both ways, and a second life of the
listener that gets a body which is too large. -/
def restartedHistory : List (Operation Nat) :=
  [.start ⟨"127.0.0.1", 80⟩, .insert 9 (counting "double" (· * 2)), .start ⟨"127.0.0.1", 81⟩,
    .send (posting [1, 2]), .handle (posting [1, 2, 3]), .stop, .stop, .start ⟨"127.0.0.1", 82⟩,
    .send (posting [1, 2, 3])]

theorem history_obeys_lifecycle_restarted :
    Lifecycle countingSession restartedHistory (countingSession.after restartedHistory) ∧
      (countingSession.after restartedHistory).shared = 4 ∧
      ∃ before, Opened before ⟨"127.0.0.1", 82⟩ restartedHistory := by
  have hlaw := @history_obeys_lifecycle Nat countingSession rfl restartedHistory
  have haddress : (countingSession.after restartedHistory).app.localAddress? =
      some ⟨"127.0.0.1", 82⟩ := rfl
  exact ⟨hlaw, rfl, (hlaw.address _).mp haddress⟩

end SiteServer.App
