import Mgxx.Http.Handlers

/-!
The event thread.  Mongoose calls the handler of one event at a time, for open
connections only, and delivers a posted wake-up at most once, in no fixed order.
-/

namespace Mgxx.Http

open Mgxx.Library

inductive LoopEvent
  | accept (c : ℕ)
  | poll (c : ℕ)
  /-- `calls` is what a synchronous handler of the message does with its response. -/
  | httpMessage (c : ℕ) (msg : HttpMessage) (calls : List ResponseCall)
  | wakeup (c id : ℕ)
  | write (c : ℕ)
  | close (c : ℕ)
  /-- Mongoose itself changes a send buffer, above all by sending from it. -/
  | mongoose (c : ℕ) (send : Bytes)

def LoopEvent.conn : LoopEvent → ℕ
  | accept c | poll c | httpMessage c _ _ | wakeup c _ | write c | close c | mongoose c _ => c

namespace World

/-- `promote_context` for a new connection. -/
def accept (w : World) (c : ℕ) : World :=
  { w with connections := modifyAt w.connections c fun conn =>
      { conn with status := .live, fnData := some {} } }

def take (w : World) (c id : ℕ) : World := { w with wakeups := w.wakeups.erase (c, id) }

/-- Mongoose forgets a connection once its handler has returned. -/
def forget (w : World) (c : ℕ) : World :=
  { w with connections := modifyAt w.connections c fun conn => { conn with status := .closed } }

/-- Whatever makes the buffer shorter has sent from it. -/
def setSend (w : World) (c : ℕ) (send : Bytes) : World :=
  { w with connections := modifyAt w.connections c fun conn =>
      { conn with send := send, sent := conn.sent || decide (send.length < conn.send.length) } }

/-- The write event that is due is raised. -/
def clearSent (w : World) (c : ℕ) : World :=
  { w with connections := modifyAt w.connections c fun conn => { conn with sent := false } }

/-- `endpoint::handle`, for the events that matter here. -/
def handle (mg : Mongoose) (w : World) : LoopEvent → World
  | .accept c => w.accept c
  | .poll c => w.handlePoll mg c
  | .httpMessage c msg calls => w.handleHttpMessage mg c msg calls
  | .wakeup c id => (w.take c id).handleWakeup mg c id
  | .write c => (w.clearSent c).handleWrite mg c
  | .close c => (w.handleClose c).forget c
  | .mongoose c send => w.setSend c send

def Raises (w : World) : LoopEvent → Prop
  | .accept c => (w.connections c).status = .unused
  | .wakeup c id => (w.connections c).status = .live ∧ (c, id) ∈ w.wakeups
  | .write c => (w.connections c).status = .live ∧ (w.connections c).sent = true
  | .poll c | .httpMessage c _ _ | .close c | .mongoose c _ => (w.connections c).status = .live

instance (w : World) (e : LoopEvent) : Decidable (w.Raises e) := by
  cases e <;> unfold Raises <;> infer_instance

def loopStep (mg : Mongoose) (w : World) (e : LoopEvent) : Option World :=
  if w.Raises e then some (w.handle mg e) else none

section ClearSent

variable (w : World) (c d : ℕ)

@[simp] theorem toEndpoint_clearSent : (w.clearSent c).toEndpoint = w.toEndpoint := rfl
@[simp] theorem responses_clearSent : (w.clearSent c).responses = w.responses := rfl
@[simp] theorem wakeups_clearSent : (w.clearSent c).wakeups = w.wakeups := rfl

theorem connections_clearSent : (w.clearSent c).connections =
    modifyAt w.connections c fun conn => { conn with sent := false } := rfl

/-- What else there is to a connection stays. -/
theorem field_clearSent {β : Type} {field : Connection → β}
    (h : ∀ conn : Connection, field { conn with sent := false } = field conn) :
    field ((w.clearSent c).connections d) = field (w.connections d) :=
  field_modifyAt field h w.connections c d

@[simp] theorem status_clearSent :
    ((w.clearSent c).connections d).status = (w.connections d).status :=
  field_clearSent w c d fun _ => rfl

@[simp] theorem log_clearSent : ((w.clearSent c).connections d).log = (w.connections d).log :=
  field_clearSent w c d fun _ => rfl

@[simp] theorem fnData_clearSent :
    ((w.clearSent c).connections d).fnData = (w.connections d).fnData :=
  field_clearSent w c d fun _ => rfl

theorem blocked_clearSent (mg : Mongoose) : (w.clearSent c).blocked mg c = w.blocked mg c := by
  simp only [blocked, pumpStream, clearSent, modifyAt_self, Connection.pumpStream_sent]

theorem streams_handle_write (mg : Mongoose) (s : StreamRef) :
    (w.handle mg (.write c)).streams s =
      if s ∈ w.tableStreams then (w.streams s).release (w.blocked mg c) else w.streams s := by
  rw [handle, streams_handleWrite, blocked_clearSent]
  rfl

/-- What a write event leaves of its connection. -/
theorem connections_handle_write (mg : Mongoose) : (w.handle mg (.write c)).connections =
    modifyAt w.connections c fun conn => { conn.pumpStream mg with sent := false } := by
  rw [handle, connections_handleWrite]
  funext d
  by_cases h : d = c
  · subst h
    simp only [modifyAt_self, clearSent, Connection.pumpStream_sent]
  · rw [modifyAt_of_ne h, modifyAt_of_ne h, connections_clearSent, modifyAt_of_ne h]

end ClearSent

theorem status_forget (w : World) (c d : ℕ) : ((w.forget c).connections d).status =
    if d = c then .closed else (w.connections d).status := by
  simp only [forget, modifyAt_apply]
  split_ifs <;> rfl

/-- A connection that is open after an event was open before it, or is new. -/
theorem status_handle {mg : Mongoose} {w : World} {e : LoopEvent} {d : ℕ}
    (h : ((w.handle mg e).connections d).status = .live) :
    (w.connections d).status = .live ∨ e = .accept d := by
  cases e with
  | accept c =>
      by_cases hd : d = c
      · exact Or.inr (hd ▸ rfl)
      · exact Or.inl (by simpa [handle, accept, modifyAt_of_ne hd] using h)
  | poll c => exact Or.inl (by simpa [handle] using h)
  | httpMessage c msg calls => exact Or.inl (by simpa [handle] using h)
  | wakeup c id => exact Or.inl (by simpa [handle, take] using h)
  | write c => exact Or.inl (by simpa [handle] using h)
  | close c =>
      rw [handle, status_forget] at h
      split_ifs at h
      · exact Or.inl (by simpa using h)
  | mongoose c send =>
      refine Or.inl ?_
      by_cases hd : d = c <;> simpa [handle, setSend, hd, modifyAt_of_ne] using h

/-- A connection that has been accepted is never unused again. -/
theorem status_handle_ne_unused {mg : Mongoose} {w : World} {e : LoopEvent} {d : ℕ}
    (h : (w.connections d).status ≠ .unused) :
    ((w.handle mg e).connections d).status ≠ .unused := by
  cases e with
  | accept c => by_cases hd : d = c <;> simp [handle, accept, hd, modifyAt_of_ne, h]
  | poll c => simpa [handle] using h
  | httpMessage c msg calls => simpa [handle] using h
  | wakeup c id => simpa [handle, take] using h
  | write c => simpa [handle] using h
  | close c =>
      rw [handle, status_forget]
      split_ifs
      · simp
      · simpa using h
  | mongoose c send => by_cases hd : d = c <;> simpa [handle, setSend, hd, modifyAt_of_ne] using h

theorem connections_handleHttpMessage_of_ne {mg : Mongoose} {w : World} {c d : ℕ} (h : d ≠ c)
    (msg : HttpMessage) (calls : List ResponseCall) :
    (w.handleHttpMessage mg c msg calls).connections d = w.connections d := by
  rcases handleHttpMessage_cases mg w c msg calls with hadd | ⟨conns, hconns, hacts⟩
  · rw [hadd]
    rfl
  · rw [hconns]
    exact hacts.others d h

/-- An event writes on its own connection only. -/
theorem connections_handle_of_ne (mg : Mongoose) (w : World) {e : LoopEvent} {d : ℕ}
    (h : d ≠ e.conn) : (w.handle mg e).connections d = w.connections d := by
  cases e with
  | accept c =>
      have h : d ≠ c := h
      simp [handle, accept, modifyAt_of_ne h]
  | poll c => exact connections_handlePoll_of_ne mg w c d h
  | httpMessage c msg calls => exact connections_handleHttpMessage_of_ne h msg calls
  | wakeup c id => exact connections_handleWakeup_of_ne (w := w.take c id) h
  | write c =>
      rw [connections_handle_write]
      exact modifyAt_of_ne h ..
  | close c =>
      have h : d ≠ c := h
      simp [handle, forget, modifyAt_of_ne h, connections_handleClose_of_ne w c d h]
  | mongoose c send =>
      have h : d ≠ c := h
      simp [handle, setSend, modifyAt_of_ne h]

/-- Nothing is written on a connection that an event leaves closed. -/
theorem log_handle_of_not_live {mg : Mongoose} {w : World} {e : LoopEvent} {d : ℕ}
    (hraises : w.Raises e) (h : ((w.handle mg e).connections d).status ≠ .live) :
    ((w.handle mg e).connections d).log = (w.connections d).log := by
  by_cases hd : d = e.conn
  · subst hd
    cases e with
    | accept c => simp [handle, accept, LoopEvent.conn]
    | poll c => exact absurd hraises (by simpa [handle, LoopEvent.conn, Raises] using h)
    | httpMessage c msg calls =>
        exact absurd hraises (by simpa [handle, LoopEvent.conn, Raises] using h)
    | wakeup c id =>
        exact absurd hraises.1 (by simpa [handle, take, LoopEvent.conn] using h)
    | write c => exact absurd hraises.1 (by simpa [handle, LoopEvent.conn] using h)
    | close c => simp [handle, forget, LoopEvent.conn]
    | mongoose c send => simp [handle, setSend, LoopEvent.conn]
  · rw [connections_handle_of_ne mg w hd]

theorem mConn_handle {mg : Mongoose} {w : World} {r : ℕ} (hr : r < w.mRequestCounter)
    (e : LoopEvent) : ((w.handle mg e).responses r).mConn = (w.responses r).mConn := by
  cases e with
  | accept c => rfl
  | poll c => simp [handle]
  | httpMessage c msg calls => exact congrArg _ (responses_handleHttpMessage hr msg calls)
  | wakeup c id => simp [handle, take]
  | write c => simp [handle]
  | close c => exact mConn_handleClose w c r
  | mongoose c send => rfl

/-- Only an HTTP message makes a request. -/
theorem mRequestCounter_handle (mg : Mongoose) (w : World) (e : LoopEvent) :
    (w.handle mg e).mRequestCounter = w.mRequestCounter ∨
      ∃ c msg calls, e = .httpMessage c msg calls ∧ w.handle mg e = w.addResponse c := by
  cases e with
  | accept c => exact Or.inl rfl
  | poll c => exact Or.inl (mRequestCounter_handlePoll ..)
  | httpMessage c msg calls =>
      rcases handleHttpMessage_cases mg w c msg calls with hadd | ⟨conns, hconns, -⟩
      · exact Or.inr ⟨c, msg, calls, rfl, hadd⟩
      · exact Or.inl (by rw [handle, hconns])
  | wakeup c id => exact Or.inl mRequestCounter_handleWakeup
  | write c => exact Or.inl (by rw [handle, toEndpoint_handleWrite, toEndpoint_clearSent])
  | close c => exact Or.inl (mRequestCounter_handleClose ..)
  | mongoose c send => exact Or.inl rfl

/-- What an event can do to a stream. -/
theorem streams_handle (mg : Mongoose) (w : World) (e : LoopEvent) (s : StreamRef) :
    (w.handle mg e).streams s = w.streams s ∨
      (w.handle mg e).streams s = (w.streams s).serve ∨
      e = .write e.conn ∧ s ∈ w.tableStreams ∧
        (w.handle mg e).streams s = (w.streams s).release (w.blocked mg e.conn) ∨
      e = .close e.conn ∧ s ∈ w.streamsOf e.conn ∧
        (w.handle mg e).streams s = (w.streams s).markFailed := by
  cases e with
  | accept c => exact Or.inl rfl
  | poll c => exact Or.inl (by rw [handle, streams_handlePoll])
  | httpMessage c msg calls =>
      refine Or.inl ?_
      rcases handleHttpMessage_cases mg w c msg calls with hadd | ⟨conns, hconns, -⟩
      · rw [handle, hadd]
        rfl
      · rw [handle, hconns]
  | wakeup c id =>
      rcases streams_handleWakeup mg (w.take c id) c id s with hsame | hserve
      · exact Or.inl hsame
      · exact Or.inr (Or.inl hserve)
  | write c =>
      have hstream := streams_handle_write w c mg s
      split_ifs at hstream with hs
      · exact Or.inr (Or.inr (Or.inl ⟨rfl, hs, hstream⟩))
      · exact Or.inl hstream
  | close c =>
      have hstream := streams_handleClose w c s
      split_ifs at hstream with hs
      · exact Or.inr (Or.inr (Or.inr ⟨rfl, hs, hstream⟩))
      · exact Or.inl hstream
  | mongoose c send => exact Or.inl rfl

theorem made_handle (mg : Mongoose) (w : World) (e : LoopEvent) :
    (w.handle mg e).made = w.made := by
  cases e with
  | httpMessage c msg calls =>
      rcases handleHttpMessage_cases mg w c msg calls with hadd | ⟨conns, hconns, -⟩
      · rw [handle, hadd]
        rfl
      · rw [handle, hconns]
  | close c => exact made_handleClose w c
  | accept c => rfl
  | mongoose c send => rfl
  | poll c => exact made_handlePoll mg w c
  | wakeup c id => exact made_handleWakeup mg (w.take c id) c id
  | write c => exact made_handleWrite mg (w.clearSent c) c

theorem loopStep_eq_some {mg : Mongoose} {w w' : World} {e : LoopEvent} :
    w.loopStep mg e = some w' ↔ w.Raises e ∧ w.handle mg e = w' := by
  simp [loopStep]

end World

end Mgxx.Http
