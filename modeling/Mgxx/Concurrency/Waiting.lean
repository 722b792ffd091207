import Mathlib.Data.List.Dedup
import Mgxx.Concurrency.WorkerOwnership

/-!
`async_stream::wait` as it is written: a loop that loads the state and sleeps on
the value it has loaded.  The `mark_*` functions store a state and wake up those
that sleep.  The event thread makes these calls one at a time, and the workers
run in between.
-/

namespace Mgxx.Http

open Mgxx.Library

inductive Notify | one | all
  deriving DecidableEq

/-- A call of the event thread that wakes up those who sleep on a stream. -/
structure Notice where
  stream : StreamRef
  kind : Notify
  deriving DecidableEq

inductive WaitPc
  /-- It is not in `wait()`. -/
  | away
  /-- It has loaded `current`, and has yet to look at it. -/
  | loaded (s : StreamRef) (current : AsyncStream.State)
  /-- It sleeps in `m_state.wait(current)`. -/
  | asleep (s : StreamRef) (current : AsyncStream.State)
  /-- It has been woken up, and `m_state.wait(current)` compares once more. -/
  | awake (s : StreamRef) (current : AsyncStream.State)
  /-- `m_state.wait` has returned. -/
  | changed (s : StreamRef)
  deriving DecidableEq

namespace WaitPc

def stream : WaitPc → Option StreamRef
  | away => none
  | loaded s _ | asleep s _ | awake s _ | changed s => some s

/-- The stream of a call that is about to return true. -/
def granted : WaitPc → Option StreamRef
  | loaded s .empty => some s
  | _ => none

def wake (s : StreamRef) : WaitPc → WaitPc
  | asleep s' current => if s' = s then awake s' current else asleep s' current
  | pc => pc

@[simp] theorem stream_wake (s : StreamRef) (pc : WaitPc) : (pc.wake s).stream = pc.stream := by
  cases pc with
  | asleep s' current =>
      rw [wake]
      split_ifs <;> rfl
  | away | loaded _ _ | awake _ _ | changed _ => rfl

@[simp] theorem granted_wake (s : StreamRef) (pc : WaitPc) : (pc.wake s).granted = pc.granted := by
  cases pc with
  | asleep s' current =>
      rw [wake]
      split_ifs <;> rfl
  | away | loaded _ _ | awake _ _ | changed _ => rfl

theorem wake_eq_asleep {s s' : StreamRef} {pc : WaitPc} {current : AsyncStream.State} :
    pc.wake s' = .asleep s current ↔ pc = .asleep s current ∧ s' ≠ s := by
  cases pc with
  | asleep s₁ current₁ =>
      rw [wake]
      split_ifs with hs <;> grind
  | away | loaded _ _ | awake _ _ | changed _ => simp [wake]

theorem eq_of_granted {pc : WaitPc} {s : StreamRef} (h : pc.granted = some s) :
    pc = .loaded s .empty := by
  cases pc with
  | loaded s' current => cases current <;> simp_all [granted]
  | away | asleep _ _ | awake _ _ | changed _ => simp [granted] at h

end WaitPc

namespace World

def streamNotices (w : World) : Option StreamRef → List Notice
  | none => []
  | some s =>
      match (w.streams s).mState with
      | .start | .hasData | .close => [⟨s, .one⟩]
      | .flush | .empty | .completed | .failed => []

def emptied (mg : Mongoose) (w : World) (c : ℕ) : List StreamRef :=
  if w.blocked mg c then [] else w.tableStreams.dedup.filter fun s => (w.streams s).mState = .flush

def notices (mg : Mongoose) (w : World) : LoopEvent → List Notice
  | .wakeup c id =>
      match w.mPendingStreams.find c id with
      | some stream => w.streamNotices stream
      | none =>
          match w.mPendingResponses.find c id with
          | none => []
          | some r =>
              if (w.responses r).mState = .streaming then w.streamNotices (w.responses r).mStream
              else []
  | .write c => (w.emptied mg c).map (⟨·, .one⟩)
  | .close c => (w.streamsOf c).map (⟨·, .all⟩)
  | .accept _ | .poll _ | .httpMessage _ _ _ | .mongoose _ _ => []

section Notices

variable {mg : Mongoose} {w : World} {s : StreamRef}

theorem mState_serveStream_of_notices {c id : ℕ} {stream : Option StreamRef}
    (h : ∀ n ∈ w.streamNotices stream, n.stream ≠ s) :
    (w.serveStream mg c id stream).streams s = w.streams s := by
  cases stream with
  | none => rfl
  | some s' =>
      rw [streams_serveStream, modifyAt_apply]
      split_ifs with hs
      · subst hs
        cases hstate : (w.streams s).mState <;>
          simp_all [streamNotices, AsyncStream.serve]
      · rfl

/-- A handler that changes a stream wakes up those who sleep on it. -/
theorem streams_handle_of_notices {e : LoopEvent} (h : ∀ n ∈ w.notices mg e, n.stream ≠ s) :
    (w.handle mg e).streams s = w.streams s := by
  cases e with
  | accept c => rfl
  | poll c => rw [handle, streams_handlePoll]
  | httpMessage c msg calls =>
      rcases handleHttpMessage_cases mg w c msg calls with hadd | ⟨conns, hconns, -⟩
      · rw [handle, hadd]
        rfl
      · rw [handle, hconns]
  | wakeup c id =>
      show ((w.take c id).handleWakeup mg c id).streams s = (w.take c id).streams s
      apply handleWakeup_elim (P := fun w' => w'.streams s = (w.take c id).streams s)
      · intro stream hfind
        have hfind : w.mPendingStreams.find c id = some stream := hfind
        simp only [notices, hfind] at h
        exact mState_serveStream_of_notices h
      · intro r hnone hfind hstate
        have hnone : w.mPendingStreams.find c id = none := hnone
        have hfind : w.mPendingResponses.find c id = some r := hfind
        have hstate : (w.responses r).mState = .streaming := hstate
        simp only [notices, hnone, hfind, hstate, if_pos] at h
        exact mState_serveStream_of_notices h
      · intro r _ _ _
        rw [streams_reply]
      · intro _ _
        rw [streams_write, streams_write]
  | write c =>
      rw [streams_handle_write]
      split_ifs with hs
      · have hkept : ¬((w.streams s).mState = .flush ∧ w.blocked mg c = false) := by
          rintro ⟨hflush, hroom⟩
          refine h ⟨s, .one⟩ ?_ rfl
          simp [notices, emptied, hroom, hflush, hs]
        rw [AsyncStream.release, if_neg hkept]
      · rfl
  | close c =>
      show (w.handleClose c).streams s = w.streams s
      rw [streams_handleClose, if_neg]
      intro hs
      exact h ⟨s, .all⟩ (by simpa [notices] using hs) rfl
  | mongoose c send => rfl

end Notices

end World

/-- The program, with the threads in `wait()` and what the event thread has still
to call in the handler it is in. -/
structure Blocking where
  cfg : Config
  waits : ℕ → WaitPc
  due : List Notice

inductive BlockingEvent
  /-- Anything outside `wait()`. -/
  | base (e : Event)
  /-- Thread `t` calls `wait()` on stream `s`. -/
  | call (t : ℕ) (s : StreamRef)
  /-- Thread `t` goes on in `wait()`. -/
  | resume (t : ℕ)
  /-- The event thread makes its next call; `notify_one()` wakes up thread `woken`. -/
  | notify (woken : Option ℕ)
  /-- Thread `t` wakes up by itself. -/
  | spurious (t : ℕ)

namespace Blocking

def start (cfg : Config) : Blocking := ⟨cfg, fun _ => .away, []⟩

def state (b : Blocking) (s : StreamRef) : AsyncStream.State := (b.cfg.world.streams s).mState

def setWait (b : Blocking) (t : ℕ) (pc : WaitPc) : Blocking :=
  { b with waits := Function.update b.waits t pc }

/-- `m_state.load()`. -/
def load (b : Blocking) (t : ℕ) (s : StreamRef) : Blocking := b.setWait t (.loaded s (b.state s))

/-- `m_state.wait(current)` compares, and sleeps if nothing has changed. -/
def compare (b : Blocking) (t : ℕ) (s : StreamRef) (current : AsyncStream.State) : Blocking :=
  b.setWait t (if b.state s = current then .asleep s current else .changed s)

def grant (b : Blocking) (t : ℕ) (s : StreamRef) : Blocking :=
  { b.setWait t .away with
    cfg := { b.cfg with threads := Function.update b.cfg.threads t (.granted s) } }

def resume (b : Blocking) (t : ℕ) : Option Blocking :=
  match b.waits t with
  | .away | .asleep _ _ => none
  | .loaded s .empty => some (b.grant t s)
  | .loaded _ .failed | .loaded _ .completed => some (b.setWait t .away)
  | .loaded s current => some (b.compare t s current)
  | .awake s current => some (b.compare t s current)
  | .changed s => some (b.load t s)

def notify (b : Blocking) (n : Notice) (woken : Option ℕ) : Option Blocking :=
  match n.kind, woken with
  | .all, none => some { b with waits := fun t => (b.waits t).wake n.stream }
  | .all, some _ => none
  | .one, none => some b
  | .one, some t =>
      match b.waits t with
      | .asleep s current => if s = n.stream then some (b.setWait t (.awake s current)) else none
      | .away | .loaded _ _ | .awake _ _ | .changed _ => none

def Outside (b : Blocking) (e : Event) : Prop := ∀ t, e.thread = some t → b.waits t = .away

instance (b : Blocking) (e : Event) : Decidable (b.Outside e) :=
  match h : e.thread with
  | none => isTrue (by simp [Outside, h])
  | some t => decidable_of_iff (b.waits t = .away) (by simp [Outside, h])

/-- The event thread raises no event before it is through with the handler of the last. -/
def step (mg : Mongoose) (b : Blocking) : BlockingEvent → Option Blocking
  | .base (.loop e) =>
      if b.due = [] then
        (b.cfg.step mg (.loop e)).map fun cfg =>
          { b with cfg := cfg, due := b.cfg.world.notices mg e }
      else none
  | .base (.wait _ _) => none
  | .base e =>
      if b.Outside e then (b.cfg.step mg e).map fun cfg => { b with cfg := cfg } else none
  | .call t s =>
      if b.cfg.threads t = .idle ∧ b.waits t = .away ∧
          some s ∈ (b.cfg.history s.response).returned then
        some (b.load t s)
      else none
  | .resume t => b.resume t
  | .notify woken =>
      match b.due with
      | [] => none
      | n :: due => (b.notify n woken).map fun b' => { b' with due := due }
  | .spurious t =>
      match b.waits t with
      | .asleep s current => some (b.setWait t (.awake s current))
      | .away | .loaded _ _ | .awake _ _ | .changed _ => none

inductive Takes (mg : Mongoose) (b : Blocking) : BlockingEvent → Blocking → Prop
  | loop (e : LoopEvent) (cfg : Config) (hdue : b.due = [])
      (hcfg : b.cfg.step mg (.loop e) = some cfg) :
      Takes mg b (.base (.loop e)) { b with cfg := cfg, due := b.cfg.world.notices mg e }
  | worker (e : Event) (cfg : Config) (hloop : ∀ e', e ≠ .loop e') (hwait : ∀ t s, e ≠ .wait t s)
      (hout : b.Outside e) (hcfg : b.cfg.step mg e = some cfg) :
      Takes mg b (.base e) { b with cfg := cfg }
  | call (t : ℕ) (s : StreamRef) (hidle : b.cfg.threads t = .idle) (hpc : b.waits t = .away)
      (hreturned : some s ∈ (b.cfg.history s.response).returned) :
      Takes mg b (.call t s) (b.load t s)
  | load (t : ℕ) (s : StreamRef) (hpc : b.waits t = .changed s) :
      Takes mg b (.resume t) (b.load t s)
  | compare (t : ℕ) (s : StreamRef) (current : AsyncStream.State)
      (hpc : b.waits t = .awake s current ∨
        b.waits t = .loaded s current ∧ current ≠ .empty ∧ ¬current.IsTerminal) :
      Takes mg b (.resume t) (b.compare t s current)
  | grant (t : ℕ) (s : StreamRef) (hpc : b.waits t = .loaded s .empty) :
      Takes mg b (.resume t) (b.grant t s)
  | giveUp (t : ℕ) (s : StreamRef) (current : AsyncStream.State)
      (hpc : b.waits t = .loaded s current) (hterminal : current.IsTerminal) :
      Takes mg b (.resume t) (b.setWait t .away)
  | notifyAll (s : StreamRef) (due : List Notice) (hdue : b.due = ⟨s, .all⟩ :: due) :
      Takes mg b (.notify none) { b with waits := fun t => (b.waits t).wake s, due := due }
  | notifyNone (s : StreamRef) (due : List Notice) (hdue : b.due = ⟨s, .one⟩ :: due) :
      Takes mg b (.notify none) { b with due := due }
  | notifyOne (t : ℕ) (s : StreamRef) (current : AsyncStream.State) (due : List Notice)
      (hdue : b.due = ⟨s, .one⟩ :: due) (hpc : b.waits t = .asleep s current) :
      Takes mg b (.notify (some t)) { b.setWait t (.awake s current) with due := due }
  | spurious (t : ℕ) (s : StreamRef) (current : AsyncStream.State)
      (hpc : b.waits t = .asleep s current) :
      Takes mg b (.spurious t) (b.setWait t (.awake s current))

section Steps

variable {mg : Mongoose} {b b' : Blocking} {t : ℕ}

theorem takes_resume (h : b.resume t = some b') : b.Takes mg (.resume t) b' := by
  cases hpc : b.waits t with
  | away => simp [resume, hpc] at h
  | asleep s current => simp [resume, hpc] at h
  | changed s =>
      simp only [resume, hpc, Option.some.injEq] at h
      exact h ▸ .load t s hpc
  | awake s current =>
      simp only [resume, hpc, Option.some.injEq] at h
      exact h ▸ .compare t s current (Or.inl hpc)
  | loaded s current =>
      cases current <;> simp only [resume, hpc, Option.some.injEq] at h <;> subst h
      case empty => exact .grant t s hpc
      case completed => exact .giveUp t s .completed hpc (Or.inl rfl)
      case failed => exact .giveUp t s .failed hpc (Or.inr rfl)
      all_goals exact .compare t s _ (Or.inr ⟨hpc, by simp, by decide⟩)

theorem takes_notify {n : Notice} {due : List Notice} {woken : Option ℕ} {b'' : Blocking}
    (hdue : b.due = n :: due) (h : b.notify n woken = some b'') :
    b.Takes mg (.notify woken) { b'' with due := due } := by
  obtain ⟨s, kind⟩ := n
  cases kind with
  | all =>
      cases woken with
      | some t => simp [notify] at h
      | none => exact Option.some.inj h ▸ .notifyAll s due hdue
  | one =>
      cases woken with
      | none => exact Option.some.inj h ▸ .notifyNone s due hdue
      | some t =>
          cases hpc : b.waits t <;> simp only [notify, hpc, reduceCtorEq,
            Option.ite_none_right_eq_some, Option.some.injEq] at h
          obtain ⟨rfl, rfl⟩ := h
          exact .notifyOne t _ _ due hdue hpc

theorem takes_of_step {e : BlockingEvent} (hstep : b.step mg e = some b') : b.Takes mg e b' := by
  cases e with
  | base e =>
      cases e with
      | wait t s => simp [step] at hstep
      | loop e =>
          simp only [step, Option.ite_none_right_eq_some] at hstep
          obtain ⟨hdue, hstep⟩ := hstep
          obtain ⟨cfg, hcfg, rfl⟩ := Option.map_eq_some_iff.mp hstep
          exact .loop e cfg hdue hcfg
      | _ =>
          simp only [step, Option.ite_none_right_eq_some] at hstep
          obtain ⟨hout, hstep⟩ := hstep
          obtain ⟨cfg, hcfg, rfl⟩ := Option.map_eq_some_iff.mp hstep
          exact .worker _ cfg (by simp) (by simp) hout hcfg
  | call t s =>
      simp only [step, Option.ite_none_right_eq_some, Option.some.injEq] at hstep
      obtain ⟨⟨hidle, hpc, hreturned⟩, rfl⟩ := hstep
      exact .call t s hidle hpc hreturned
  | resume t => exact takes_resume hstep
  | notify woken =>
      cases hdue : b.due with
      | nil => simp [step, hdue] at hstep
      | cons n due =>
          simp only [step, hdue] at hstep
          obtain ⟨b'', hnotify, rfl⟩ := Option.map_eq_some_iff.mp hstep
          exact takes_notify hdue hnotify
  | spurious t =>
      cases hpc : b.waits t <;> simp only [step, hpc, reduceCtorEq, Option.some.injEq] at hstep
      exact hstep ▸ .spurious t _ _ hpc

end Steps

end Blocking

end Mgxx.Http
