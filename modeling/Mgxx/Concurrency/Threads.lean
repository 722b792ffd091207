import Mgxx.Concurrency.Worker
import Mgxx.Http.EventLoop
import Mgxx.Library.Runs

/-!
The whole program: the event thread, whose handlers run to their end, and any
number of worker threads, which take one access at a time.
-/

namespace Mgxx.Http

open Mgxx.Library

structure Config where
  world : World
  threads : ℕ → Pc
  history : ℕ → History

inductive Event
  | loop (e : LoopEvent)
  /-- Someone edits the headers of a response through `get_headers()`. -/
  | headers (r : ℕ) (headers : Headers)
  /-- Thread `t` calls `send` or `stream` on response `r`. -/
  | begin (t r : ℕ) (call : Call)
  /-- `wait()` of thread `t` on stream `s` returns. -/
  | wait (t : ℕ) (s : StreamRef)
  /-- Thread `t` calls `send` or `close` on stream `s`. -/
  | put (t : ℕ) (s : StreamRef) (op : Put)
  /-- Thread `t` takes its next access; one that was granted a chunk gives it up. -/
  | advance (t : ℕ) (answer : Bool)

def Event.thread : Event → Option ℕ
  | loop _ | headers _ _ => none
  | begin t _ _ | wait t _ | put t _ _ | advance t _ => some t

namespace Config

def shared (cfg : Config) (r : ℕ) : Shared where
  response := cfg.world.responses r
  stream n := cfg.world.streams ⟨r, n⟩
  made := cfg.world.made r
  history := cfg.history r

def commit (cfg : Config) (t r : ℕ) (access : Access) : Config where
  world := { cfg.world with
    responses := Function.update cfg.world.responses r access.shared.response
    streams := fun s =>
      if s.response = r then access.shared.stream s.number else cfg.world.streams s
    made := Function.update cfg.world.made r access.shared.made
    wakeups := cfg.world.wakeups ++ access.posted }
  threads := Function.update cfg.threads t access.pc
  history := Function.update cfg.history r access.shared.history

section Commit

variable (cfg : Config) (t r : ℕ) (access : Access)

@[simp] theorem toEndpoint_commit :
    (cfg.commit t r access).world.toEndpoint = cfg.world.toEndpoint := rfl
@[simp] theorem connections_commit :
    (cfg.commit t r access).world.connections = cfg.world.connections := rfl
@[simp] theorem wakeups_commit :
    (cfg.commit t r access).world.wakeups = cfg.world.wakeups ++ access.posted := rfl

theorem responses_commit (r' : ℕ) : (cfg.commit t r access).world.responses r' =
    if r' = r then access.shared.response else cfg.world.responses r' := Function.update_apply ..

variable {cfg t r access} in
/-- What an access keeps of its response stays the same for every response. -/
theorem field_responses_commit {β : Type} (field : AsyncResponse → β)
    (h : field access.shared.response = field (cfg.world.responses r)) (r' : ℕ) :
    field ((cfg.commit t r access).world.responses r') = field (cfg.world.responses r') := by
  rw [responses_commit]
  split_ifs with heq
  · rw [h, heq]
  · rfl

theorem streams_commit (s : StreamRef) : (cfg.commit t r access).world.streams s =
    if s.response = r then access.shared.stream s.number else cfg.world.streams s := rfl

theorem made_commit (r' : ℕ) : (cfg.commit t r access).world.made r' =
    if r' = r then access.shared.made else cfg.world.made r' := Function.update_apply ..

theorem threads_commit (t' : ℕ) : (cfg.commit t r access).threads t' =
    if t' = t then access.pc else cfg.threads t' := Function.update_apply ..

theorem history_commit (r' : ℕ) : (cfg.commit t r access).history r' =
    if r' = r then access.shared.history else cfg.history r' := Function.update_apply ..

variable {cfg t r access} in
/-- An access that only reads leaves the world as it is. -/
theorem world_commit_of_same (hresponse : access.shared.response = cfg.world.responses r)
    (hstream : access.shared.stream = fun n => cfg.world.streams ⟨r, n⟩)
    (hmade : access.shared.made = cfg.world.made r) (hposted : access.posted = []) :
    (cfg.commit t r access).world = cfg.world := by
  have hstreams : (fun s : StreamRef =>
      if s.response = r then access.shared.stream s.number else cfg.world.streams s) =
      cfg.world.streams := by
    funext s
    split_ifs with h
    · rw [hstream, ← h]
    · rfl
  unfold commit
  simp only [hstreams, hresponse, hmade, hposted, Function.update_eq_self, List.append_nil]

end Commit

def record (history : ℕ → History) : LoopEvent → ℕ → History
  | .wakeup _ id => modifyAt history id fun h => { h with deliveries := h.deliveries + 1 }
  | .accept _ | .poll _ | .httpMessage _ _ _ | .write _ | .close _ | .mongoose _ _ => history

def waited (cfg : Config) (t : ℕ) (s : StreamRef) : Option Config :=
  (cfg.world.streams s).wait.map fun granted =>
    if granted then { cfg with threads := Function.update cfg.threads t (.granted s) } else cfg

/-- A response can be called once it has been made, a stream once it has been returned. -/
def step (mg : Mongoose) (cfg : Config) : Event → Option Config
  | .loop e => (cfg.world.loopStep mg e).map fun w =>
      { cfg with world := w, history := record cfg.history e }
  | .headers r headers =>
      if r < cfg.world.mRequestCounter then
        some { cfg with world := cfg.world.updateResponse r fun response =>
          { response with mHeaders := headers } }
      else none
  | .begin t r call =>
      if cfg.threads t = .idle ∧ r < cfg.world.mRequestCounter then
        some (cfg.commit t r ((cfg.shared r).begin r call))
      else none
  | .wait t s =>
      if cfg.threads t = .idle ∧ some s ∈ (cfg.history s.response).returned then cfg.waited t s
      else none
  | .put t s op =>
      if (cfg.threads t = .idle ∨ cfg.threads t = .granted s) ∧
          some s ∈ (cfg.history s.response).returned then
        some (cfg.commit t s.response ((cfg.shared s.response).put s op))
      else none
  | .advance t answer =>
      match (cfg.threads t).request with
      | none => some cfg
      | some r => some (cfg.commit t r ((cfg.shared r).advance answer (cfg.threads t)))

section Inversion

variable {mg : Mongoose} {cfg cfg' : Config} {t r : ℕ}

/-- A turn of the event loop. -/
theorem step_loop {e : LoopEvent} (hstep : cfg.step mg (.loop e) = some cfg') :
    cfg.world.Raises e ∧
      cfg' = { cfg with world := cfg.world.handle mg e, history := record cfg.history e } := by
  obtain ⟨w, hw, rfl⟩ := Option.map_eq_some_iff.mp hstep
  obtain ⟨hraises, rfl⟩ := World.loopStep_eq_some.mp hw
  exact ⟨hraises, rfl⟩

theorem step_headers {headers : Headers} (hstep : cfg.step mg (.headers r headers) = some cfg') :
    cfg' = { cfg with world := cfg.world.updateResponse r fun response =>
      { response with mHeaders := headers } } := by
  simp only [step, Option.ite_none_right_eq_some, Option.some.injEq] at hstep
  exact hstep.2.symm

theorem step_begin {call : Call} (hstep : cfg.step mg (.begin t r call) = some cfg') :
    cfg.threads t = .idle ∧ r < cfg.world.mRequestCounter ∧
      cfg' = cfg.commit t r ((cfg.shared r).begin r call) := by
  simp only [step, Option.ite_none_right_eq_some, Option.some.injEq] at hstep
  exact ⟨hstep.1.1, hstep.1.2, hstep.2.symm⟩

theorem step_wait {s : StreamRef} (hstep : cfg.step mg (.wait t s) = some cfg') :
    cfg.threads t = .idle ∧ some s ∈ (cfg.history s.response).returned ∧
      ∃ granted, (cfg.world.streams s).wait = some granted ∧
        cfg' = if granted then { cfg with threads := Function.update cfg.threads t (.granted s) }
          else cfg := by
  simp only [step, Option.ite_none_right_eq_some] at hstep
  obtain ⟨⟨hidle, hreturned⟩, hstep⟩ := hstep
  obtain ⟨granted, hwait, rfl⟩ := Option.map_eq_some_iff.mp hstep
  exact ⟨hidle, hreturned, granted, hwait, rfl⟩

theorem step_put {s : StreamRef} {op : Put} (hstep : cfg.step mg (.put t s op) = some cfg') :
    (cfg.threads t = .idle ∨ cfg.threads t = .granted s) ∧
      some s ∈ (cfg.history s.response).returned ∧
      cfg' = cfg.commit t s.response ((cfg.shared s.response).put s op) := by
  simp only [step, Option.ite_none_right_eq_some, Option.some.injEq] at hstep
  exact ⟨hstep.1.1, hstep.1.2, hstep.2.symm⟩

/-- An access belongs to a request, unless the thread has nothing to do. -/
theorem step_advance {answer : Bool} (hstep : cfg.step mg (.advance t answer) = some cfg') :
    (cfg.threads t).request = none ∧ cfg' = cfg ∨
      ∃ r, (cfg.threads t).request = some r ∧
        cfg' = cfg.commit t r ((cfg.shared r).advance answer (cfg.threads t)) := by
  simp only [step] at hstep
  cases hreq : (cfg.threads t).request with
  | none =>
      rw [hreq] at hstep
      exact Or.inl ⟨rfl, (Option.some.inj hstep).symm⟩
  | some r =>
      rw [hreq] at hstep
      exact Or.inr ⟨r, rfl, (Option.some.inj hstep).symm⟩

/-- A step touches the thread that takes it, and no other. -/
theorem threads_step_of_ne {e : Event} (hstep : cfg.step mg e = some cfg') (h : e.thread ≠ some t) :
    cfg'.threads t = cfg.threads t := by
  have hcommit {t' r : ℕ} {access : Access} (ht : some t' ≠ some t) :
      (cfg.commit t' r access).threads t = cfg.threads t := by
    rw [threads_commit, if_neg]
    rintro rfl
    exact ht rfl
  cases e with
  | loop e =>
      obtain ⟨-, rfl⟩ := step_loop hstep
      rfl
  | headers r headers =>
      obtain rfl := step_headers hstep
      rfl
  | begin t' r call =>
      obtain ⟨-, -, rfl⟩ := step_begin hstep
      exact hcommit h
  | wait t' s =>
      obtain ⟨-, -, granted, -, rfl⟩ := step_wait hstep
      cases granted with
      | true => exact Function.update_of_ne (fun heq => h (congrArg some heq.symm)) ..
      | false => rfl
  | put t' s op =>
      obtain ⟨-, -, rfl⟩ := step_put hstep
      exact hcommit h
  | advance t' answer =>
      rcases step_advance hstep with ⟨-, rfl⟩ | ⟨r, -, rfl⟩
      · rfl
      · exact hcommit h

end Inversion

/-- The program before its first connection; the routes may be any. -/
structure Initial (cfg : Config) : Prop where
  mRequestCounter : cfg.world.mRequestCounter = 0
  mPendingResponses : cfg.world.mPendingResponses = ∅
  mPendingStreams : cfg.world.mPendingStreams = ∅
  made : ∀ r, cfg.world.made r = 0
  connections : ∀ c, cfg.world.connections c = {}
  wakeups : cfg.world.wakeups = []
  threads : ∀ t, cfg.threads t = .idle
  history : ∀ r, cfg.history r = {}

theorem Initial.not_lt {cfg : Config} (h : cfg.Initial) (r : ℕ) :
    ¬r < cfg.world.mRequestCounter := by
  rw [h.mRequestCounter]
  exact Nat.not_lt_zero r

def start (routes : Endpoint) : Config where
  world :=
    { mListeners := routes.mListeners
      mAssets := routes.mAssets
      mFallback := routes.mFallback
      responses := fun r => { mConn := 0, mId := r }
      streams := fun s => { mConn := 0, mId := s.response, mData := [] }
      made := fun _ => 0
      connections := fun _ => {}
      wakeups := [] }
  threads _ := .idle
  history _ := {}

theorem initial_start (routes : Endpoint) : (start routes).Initial :=
  ⟨rfl, rfl, rfl, fun _ => rfl, fun _ => rfl, rfl, fun _ => rfl, fun _ => rfl⟩

/-- Routes that leave every request to the workers. -/
def asyncRoutes : Endpoint := { mFallback := some { mGroups := 0, mIsAsync := true, callback := 0 } }

def syncRoutes : Endpoint := { mFallback := some { mGroups := 0, mIsAsync := false, callback := 0 } }

def firstRequest : List Event := [.loop (.accept 0), .loop (.httpMessage 0 ⟨[], []⟩ [])]

/-- Thread 0 calls `stream` on the response of the first request, up to the post. -/
def postingStream : List Event :=
  firstRequest ++ [.begin 0 0 (.stream 200 (text "chunked")), .advance 0 true, .advance 0 true]

def openingStream : List Event := postingStream ++ [.advance 0 true, .advance 0 true]

def putting (op : Put) : List Event :=
  [.put 0 ⟨0, 0⟩ op, .advance 0 true, .advance 0 true, .advance 0 true]

/-- A write event of connection 0 with an empty send buffer. -/
def flushing : List Event := [.loop (.mongoose 0 []), .loop (.write 0)]

/-- A conforming `send` or `close`, from the delivery before to its own. -/
def sending (op : Put) : List Event :=
  flushing ++ .wait 0 ⟨0, 0⟩ :: putting op ++ [.loop (.wakeup 0 0)]

end Config

end Mgxx.Http
