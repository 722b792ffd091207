import Mgxx.Concurrency.Use

/-!
Public calls as single steps.  Each of them is a run of accesses that nothing
interrupts, so that what holds of every interleaving holds here.
-/

namespace Mgxx.Http

open Mgxx.Library

/-- A call is counted as passed when it found the response pending. -/
def History.count (history : History) (passed posted : Bool) : History :=
  { history with
    passes := history.passes + passed.toNat
    posts := history.posts + posted.toNat }

namespace Shared

variable (q : Shared)

def wakeup (posted : Bool) : List (ℕ × ℕ) :=
  if posted then [(q.response.mConn, q.response.mId)] else []

def wholeCall (r : ℕ) (wake : Wake) : Call → Access
  | .send code body =>
      let sent := q.response.send code body wake
      { shared :=
          { q with
            response := sent.1
            history := q.history.count (q.response.mState = .pending) sent.2 }
        posted := q.wakeup sent.2 }
  | .stream code encoding =>
      let streamed := q.response.stream code encoding ⟨r, q.made⟩ wake
      let history := q.history.count (q.response.mState = .pending) streamed.posted
      { shared :=
          { response := streamed.response
            stream := match streamed.made with
              | none => q.stream
              | some stream => Function.update q.stream q.made stream
            made := q.made + streamed.made.isSome.toNat
            history := { history with returned := history.returned ++ [streamed.result] } }
        posted := q.wakeup streamed.posted }

def wholePut (s : StreamRef) (op : Put) (wake : Wake) : Access :=
  let put := (q.stream s.number).put op wake
  { shared :=
      { q with
        stream := Function.update q.stream s.number put.1
        history := { q.history with
          puts := Function.update q.history.puts s.number (q.history.puts s.number ++ [op]) } }
    posted := if put.2 then [(put.1.mConn, put.1.mId)] else [] }

end Shared

/-- The accesses of a thread in a row, when nothing comes between. -/
def Access.next (access : Access) (answer : Bool) : Access :=
  { access.shared.advance answer access.pc with
    posted := access.posted ++ (access.shared.advance answer access.pc).posted }

/-- What the accesses of a call are answered, after the first. -/
def Call.answers : Call → Wake → List Bool
  | .send _ _, .expired | .stream _ _, .expired => [false, true]
  | .send _ _, .refused | .stream _ _, .refused => [true, false, true]
  | .send _ _, .accepted => [true, true, true]
  | .stream _ _, .accepted => [true, true, true, true]

def putAnswers : Wake → List Bool
  | .expired => [true, false]
  | .refused => [true, true, false, true]
  | .accepted => [true, true, true]

inductive AtomicEvent
  | loop (e : LoopEvent)
  | headers (r : ℕ) (headers : Headers)
  | call (r : ℕ) (call : Call) (wake : Wake)
  | wait (s : StreamRef)
  | put (s : StreamRef) (op : Put) (wake : Wake)

namespace Config

variable {mg : Mongoose} {cfg cfg' cfg₀ : Config} {t r : ℕ} {access : Access}

/-- One step of the program whose workers make their calls one after the other;
thread 0 stands for whichever thread calls. -/
def atomicStep (mg : Mongoose) (cfg : Config) : AtomicEvent → Option Config
  | .loop e => cfg.step mg (.loop e)
  | .headers r headers => cfg.step mg (.headers r headers)
  | .call r call wake =>
      if r < cfg.world.mRequestCounter then
        some (cfg.commit 0 r ((cfg.shared r).wholeCall r wake call))
      else none
  | .wait s =>
      if some s ∈ (cfg.history s.response).returned then
        (cfg.world.streams s).wait.map fun _ => cfg
      else none
  | .put s op wake =>
      if some s ∈ (cfg.history s.response).returned then
        some (cfg.commit 0 s.response ((cfg.shared s.response).wholePut s op wake))
      else none

section Inversion

variable {s : StreamRef} {op : Put} {call : Call} {wake : Wake}

theorem atomicStep_headers {headers : Headers}
    (hstep : cfg.atomicStep mg (.headers r headers) = some cfg') :
    cfg' = { cfg with world := cfg.world.updateResponse r fun response =>
      { response with mHeaders := headers } } :=
  step_headers (show cfg.step mg (.headers r headers) = some cfg' from hstep)

theorem atomicStep_call (hstep : cfg.atomicStep mg (.call r call wake) = some cfg') :
    r < cfg.world.mRequestCounter ∧
      cfg' = cfg.commit 0 r ((cfg.shared r).wholeCall r wake call) := by
  simp only [atomicStep, Option.ite_none_right_eq_some, Option.some.injEq] at hstep
  exact ⟨hstep.1, hstep.2.symm⟩

theorem atomicStep_wait (hstep : cfg.atomicStep mg (.wait s) = some cfg') : cfg' = cfg := by
  simp only [atomicStep, Option.ite_none_right_eq_some] at hstep
  obtain ⟨-, -, rfl⟩ := Option.map_eq_some_iff.mp hstep.2
  rfl

theorem atomicStep_put (hstep : cfg.atomicStep mg (.put s op wake) = some cfg') :
    some s ∈ (cfg.history s.response).returned ∧
      cfg' = cfg.commit 0 s.response ((cfg.shared s.response).wholePut s op wake) := by
  simp only [atomicStep, Option.ite_none_right_eq_some, Option.some.injEq] at hstep
  exact ⟨hstep.1, hstep.2.symm⟩

end Inversion

def Idle (cfg : Config) : Prop := ∀ t, cfg.threads t = .idle

@[simp] theorem shared_commit_self :
    (cfg.commit t r access).shared r = access.shared := by
  simp [shared, responses_commit, streams_commit, made_commit, history_commit]

@[simp] theorem threads_commit_self : (cfg.commit t r access).threads t = access.pc := by
  rw [threads_commit, if_pos rfl]

/-- Two accesses in a row are one. -/
theorem commit_commit (access' : Access) : (cfg.commit t r access).commit t r access' =
    cfg.commit t r { access' with posted := access.posted ++ access'.posted } := by
  have hstreams : (fun s : StreamRef => if s.response = r then access'.shared.stream s.number
      else if s.response = r then access.shared.stream s.number else cfg.world.streams s) =
      fun s => if s.response = r then access'.shared.stream s.number
        else cfg.world.streams s := by
    funext s
    split_ifs <;> rfl
  simp only [commit, Function.update_idem, List.append_assoc, hstreams]

theorem step_advance_commit (hpc : access.pc.request = some r) (answer : Bool) :
    (cfg.commit t r access).step mg (.advance t answer) =
      some (cfg.commit t r (access.next answer)) := by
  simp only [step, threads_commit_self, hpc, shared_commit_self, commit_commit]
  rfl

theorem run_advance (answers : List Bool)
    (hpcs : ∀ k < answers.length, ((answers.take k).foldl Access.next access).pc.request = some r) :
    run (step mg) (cfg.commit t r access) (answers.map (.advance t)) =
      some (cfg.commit t r (answers.foldl Access.next access)) := by
  induction answers generalizing access with
  | nil => rfl
  | cons answer answers ih =>
      have hpc : access.pc.request = some r := hpcs 0 (Nat.succ_pos _)
      rw [List.map_cons, run_cons, step_advance_commit hpc, Option.bind_some, List.foldl_cons]
      exact ih fun k hk => hpcs (k + 1) (Nat.succ_lt_succ hk)

end Config

namespace Shared

variable (q : Shared) (r : ℕ)

/-- The accesses of a call that finds the response pending add up to the call. -/
theorem foldl_next_begin (hstate : q.response.mState = .pending) (call : Call) (wake : Wake) :
    (call.answers wake).foldl Access.next (q.begin r call) = q.wholeCall r wake call := by
  cases call <;> cases wake <;>
    simp [Call.answers, Access.next, begin, advance, wholeCall, hstate, AsyncResponse.send,
      AsyncResponse.stream, wakeup, History.count, pass, post, returns, openStream,
      updateResponse]

/-- A call that finds the response settled is its first access. -/
theorem wholeCall_of_ne (hstate : q.response.mState ≠ .pending) (call : Call) (wake : Wake) :
    q.wholeCall r wake call = q.begin r call := by
  rw [begin_of_ne hstate]
  cases call <;>
    simp [wholeCall, hstate, AsyncResponse.send, AsyncResponse.stream, wakeup, History.count,
      Call.refusal]

theorem foldl_next_put (s : StreamRef) (op : Put) (wake : Wake) :
    (putAnswers wake).foldl Access.next (q.put s op) = q.wholePut s op wake := by
  cases wake <;>
    simp [putAnswers, Access.next, put, advance, wholePut, AsyncStream.put, updateStream,
      AsyncStream.markFailed]

/-- A call is at work on its response until its last access. -/
theorem request_next_begin (hstate : q.response.mState = .pending) (call : Call) (wake : Wake) :
    ∀ k < (call.answers wake).length,
      (((call.answers wake).take k).foldl Access.next (q.begin r call)).pc.request = some r := by
  intro k hk
  cases call <;> cases wake <;>
    simp only [Call.answers, List.length_cons, List.length_nil] at hk <;>
    interval_cases k <;> simp [Call.answers, Access.next, begin, advance, hstate, Pc.request]

theorem request_next_put (s : StreamRef) (op : Put) (wake : Wake) :
    ∀ k < (putAnswers wake).length,
      (((putAnswers wake).take k).foldl Access.next (q.put s op)).pc.request = some s.response := by
  intro k hk
  cases wake <;> simp only [putAnswers, List.length_cons, List.length_nil] at hk <;>
    interval_cases k <;> simp [putAnswers, Access.next, put, advance, Pc.request]

end Shared

namespace Config

variable {mg : Mongoose} {cfg cfg' cfg₀ : Config} {r : ℕ} {access : Access}

theorem idle_commit (hidle : cfg.Idle) (hpc : access.pc = .idle) :
    (cfg.commit 0 r access).Idle := by
  intro t
  rw [threads_commit]
  split_ifs
  · exact hpc
  · exact hidle t

/-- A public call is a run of its accesses. -/
theorem run_of_atomicStep {e : AtomicEvent} (hidle : cfg.Idle)
    (hstep : cfg.atomicStep mg e = some cfg') :
    (∃ es, run (step mg) cfg es = some cfg') ∧ cfg'.Idle := by
  have hone {e : Event} (hstep : cfg.step mg e = some cfg') :
      ∃ es, run (step mg) cfg es = some cfg' := ⟨[e], by simp [hstep]⟩
  cases e with
  | loop e =>
      have hstep : cfg.step mg (.loop e) = some cfg' := hstep
      refine ⟨hone hstep, ?_⟩
      obtain ⟨w, -, rfl⟩ := Option.map_eq_some_iff.mp hstep
      exact hidle
  | headers r headers =>
      have hstep : cfg.step mg (.headers r headers) = some cfg' := hstep
      refine ⟨hone hstep, ?_⟩
      exact step_headers hstep ▸ hidle
  | wait s =>
      obtain rfl := atomicStep_wait hstep
      exact ⟨⟨[], rfl⟩, hidle⟩
  | call r call wake =>
      obtain ⟨hr, rfl⟩ := atomicStep_call hstep
      refine ⟨?_, idle_commit hidle (by cases call <;> rfl)⟩
      have hbegin : cfg.step mg (.begin 0 r call) =
          some (cfg.commit 0 r ((cfg.shared r).begin r call)) := by simp [step, hidle 0, hr]
      by_cases hstate : (cfg.shared r).response.mState = .pending
      · refine ⟨.begin 0 r call :: (call.answers wake).map (.advance 0), ?_⟩
        rw [run_cons, hbegin, Option.bind_some,
          run_advance _ ((cfg.shared r).request_next_begin r hstate call wake),
          (cfg.shared r).foldl_next_begin r hstate call wake]
      · -- a settled response ends the call at its first access
        exact ⟨[.begin 0 r call], by
          rw [run_cons, hbegin, Option.bind_some, (cfg.shared r).wholeCall_of_ne r hstate call wake,
            run_nil]⟩
  | put s op wake =>
      obtain ⟨hs, rfl⟩ := atomicStep_put hstep
      refine ⟨⟨.put 0 s op :: (putAnswers wake).map (.advance 0), ?_⟩, idle_commit hidle rfl⟩
      have hput : cfg.step mg (.put 0 s op) =
          some (cfg.commit 0 s.response ((cfg.shared s.response).put s op)) := by
        simp [step, hidle 0, hs]
      rw [run_cons, hput, Option.bind_some,
        run_advance _ ((cfg.shared s.response).request_next_put s op wake),
        (cfg.shared s.response).foldl_next_put s op wake]

/-- The states reached by whole calls are reached by accesses. -/
theorem reaches_of_atomic {ok : Config → AtomicEvent → Prop} (hinit : cfg₀.Initial)
    (h : Reaches (atomicStep mg) ok cfg₀ cfg) :
    Reaches (step mg) anyEvent cfg₀ cfg ∧ cfg.Idle := by
  refine h.invariant (P := fun cfg => Reaches (step mg) anyEvent cfg₀ cfg ∧ cfg.Idle)
    ⟨.refl cfg₀, hinit.threads⟩ ?_
  rintro cfg e cfg' ⟨hreach, hidle⟩ - hstep
  obtain ⟨⟨es, hrun⟩, hidle'⟩ := run_of_atomicStep hidle hstep
  exact ⟨hreach.trans (reaches_of_run hrun (meets_anyEvent cfg es)), hidle'⟩

end Config

theorem Owned.of_atomic {mg : Mongoose} {cfg cfg₀ : Config} {ok : Config → AtomicEvent → Prop}
    (hinit : cfg₀.Initial) (h : Reaches (Config.atomicStep mg) ok cfg₀ cfg) : Owned cfg :=
  Owned.of_reaches hinit (Config.reaches_of_atomic hinit h).1

namespace Config

variable {mg : Mongoose} {cfg cfg' : Config} {r : ℕ} {e : AtomicEvent}

theorem local_wholeCall (howned : Owned cfg) (hr : r < cfg.world.mRequestCounter) (call : Call)
    (wake : Wake) : Local cfg r ((cfg.shared r).wholeCall r wake call) := by
  have hposted (posted : Bool) : ∀ x ∈ (cfg.shared r).wakeup posted, x = (cfg.conn r, r) := by
    intro x hx
    have hid : (cfg.shared r).response.mId = r := (howned.identity r hr).1
    cases posted with
    | false => exact absurd hx (by simp [Shared.wakeup])
    | true =>
        obtain rfl := List.mem_singleton.mp hx
        rw [hid]
        rfl
  cases call with
  | send code body =>
      refine ⟨?_, by simp [Shared.wholeCall, Pc.request], hposted _⟩
      simp only [Shared.wholeCall, AsyncResponse.send]
      split_ifs
      · rfl
      · cases wake <;> rfl
  | stream code encoding =>
      refine ⟨?_, by simp [Shared.wholeCall, Pc.request], hposted _⟩
      simp only [Shared.wholeCall, AsyncResponse.stream]
      split_ifs
      · rfl
      · cases wake <;> rfl

theorem local_wholePut (howned : Owned cfg) {s : StreamRef}
    (hs : some s ∈ (cfg.history s.response).returned) (op : Put) (wake : Wake) :
    Local cfg s.response ((cfg.shared s.response).wholePut s op wake) := by
  obtain ⟨-, hn⟩ := howned.returned s.response s hs
  obtain ⟨hconn, hid⟩ := howned.streamIdentity s.response s.number hn
  refine ⟨rfl, by simp [Shared.wholePut, Pc.request], ?_⟩
  intro x hx
  simp only [Shared.wholePut] at hx
  split_ifs at hx
  · obtain rfl := List.mem_singleton.mp hx
    have hfields : (((cfg.shared s.response).stream s.number).put op wake).1.mConn =
        ((cfg.shared s.response).stream s.number).mConn ∧
        (((cfg.shared s.response).stream s.number).put op wake).1.mId =
          ((cfg.shared s.response).stream s.number).mId := by
      cases wake <;> exact ⟨rfl, rfl⟩
    rw [hfields.1, hfields.2]
    exact Prod.ext hconn hid
  · exact absurd hx (by simp)

end Config

inductive View.AtomicEvent
  | deliver
  | poll
  | release (blocked : Bool)
  | headers (h : Headers)
  | call (call : Call) (wake : Wake)
  | put (s : StreamRef) (op : Put) (wake : Wake)

def View.atomicStep (r : ℕ) (v : View) : View.AtomicEvent → View
  | .deliver => v.deliver r
  | .poll => v.poll r
  | .release blocked => v.release blocked
  | .headers h => v.setHeaders h
  | .call call wake => v.commit 0 (v.shared.wholeCall r wake call)
  | .put s op wake => v.commit 0 (v.shared.wholePut s op wake)

def AtomicEvent.about (mg : Mongoose) (cfg : Config) (r : ℕ) :
    AtomicEvent → Option View.AtomicEvent
  | .loop (.wakeup _ id) => if id = r then some .deliver else none
  | .loop (.poll c) => if c = cfg.conn r then some .poll else none
  | .loop (.write c) => some (.release (cfg.world.blocked mg c))
  | .loop (.accept _) | .loop (.httpMessage _ _ _) | .loop (.close _)
  | .loop (.mongoose _ _) | .wait _ => none
  | .headers r' h => if r' = r then some (.headers h) else none
  | .call r' made wake => if r' = r then some (.call made wake) else none
  | .put s op wake => if s.response = r then some (.put s op wake) else none

namespace Config

variable {mg : Mongoose} {cfg cfg' : Config} {r : ℕ} {e : AtomicEvent}

/-- The event of the program that a request has seen. -/
theorem atomicEvent_of_about {ve : View.AtomicEvent} : e.about mg cfg r = some ve →
    match ve with
    | .deliver => ∃ c, e = .loop (.wakeup c r)
    | .poll => e = .loop (.poll (cfg.conn r))
    | .release blocked => ∃ c, e = .loop (.write c) ∧ blocked = cfg.world.blocked mg c
    | .headers h => e = .headers r h
    | .call call wake => e = .call r call wake
    | .put s op wake => e = .put s op wake ∧ s.response = r := by
  intro habout
  cases e with
  | loop e =>
      cases e <;> simp only [AtomicEvent.about, Option.ite_none_right_eq_some, Option.some.injEq,
        reduceCtorEq] at habout
      case poll c =>
        obtain ⟨rfl, rfl⟩ := habout
        rfl
      case wakeup c id =>
        obtain ⟨rfl, rfl⟩ := habout
        exact ⟨c, rfl⟩
      case write c =>
        subst habout
        exact ⟨c, rfl, rfl⟩
  | headers r' h =>
      simp only [AtomicEvent.about, Option.ite_none_right_eq_some, Option.some.injEq] at habout
      obtain ⟨rfl, rfl⟩ := habout
      rfl
  | call r' call wake =>
      simp only [AtomicEvent.about, Option.ite_none_right_eq_some, Option.some.injEq] at habout
      obtain ⟨rfl, rfl⟩ := habout
      rfl
  | put s op wake =>
      simp only [AtomicEvent.about, Option.ite_none_right_eq_some, Option.some.injEq] at habout
      obtain ⟨hs, rfl⟩ := habout
      exact ⟨rfl, hs⟩
  | wait s => exact absurd habout (by simp [AtomicEvent.about])

variable (mg) in
theorem view_atomicStep (hidle : cfg.Idle) (howned : Owned cfg) (hr : r < cfg.world.mRequestCounter)
    (hstep : cfg.atomicStep mg e = some cfg') (hopen : cfg'.IsOpen r) :
    cfg'.view r = match e.about mg cfg r with
      | none => cfg.view r
      | some ve => (cfg.view r).atomicStep r ve := by
  have hcommit {r' : ℕ} {access : Access} (hlocal : Local cfg r' access) :
      (cfg.commit 0 r' access).view r =
        if r' = r then (cfg.view r).commit 0 access else cfg.view r :=
    view_commit hlocal fun r'' hr'' => absurd hr'' (by simp [hidle 0, Pc.request])
  cases e with
  | loop e =>
      have hview := view_step mg howned hr (show cfg.step mg (.loop e) = some cfg' from hstep) hopen
      cases e with
      | accept c => exact hview
      | httpMessage c msg calls => exact hview
      | close c => exact hview
      | mongoose c send => exact hview
      | write c => exact (Option.some.inj hview).symm
      | poll c =>
          simp only [Event.about, AtomicEvent.about] at hview ⊢
          split_ifs at hview ⊢
          · exact (Option.some.inj hview).symm
          · exact hview
      | wakeup c id =>
          simp only [Event.about, AtomicEvent.about] at hview ⊢
          split_ifs at hview ⊢
          · exact (View.step_deliver hview).2
          · exact hview
  | headers r' headers =>
      have hview := view_step mg howned hr
        (show cfg.step mg (.headers r' headers) = some cfg' from hstep) hopen
      simp only [Event.about, AtomicEvent.about] at hview ⊢
      split_ifs at hview ⊢
      · exact (Option.some.inj hview).symm
      · exact hview
  | wait s =>
      obtain rfl := atomicStep_wait hstep
      rfl
  | call r' call wake =>
      obtain ⟨hr', rfl⟩ := atomicStep_call hstep
      rw [hcommit (local_wholeCall howned hr' call wake)]
      simp only [AtomicEvent.about]
      split_ifs with heq
      · exact heq ▸ rfl
      · rfl
  | put s op wake =>
      obtain ⟨hs, rfl⟩ := atomicStep_put hstep
      rw [hcommit (local_wholePut howned hs op wake)]
      simp only [AtomicEvent.about]
      split_ifs with heq
      · exact heq ▸ rfl
      · rfl

end Config

end Mgxx.Http
