import Mgxx.Concurrency.RequestView

/-!
The protocol between a producer and the event loop.  One data slot is handed
back and forth: the producer fills it when `wait` has granted it, and posts a
wake-up; the delivery writes the slot out; the write event that follows grants
it again.  `Streaming` lists the situations of a stream under a producer that
keeps to this, and every step leads from one of them to one of them.
-/

namespace Mgxx.Http

open Mgxx.Library

/-- What the protocol depends on. -/
structure Progress where
  pending : Bool
  table : Option StreamRef
  inFlight : ℕ
  threads : ℕ → Pc
  outputs : List Output
  mState : AsyncResponse.State
  mStream : Option StreamRef
  stream : ℕ → AsyncStream
  /-- The streams that calls of `stream` have returned. -/
  handles : List StreamRef
  passes : ℕ
  posts : ℕ
  deliveries : ℕ
  puts : ℕ → List Put

@[simps] def View.progress (v : View) : Progress where
  pending := v.pending
  table := v.table
  inFlight := v.inFlight
  threads := v.threads
  outputs := v.outputs
  mState := v.shared.response.mState
  mStream := v.shared.response.mStream
  stream := v.shared.stream
  handles := v.shared.history.returned.reduceOption
  passes := v.shared.history.passes
  posts := v.shared.history.posts
  deliveries := v.shared.history.deliveries
  puts := v.shared.history.puts

def Put.output (op : Put) (s : StreamRef) : Output := ⟨.stream s, .chunk op.data⟩

def written (s : StreamRef) (preamble : Bytes) (ops : List Put) : List Output :=
  ⟨.stream s, .send preamble⟩ :: ops.map fun op => op.output s

theorem written_concat (s : StreamRef) (preamble : Bytes) (ops : List Put) (op : Put) :
    written s preamble (ops ++ [op]) = written s preamble ops ++ [op.output s] := by
  simp [written]

theorem source_of_mem_written {s : StreamRef} {preamble : Bytes} {ops : List Put} {o : Output}
    (ho : o ∈ written s preamble ops) : o.source = .stream s := by
  rcases List.mem_cons.mp ho with rfl | ho
  · rfl
  · obtain ⟨op, -, rfl⟩ := List.mem_map.mp ho
    rfl

namespace Progress

def Quiet (p : Progress) : Prop := p.threads = fun _ => .idle

def Only (p : Progress) (t : ℕ) (pc : Pc) : Prop :=
  p.threads = Function.update (fun _ => .idle) t pc

/-- Which of the disputed things may happen. -/
structure Allowed where
  /-- A response is answered with `send`. -/
  send : Prop
  /-- A wake-up is delivered before `stream` has stored `streaming`. -/
  early : Prop
  /-- A wake-up is delivered before `stream` has read `m_stream` for the return. -/
  late : Prop

def Allowed.any : Allowed := ⟨True, True, True⟩

/-- What holds of a stream from its hand-over to the worker on. -/
structure Owes (p : Progress) (limit r : ℕ) (s : StreamRef) : Prop where
  response : s.response = r
  mState : p.mState = .streaming
  handles : ∀ s' ∈ p.handles, s' = s
  passes : p.passes ≤ limit
  posts : p.posts ≤ limit

structure Served (a : Allowed) (p : Progress) (s : StreamRef) : Prop where
  pending : p.pending = false
  table : p.table = some s
  returned : a.late ∨ s ∈ p.handles
  deliveries : 0 < p.deliveries

theorem Owes.congr {p p' : Progress} {limit r : ℕ} {s : StreamRef} (h : p.Owes limit r s)
    (hmState : p'.mState = p.mState) (hhandles : p'.handles = p.handles)
    (hpasses : p'.passes = p.passes) (hposts : p'.posts = p.posts) : p'.Owes limit r s :=
  ⟨h.response, hmState.trans h.mState, hhandles ▸ h.handles, hpasses ▸ h.passes,
    hposts ▸ h.posts⟩

theorem Served.congr {a : Allowed} {p p' : Progress} {s : StreamRef} (h : Served a p s)
    (hpending : p'.pending = p.pending) (htable : p'.table = p.table)
    (hhandles : p'.handles = p.handles) (hdeliveries : p'.deliveries = p.deliveries) :
    Served a p' s :=
  ⟨hpending.trans h.pending, htable.trans h.table, hhandles ▸ h.returned,
    hdeliveries ▸ h.deliveries⟩

/-- Where a chunk is between the producer's call and its delivery. -/
inductive Outstanding (p : Progress) (s : StreamRef) (op : Put) : Prop
  | written (t : ℕ) (hthreads : p.Only t (.putWritten s op)) (hflight : p.inFlight = 0)
      (hstate : (p.stream s.number).mState = .empty)
  | stored (t : ℕ) (pc : Pc) (hthreads : p.Only t pc)
      (hpc : pc = .putStored s ∨ pc = .putLocked s ∨ pc = .putRefused s)
      (hflight : p.inFlight = 0) (hstate : (p.stream s.number).mState = op.state)
  | posted (hthreads : p.Quiet) (hflight : p.inFlight = 1)
      (hstate : (p.stream s.number).mState = op.state)
  /-- No wake-up could be posted. -/
  | lost (hthreads : p.Quiet) (hflight : p.inFlight = 0)
      (hstate : (p.stream s.number).mState = op.state ∨ (p.stream s.number).mState = .failed)

/-- The situations of a stream with a conforming producer. -/
inductive Streaming (a : Allowed) (limit r : ℕ) (s : StreamRef) (preamble : Bytes)
    (p : Progress) : Prop
  /-- The response holds the stream, and its first wake-up is in flight. -/
  | handed (howes : p.Owes limit r s) (hpending : p.pending = true) (htable : p.table = none)
      (hflight : p.inFlight = 1) (hthreads : p.Quiet) (hheld : p.mStream = some s)
      (hstate : (p.stream s.number).mState = .start) (hdata : (p.stream s.number).mData = preamble)
      (hreturned : s ∈ p.handles) (hputs : p.puts s.number = []) (houtputs : p.outputs = [])
  /-- Everything the producer has sent is written. -/
  | resting (howes : p.Owes limit r s) (hserved : Served a p s) (hflight : p.inFlight = 0)
      (hthreads : p.Quiet)
      (hstate : (p.stream s.number).mState = .flush ∨ (p.stream s.number).mState = .empty)
      (hputs : Put.close ∉ p.puts s.number)
      (houtputs : p.outputs = written s preamble (p.puts s.number))
  /-- The preamble is written, but `stream` has not returned yet. -/
  | unreturned (t : ℕ) (hlate : a.late) (howes : p.Owes limit r s) (hserved : Served a p s)
      (hflight : p.inFlight = 0) (hthreads : p.Only t (.streamStored r))
      (hheld : p.mStream = none) (hhandles : p.handles = [])
      (hstate : (p.stream s.number).mState = .flush ∨ (p.stream s.number).mState = .empty)
      (hputs : p.puts s.number = []) (houtputs : p.outputs = written s preamble [])
  /-- The producer may send the next chunk. -/
  | granted (t : ℕ) (howes : p.Owes limit r s) (hserved : Served a p s)
      (hflight : p.inFlight = 0) (hthreads : p.Only t (.granted s))
      (hstate : (p.stream s.number).mState = .empty) (hputs : Put.close ∉ p.puts s.number)
      (houtputs : p.outputs = written s preamble (p.puts s.number))
  /-- The producer has called `send` or `close`, and the delivery is due. -/
  | outstanding (ops : List Put) (op : Put) (howes : p.Owes limit r s) (hserved : Served a p s)
      (hop : Outstanding p s op) (hdata : (p.stream s.number).mData = op.data)
      (hputs : p.puts s.number = ops ++ [op]) (hopen : Put.close ∉ ops)
      (houtputs : p.outputs = written s preamble ops)
  /-- The terminator is written. -/
  | completed (ops : List Put) (howes : p.Owes limit r s) (hpending : p.pending = false)
      (htable : p.table = none) (hflight : p.inFlight = 0) (hthreads : p.Quiet)
      (hstate : (p.stream s.number).mState = .completed)
      (hputs : p.puts s.number = ops ++ [.close]) (hopen : Put.close ∉ ops)
      (houtputs : p.outputs = written s preamble (ops ++ [.close]))

end Progress

namespace View

open Progress

/-- Calls on the response do not overlap between the check and the last store;
a producer has its stream to itself, and fills the slot when it was granted. -/
def Conforming (r : ℕ) (v : View) : Event → Prop
  | .begin _ _ => ∀ t, (v.threads t).deciding ≠ some r
  | .wait _ s => ∀ t, (v.threads t).stream ≠ some s
  | .put t s _ => v.threads t = .granted s
  | .deliver | .poll | .release _ | .headers _ | .advance _ _ => True

def Permitted (a : Allowed) (r : ℕ) (v : View) : Event → Prop
  | .begin _ (.send _ _) => a.send
  | .deliver => (∀ t, v.threads t = .streamDecided r true → a.early) ∧
      ∀ t, v.threads t = .streamStored r → a.late
  | .begin _ (.stream _ _) | .poll | .release _ | .headers _ | .wait _ _ | .put _ _ _
  | .advance _ _ => True

variable {v v' : View} {r t : ℕ}

@[simp] theorem progress_headers (h : Headers) : (v.setHeaders h).progress = v.progress := rfl

theorem shared_poll (v : View) (r : ℕ) : (v.poll r).shared = v.shared := by
  unfold View.poll
  split_ifs <;> rfl

theorem poll_of_ne (h : v.shared.response.mState ≠ .failed) : v.poll r = v :=
  if_neg fun hfailed => h hfailed.2

theorem release_of_none (h : v.table = none) (blocked : Bool) : v.release blocked = v := by
  simp only [View.release, h]

/-- A delivery does not make a response pending. -/
theorem mState_wakeup (v : View) (r : ℕ) :
    (v.wakeup r).shared.response.mState = v.shared.response.mState ∨
      (v.wakeup r).shared.response.mState = .completed := by
  unfold wakeup
  cases v.table with
  | some s => exact Or.inl rfl
  | none =>
      simp only
      split_ifs
      · cases v.shared.response.mStream with
        | none => exact Or.inl rfl
        | some s => exact Or.inl rfl
      · exact Or.inr rfl
      · exact Or.inl rfl

/-- Only a stream that has been returned is waited for. -/
theorem mem_handles_of_wait {s : StreamRef} (hstep : v.step r (.wait t s) = some v') :
    s ∈ v.progress.handles :=
  List.reduceOption_mem_iff.mpr (step_wait hstep).2.1

/-- An idle thread does nothing. -/
theorem advance_of_idle (h : v.threads t = .idle) (answer : Bool) :
    v.commit t (v.shared.advance answer (v.threads t)) = v := by
  simp only [h, Shared.advance, View.commit, List.length_nil, Nat.add_zero]
  rw [← h, Function.update_eq_self]

/-- A call that finds the response settled changes nothing. -/
theorem progress_begin_of_ne (h : v.shared.response.mState ≠ .pending)
    (hidle : v.threads t = .idle) (call : Call) :
    (v.commit t (v.shared.begin r call)).progress = v.progress := by
  rw [Shared.begin_of_ne h]
  have hthreads : Function.update v.threads t .idle = v.threads := by
    rw [← hidle, Function.update_eq_self]
  have hhandles : (v.shared.history.returned ++ call.refusal).reduceOption =
      v.shared.history.returned.reduceOption := by
    cases call <;> simp [Call.refusal, List.reduceOption_append]
  simp [View.commit, progress, hthreads, hhandles]

/-- After an access of the only thread, it is still the only one. -/
theorem only_commit {pc : Pc} (h : v.progress.Only t pc) (access : Access) :
    (v.commit t access).progress.Only t access.pc := by
  simp only [Only, View.progress, View.commit] at h ⊢
  rw [h, Function.update_idem]

theorem quiet_commit {pc : Pc} (h : v.progress.Only t pc) {access : Access}
    (hidle : access.pc = .idle) : (v.commit t access).progress.Quiet := by
  have honly := only_commit h access
  rw [Only, hidle] at honly
  exact honly.trans (Function.update_eq_self t fun _ => Pc.idle)

theorem threads_of_only {pc : Pc} (h : v.progress.Only t pc) : v.threads t = pc := by
  have h : v.threads = _ := h
  rw [h, Function.update_self]

theorem threads_of_only_ne {pc : Pc} {t' : ℕ} (h : v.progress.Only t pc) (ht : t' ≠ t) :
    v.threads t' = .idle := by
  have h : v.threads = _ := h
  rw [h, Function.update_of_ne ht]

theorem threads_of_quiet (h : v.progress.Quiet) (t : ℕ) : v.threads t = .idle :=
  congrFun h t

/-- The only thread that is not idle. -/
theorem eq_of_only {pc : Pc} {t' : ℕ} (h : v.progress.Only t' pc) (hpc : v.threads t ≠ .idle) :
    t = t' := by
  by_contra ht
  exact hpc (threads_of_only_ne h ht)

theorem not_quiet_of_granted {s : StreamRef} (hpc : v.threads t = .granted s) :
    ¬v.progress.Quiet := by
  intro h
  rw [threads_of_quiet h] at hpc
  exact absurd hpc (by simp)

theorem pc_of_granted {s : StreamRef} {pc : Pc} {t' : ℕ} (hpc : v.threads t = .granted s)
    (h : v.progress.Only t' pc) : pc = .granted s := by
  obtain rfl := eq_of_only h (by rw [hpc]; simp)
  exact (threads_of_only h).symm.trans hpc

end View

namespace Progress.Streaming

open View

variable {a : Allowed} {limit r : ℕ} {s : StreamRef} {preamble : Bytes} {v v' : View}

theorem owes {p : Progress} (h : Streaming a limit r s preamble p) : p.Owes limit r s := by
  cases h <;> assumption

theorem mState_eq {p : Progress} (h : Streaming a limit r s preamble p) :
    p.mState = .streaming :=
  h.owes.mState

theorem deliver (h : Streaming a limit r s preamble v.progress) (hflight : 0 < v.inFlight) :
    Streaming a limit r s preamble (v.deliver r).progress := by
  have hzero (hnone : v.progress.inFlight = 0) :
      Streaming a limit r s preamble (v.deliver r).progress :=
    absurd hnone (Nat.ne_of_gt hflight)
  -- a wake-up is in flight in two situations: after the hand-over, and after a put
  cases h with
  | handed howes hpending htable hone hthreads hheld hstate hdata hreturned hputs houtputs =>
      have hdeliver : v.deliver r = v.take.handOff.serve s := by
        have hmState := howes.mState
        simp only [progress_pending, progress_table, progress_mState, progress_mStream] at *
        simp [View.deliver, View.wakeup, View.take, htable, hpending, hmState, hheld]
      obtain ⟨hresponse, hmState, hhandles, hpasses, hposts⟩ := howes
      rw [hdeliver]
      simp only [Quiet, View.progress] at *
      refine .resting ⟨hresponse, ?_, ?_, ?_, ?_⟩ ⟨?_, ?_, ?_, ?_⟩ ?_ ?_ ?_ ?_ ?_ <;>
        simp [View.serve, View.handOff, View.take, Shared.updateStream, Shared.updateResponse,
          AsyncStream.serve, AsyncStream.serveOutput, AsyncStream.markFlush, Quiet, written, *]
      exact hhandles
  | resting howes hserved hnone => exact hzero hnone
  | unreturned t hlate howes hserved hnone => exact hzero hnone
  | granted t howes hserved hnone => exact hzero hnone
  | completed ops howes hpending htable hnone => exact hzero hnone
  | outstanding ops op howes hserved hop hdata hputs hopen houtputs =>
      cases hop with
      | written t hthreads hnone => exact hzero hnone
      | stored t pc hthreads hpc hnone => exact hzero hnone
      | lost hthreads hnone => exact hzero hnone
      | posted hthreads hone hstate =>
          have hdeliver : v.deliver r = v.take.serve s := by
            have htable : v.take.table = some s := hserved.table
            simp only [View.deliver, View.wakeup, htable]
          obtain ⟨hresponse, hmState, hhandles, hpasses, hposts⟩ := howes
          obtain ⟨hpending, htable, hreturned, hdeliveries⟩ := hserved
          rw [hdeliver]
          simp only [Quiet, View.progress] at *
          cases op with
          | send body =>
              refine .resting ⟨hresponse, ?_, ?_, ?_, ?_⟩ ⟨?_, ?_, ?_, ?_⟩ ?_ ?_ ?_ ?_ ?_ <;>
                simp [View.serve, View.take, Shared.updateStream, AsyncStream.serve,
                  AsyncStream.serveOutput, AsyncStream.markFlush, Put.state, Put.output, Quiet,
                  written_concat, *]
              exact hhandles
          | close =>
              refine .completed ops ⟨hresponse, ?_, ?_, ?_, ?_⟩ ?_ ?_ ?_ ?_ ?_ ?_ ?_ ?_ <;>
                simp [View.serve, View.take, Shared.updateStream, AsyncStream.serve,
                  AsyncStream.serveOutput, AsyncStream.markCompleted, Put.state, Put.output,
                  Put.data, Quiet, written_concat, *]
              exact hhandles

theorem release_of_ne (hs : v.table = some s)
    (hstate : (v.shared.stream s.number).mState ≠ .flush) (blocked : Bool) :
    v.release blocked = v := by
  have hsame : (v.shared.stream s.number).release blocked = v.shared.stream s.number :=
    if_neg fun hflush => hstate hflush.1
  cases v
  simp_all only [View.release, Shared.updateStream, Function.update_eq_self]

/-- A write event may grant the next chunk, and does nothing else. -/
theorem release_of_resting (hs : v.table = some s) (blocked : Bool)
    (hstate : (v.shared.stream s.number).mState = .flush ∨
      (v.shared.stream s.number).mState = .empty) :
    ∃ stream : ℕ → AsyncStream,
      v.release blocked = { v with shared := { v.shared with stream := stream } } ∧
      ((stream s.number).mState = .flush ∨ (stream s.number).mState = .empty) := by
  refine ⟨Function.update v.shared.stream s.number ((v.shared.stream s.number).release blocked),
    by simp only [View.release, hs, Shared.updateStream], ?_⟩
  rw [Function.update_self, AsyncStream.release]
  split_ifs
  · exact Or.inr rfl
  · exact hstate

theorem release (h : Streaming a limit r s preamble v.progress) (blocked : Bool) :
    Streaming a limit r s preamble (v.release blocked).progress := by
  have h' := h
  cases h with
  | handed howes hpending htable =>
      rw [release_of_none htable]
      exact h'
  | resting howes hserved hflight hthreads hstate hputs houtputs =>
      obtain ⟨stream, heq, hstate⟩ := release_of_resting hserved.table blocked hstate
      rw [heq]
      exact .resting (howes.congr rfl rfl rfl rfl) (hserved.congr rfl rfl rfl rfl)
        hflight hthreads hstate hputs houtputs
  | unreturned t hlate howes hserved hflight hthreads hheld hhandles hstate hputs houtputs =>
      obtain ⟨stream, heq, hstate⟩ := release_of_resting hserved.table blocked hstate
      rw [heq]
      exact .unreturned t hlate (howes.congr rfl rfl rfl rfl) (hserved.congr rfl rfl rfl rfl)
        hflight hthreads hheld hhandles hstate hputs houtputs
  | granted t howes hserved hflight hthreads hstate =>
      rw [release_of_ne hserved.table fun hflush => absurd (hstate.symm.trans hflush) (by simp)]
      exact h'
  | outstanding ops op howes hserved hop =>
      have hop' : op.state ≠ .flush := by cases op <;> simp [Put.state]
      rw [release_of_ne hserved.table fun hflush => ?_]
      · exact h'
      · have hflush : (v.progress.stream s.number).mState = .flush := hflush
        cases hop with
        | written t hthreads hflight hstate => exact absurd (hstate.symm.trans hflush) (by simp)
        | stored t pc hthreads hpc hflight hstate => exact hop' (hstate.symm.trans hflush)
        | posted hthreads hflight hstate => exact hop' (hstate.symm.trans hflush)
        | lost hthreads hflight hstate =>
            rcases hstate with hstate | hstate
            · exact hop' (hstate.symm.trans hflush)
            · exact absurd (hstate.symm.trans hflush) (by simp)
  | completed ops howes hpending htable =>
      rw [release_of_none htable]
      exact h'

/-- `wait` of a conforming producer returns true only when everything is written. -/
theorem wait (h : Streaming a limit r s preamble v.progress) {t : ℕ} {s' : StreamRef}
    (hok : v.Conforming r (.wait t s')) (hstep : v.step r (.wait t s') = some v') :
    Streaming a limit r s preamble v'.progress := by
  have hmem := mem_handles_of_wait hstep
  obtain ⟨-, -, granted, hwait, rfl⟩ := View.step_wait hstep
  have hempty (hs : s' = s) (htrue : granted = true) :
      (v.progress.stream s.number).mState = .empty := by
    rw [htrue] at hwait
    exact hs ▸ (AsyncStream.wait_eq_true_iff _).mp hwait
  -- a stream in any other state than `empty` keeps its producer waiting
  have hother (hs : s' = s) (hstate : (v.progress.stream s.number).mState ≠ .empty) :
      granted = false := by
    cases granted with
    | false => rfl
    | true => exact absurd (hempty hs rfl) hstate
  have h' := h
  cases h with
  | handed howes _ _ _ _ _ hstate =>
      rw [hother (howes.handles s' hmem) (by rw [hstate]; simp)]
      exact h'
  | resting howes hserved hflight hthreads hstate hputs houtputs =>
      obtain rfl := howes.handles s' hmem
      cases granted with
      | false => exact h'
      | true =>
          refine .granted t (howes.congr rfl rfl rfl rfl) (hserved.congr rfl rfl rfl rfl) hflight
            ?_ (hempty rfl rfl) hputs houtputs
          exact congrArg (fun threads => Function.update threads t (.granted s')) hthreads
  | unreturned t' hlate howes hserved hflight hthreads hheld hhandles =>
      rw [hhandles] at hmem
      exact absurd hmem (by simp)
  | granted t' howes hserved hflight hthreads =>
      have hstream := hok t'
      rw [threads_of_only hthreads, howes.handles s' hmem] at hstream
      exact absurd rfl hstream
  | outstanding ops op howes hserved hop hdata hputs hopen houtputs =>
      have hs := howes.handles s' hmem
      have hop' : op.state ≠ .empty := by cases op <;> simp [Put.state]
      cases hop with
      | written t' hthreads hflight hstate =>
          have hstream := hok t'
          rw [threads_of_only hthreads, hs] at hstream
          exact absurd rfl hstream
      | stored t' pc hthreads hpc hflight hstate =>
          have hstream := hok t'
          rw [threads_of_only hthreads, hs] at hstream
          rcases hpc with rfl | rfl | rfl <;> exact absurd rfl hstream
      | posted hthreads hflight hstate =>
          rw [hother hs (by rwa [hstate])]
          exact h'
      | lost hthreads hflight hstate =>
          rw [hother hs (by rcases hstate with hstate | hstate <;> rw [hstate] <;> simp [hop'])]
          exact h'
  | completed ops howes hpending htable hflight hthreads hstate =>
      rw [hother (howes.handles s' hmem) (by rw [hstate]; simp)]
      exact h'

/-- A conforming producer fills the slot when everything before is written. -/
theorem put (h : Streaming a limit r s preamble v.progress) {t : ℕ} {s' : StreamRef} {op : Put}
    (hok : v.Conforming r (.put t s' op)) (hstep : v.step r (.put t s' op) = some v') :
    Streaming a limit r s preamble v'.progress := by
  obtain ⟨-, hreturned, rfl⟩ := View.step_put hstep
  have hmem : s' ∈ v.progress.handles := List.reduceOption_mem_iff.mpr hreturned
  have hpc : v.threads t = .granted s' := hok
  have hquiet (hthreads : v.progress.Quiet) :
      Streaming a limit r s preamble (v.commit t (v.shared.put s' op)).progress :=
    absurd hthreads (not_quiet_of_granted hpc)
  have honly {t' : ℕ} {pc : Pc} (hthreads : v.progress.Only t' pc) (hne : pc ≠ .granted s') :
      Streaming a limit r s preamble (v.commit t (v.shared.put s' op)).progress :=
    absurd (pc_of_granted hpc hthreads) hne
  -- some thread has been granted the slot, which rules out all situations but one
  cases h with
  | handed _ _ _ _ hthreads => exact hquiet hthreads
  | resting _ _ _ hthreads => exact hquiet hthreads
  | completed _ _ _ _ _ hthreads => exact hquiet hthreads
  | unreturned t' _ _ _ _ hthreads => exact honly hthreads (by simp)
  | granted t' howes hserved hflight hthreads hstate hputs houtputs =>
      obtain rfl := howes.handles s' hmem
      obtain rfl := eq_of_only hthreads (by rw [hpc]; simp)
      refine .outstanding _ op (howes.congr rfl rfl rfl rfl) (hserved.congr rfl rfl rfl rfl)
        (.written t (only_commit hthreads _) hflight ?_) ?_ ?_ hputs houtputs
      · simpa [Shared.put, Shared.updateStream] using hstate
      · simp [Shared.put, Shared.updateStream]
      · simp [Shared.put]
  | outstanding ops op' _ _ hop =>
      cases hop with
      | written t' hthreads => exact honly hthreads (by simp)
      | stored t' pc hthreads hpc =>
          exact honly hthreads (by rcases hpc with rfl | rfl | rfl <;> simp)
      | posted hthreads => exact hquiet hthreads
      | lost hthreads => exact hquiet hthreads

theorem begin (h : Streaming a limit r s preamble v.progress) {t : ℕ} {call : Call}
    (hidle : v.threads t = .idle) :
    Streaming a limit r s preamble (v.commit t (v.shared.begin r call)).progress := by
  have hmState : v.shared.response.mState = .streaming := h.mState_eq
  rw [progress_begin_of_ne (by simp [hmState]) hidle]
  exact h

/-- The accesses of a call of `send` or `close` lead from the full slot to the
wake-up in flight, unless the manager is gone or the queue is full. -/
theorem advance_outstanding {ops : List Put} {op : Put} {t : ℕ} {answer : Bool}
    (howes : v.progress.Owes limit r s) (hserved : Served a v.progress s)
    (hop : Outstanding v.progress s op) (hdata : (v.progress.stream s.number).mData = op.data)
    (hputs : v.progress.puts s.number = ops ++ [op]) (hopen : Put.close ∉ ops)
    (houtputs : v.progress.outputs = written s preamble ops) (hpc : v.threads t ≠ .idle) :
    Streaming a limit r s preamble
      (v.commit t (v.shared.advance answer (v.threads t))).progress := by
  cases hop with
  | posted hthreads => exact absurd (threads_of_quiet hthreads t) hpc
  | lost hthreads => exact absurd (threads_of_quiet hthreads t) hpc
  | written t' hthreads hflight hstate =>
      obtain rfl := eq_of_only hthreads hpc
      rw [threads_of_only hthreads]
      refine .outstanding ops op (howes.congr rfl rfl rfl rfl) (hserved.congr rfl rfl rfl rfl)
        (.stored t (.putStored s) (only_commit hthreads _) (Or.inl rfl) hflight ?_) ?_ hputs hopen
        houtputs
      · simp [Shared.advance, Shared.updateStream]
      · simpa [Shared.advance, Shared.updateStream] using hdata
  | stored t' pc hthreads hcase hflight hstate =>
      obtain rfl := eq_of_only hthreads hpc
      rw [threads_of_only hthreads]
      rcases hcase with rfl | rfl | rfl
      · cases answer with
        | true =>
            exact .outstanding ops op (howes.congr rfl rfl rfl rfl) (hserved.congr rfl rfl rfl rfl)
              (.stored t (.putLocked s) (only_commit hthreads _) (Or.inr (Or.inl rfl)) hflight
                hstate) hdata hputs hopen houtputs
        | false =>
            exact .outstanding ops op (howes.congr rfl rfl rfl rfl) (hserved.congr rfl rfl rfl rfl)
              (.lost (quiet_commit hthreads rfl) hflight (Or.inl hstate)) hdata hputs hopen houtputs
      · cases answer with
        | true =>
            refine .outstanding ops op (howes.congr rfl rfl rfl rfl) (hserved.congr rfl rfl rfl rfl)
              (.posted (quiet_commit hthreads rfl) ?_ hstate) hdata hputs hopen houtputs
            have hflight : v.inFlight = 0 := hflight
            simp [Shared.advance, hflight]
        | false =>
            exact .outstanding ops op (howes.congr rfl rfl rfl rfl) (hserved.congr rfl rfl rfl rfl)
              (.stored t (.putRefused s) (only_commit hthreads _) (Or.inr (Or.inr rfl)) hflight
                hstate) hdata hputs hopen houtputs
      · refine .outstanding ops op (howes.congr rfl rfl rfl rfl) (hserved.congr rfl rfl rfl rfl)
          (.lost (quiet_commit hthreads rfl) hflight (Or.inr ?_)) ?_ hputs hopen houtputs
        · simp [Shared.advance, Shared.updateStream, AsyncStream.markFailed]
        · simpa [Shared.advance, Shared.updateStream, AsyncStream.markFailed] using hdata

theorem advance (h : Streaming a limit r s preamble v.progress) (t : ℕ) (answer : Bool) :
    Streaming a limit r s preamble
      (v.commit t (v.shared.advance answer (v.threads t))).progress := by
  by_cases hpc : v.threads t = .idle
  · rw [advance_of_idle hpc]
    exact h
  have hquiet (hthreads : v.progress.Quiet) :
      Streaming a limit r s preamble
        (v.commit t (v.shared.advance answer (v.threads t))).progress :=
    absurd (threads_of_quiet hthreads t) hpc
  cases h with
  | handed _ _ _ _ hthreads => exact hquiet hthreads
  | resting _ _ _ hthreads => exact hquiet hthreads
  | completed _ _ _ _ _ hthreads => exact hquiet hthreads
  | unreturned t' hlate howes hserved hflight hthreads hheld hhandles hstate hputs houtputs =>
      obtain rfl := eq_of_only hthreads hpc
      rw [threads_of_only hthreads]
      -- the pointer is gone, so that the call returns null
      have hheld : v.shared.response.mStream = none := hheld
      have hhandles' : (v.commit t (v.shared.advance answer (.streamStored r))).progress.handles =
          v.progress.handles := by
        simp [Shared.advance, Shared.returns, hheld, List.reduceOption_append]
      refine .resting (howes.congr rfl hhandles' rfl rfl)
        (hserved.congr rfl rfl hhandles' rfl) hflight (quiet_commit hthreads rfl) hstate ?_ ?_
      · exact fun hclose => absurd (hputs ▸ hclose) (by simp)
      · exact houtputs.trans (congrArg _ hputs.symm)
  | granted t' howes hserved hflight hthreads hstate hputs houtputs =>
      obtain rfl := eq_of_only hthreads hpc
      rw [threads_of_only hthreads]
      exact .resting (howes.congr rfl rfl rfl rfl) (hserved.congr rfl rfl rfl rfl) hflight
        (quiet_commit hthreads rfl) (Or.inr hstate) hputs houtputs
  | outstanding ops op howes hserved hop hdata hputs hopen houtputs =>
      exact advance_outstanding howes hserved hop hdata hputs hopen houtputs hpc

/-- The protocol is kept by every step of a conforming producer and of the event loop. -/
theorem step (h : Streaming a limit r s preamble v.progress) {e : View.Event}
    (hok : v.Conforming r e) (hstep : v.step r e = some v') :
    Streaming a limit r s preamble v'.progress := by
  cases e with
  | deliver =>
      obtain ⟨hflight, rfl⟩ := View.step_deliver hstep
      exact h.deliver hflight
  | poll =>
      have hmState : v.shared.response.mState = .streaming := h.mState_eq
      rw [View.step, poll_of_ne (by simp [hmState])] at hstep
      exact Option.some.inj hstep ▸ h
  | release blocked => exact Option.some.inj hstep ▸ h.release blocked
  | headers headers => exact Option.some.inj hstep ▸ h
  | begin t call =>
      obtain ⟨hidle, rfl⟩ := View.step_begin hstep
      exact h.begin hidle
  | wait t s' => exact h.wait hok hstep
  | put t s' op => exact h.put hok hstep
  | advance t answer => exact Option.some.inj hstep ▸ h.advance t answer

/-! ### What the situations have in common -/

variable {p : Progress}

/-- A stream is still with its response, or in the table, or its terminator is written. -/
theorem handed_or_served_or_completed (h : Streaming a limit r s preamble p) :
    (p.pending = true ∧ p.table = none ∧ p.outputs = []) ∨
    (Served a p s ∧ ∃ ops, ops <+: p.puts s.number ∧ Put.close ∉ ops ∧
      p.outputs = written s preamble ops) ∨
    (p.pending = false ∧ p.table = none ∧ p.inFlight = 0 ∧
      ∃ ops, p.outputs = written s preamble ops) := by
  cases h with
  | handed _ hpending htable _ _ _ _ _ _ _ houtputs => exact Or.inl ⟨hpending, htable, houtputs⟩
  | completed ops _ hpending htable hflight _ _ _ _ houtputs =>
      exact Or.inr (Or.inr ⟨hpending, htable, hflight, _, houtputs⟩)
  | resting _ hserved _ _ _ hputs houtputs =>
      exact Or.inr (Or.inl ⟨hserved, _, List.prefix_rfl, hputs, houtputs⟩)
  | unreturned _ _ _ hserved _ _ _ _ _ _ houtputs =>
      exact Or.inr (Or.inl ⟨hserved, [], List.nil_prefix, by simp, houtputs⟩)
  | granted _ _ hserved _ _ _ hputs houtputs =>
      exact Or.inr (Or.inl ⟨hserved, _, List.prefix_rfl, hputs, houtputs⟩)
  | outstanding ops op _ hserved _ _ hputs hopen houtputs =>
      -- the last put is not written yet
      exact Or.inr (Or.inl ⟨hserved, ops, hputs ▸ List.prefix_append ops [op], hopen, houtputs⟩)

end Progress.Streaming

end Mgxx.Http
