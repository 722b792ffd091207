import Mgxx.Concurrency.Protocol

/-!
The life of a request: its response waits in the table, is called once,
posts its wake-up, and is answered or hands its stream over.  The situations
that only some orders of events lead to are guarded by what is allowed, so that
a result about runs without such an order need not look at them.
-/

namespace Mgxx.Http

open Mgxx.Library

namespace Progress

/-- The response is in the table, nothing is written for it, and `n` wake-ups
are in flight. -/
structure Waiting (p : Progress) (limit n : ℕ) : Prop where
  pending : p.pending = true
  table : p.table = none
  inFlight : p.inFlight = n
  outputs : p.outputs = []
  handles : p.handles = []
  puts : ∀ k, p.puts k = []
  passes : p.passes ≤ limit
  posts : p.posts + 1 ≤ limit + n

def IsPreamble (bytes : Bytes) : Prop := ∃ code headers, bytes = formatPreamble code headers

/-- The response holds a stream that nobody has touched. -/
structure Held (p : Progress) (r : ℕ) (s : StreamRef) : Prop where
  response : s.response = r
  mStream : p.mStream = some s
  state : (p.stream s.number).mState = .start
  data : IsPreamble (p.stream s.number).mData

/-- Where a call stands that has posted nothing. -/
inductive Calling (a : Allowed) (p : Progress) (r : ℕ) : Pc → Prop
  | sendChecked (hsend : a.send) (code : ℤ) (body : Bytes) :
      Calling a p r (.sendChecked r code body)
  | sendStored (hsend : a.send) : Calling a p r (.sendStored r)
  | sendFailed (hsend : a.send) : Calling a p r (.sendDecided r false)
  | streamChecked (code : ℤ) (encoding : Bytes) : Calling a p r (.streamChecked r code encoding)
  | streamOpened (s : StreamRef) (hheld : p.Held r s) : Calling a p r (.streamOpened r)
  | streamFailed : Calling a p r (.streamDecided r false)

inductive Posted (a : Allowed) (p : Progress) (r : ℕ) : Pc → Prop
  | send (hsend : a.send) : Posted a p r (.sendDecided r true)
  | stream (s : StreamRef) (hheld : p.Held r s) : Posted a p r (.streamDecided r true)

/-- The request has had its one answer, and left the table. -/
structure Answered (a : Allowed) (p : Progress) (limit r : ℕ) : Prop where
  pending : p.pending = false
  table : p.table = none
  inFlight : p.inFlight = 0
  passes : p.passes ≤ limit
  posts : p.posts ≤ limit
  outputs : ∃ o, p.outputs = [o] ∧ o.write.isHead = true ∧
    (o.source = .failed r ∨ o.source = .response r ∧ (a.send ∨ a.early))

/-- What is left to do for the caller of a request that has been answered. -/
inductive Rest (a : Allowed) (p : Progress) (r : ℕ) : Prop
  | quiet (hthreads : p.Quiet) (hstate : p.mState ≠ .pending)
      (hhandles : ∀ s ∈ p.handles, (p.stream s.number).mState = .start)
  | send (t : ℕ) (hsend : a.send) (hthreads : p.Only t (.sendDecided r true))
      (hhandles : p.handles = [])
  | decided (t : ℕ) (s : StreamRef) (hearly : a.early) (hthreads : p.Only t (.streamDecided r true))
      (hheld : p.Held r s) (hhandles : p.handles = [])
  | stored (t : ℕ) (s : StreamRef) (hearly : a.early) (hthreads : p.Only t (.streamStored r))
      (hstate : p.mState ≠ .pending) (hheld : p.Held r s) (hhandles : p.handles = [])

/-- The situations of a request whose calls do not overlap and whose producer conforms. -/
inductive Stage (a : Allowed) (limit r : ℕ) (p : Progress) : Prop
  | untouched (hwaiting : p.Waiting limit 0) (hthreads : p.Quiet) (hstate : p.mState = .pending)
      (hlimit : p.passes + 1 ≤ limit)
  | calling (t : ℕ) (pc : Pc) (hwaiting : p.Waiting limit 0) (hthreads : p.Only t pc)
      (hpc : Calling a p r pc) (hstate : p.mState = .pending)
  | posted (t : ℕ) (pc : Pc) (hwaiting : p.Waiting limit 1) (hthreads : p.Only t pc)
      (hpc : Posted a p r pc) (hstate : p.mState = .pending)
  | sending (hsend : a.send) (hwaiting : p.Waiting limit 1) (hthreads : p.Quiet)
      (hstate : p.mState = .sending)
  | stored (t : ℕ) (s : StreamRef) (hwaiting : p.Waiting limit 1)
      (hthreads : p.Only t (.streamStored r)) (hheld : p.Held r s) (hstate : p.mState = .streaming)
  | failed (hwaiting : p.Waiting limit 0) (hthreads : p.Quiet) (hstate : p.mState = .failed)
  | answered (hanswered : Answered a p limit r) (hrest : Rest a p r)
  | streaming (s : StreamRef) (preamble : Bytes) (hpreamble : IsPreamble preamble)
      (hstreaming : Streaming a limit r s preamble p)

theorem Waiting.congr {p p' : Progress} {limit n : ℕ} (h : p.Waiting limit n)
    (hpending : p'.pending = p.pending) (htable : p'.table = p.table)
    (hflight : p'.inFlight = p.inFlight) (houtputs : p'.outputs = p.outputs)
    (hhandles : p'.handles = p.handles) (hputs : p'.puts = p.puts)
    (hpasses : p'.passes = p.passes) (hposts : p'.posts = p.posts) : p'.Waiting limit n :=
  ⟨hpending.trans h.pending, htable.trans h.table, hflight.trans h.inFlight,
    houtputs.trans h.outputs, hhandles.trans h.handles, fun k => hputs ▸ h.puts k,
    hpasses ▸ h.passes, hposts ▸ h.posts⟩

end Progress

namespace Progress.Stage

open View

variable {a : Allowed} {limit r t : ℕ} {v v' : View}

theorem waiting_or_answered_or_streaming {p : Progress} (h : Stage a limit r p) :
    (∃ n ≤ 1, p.Waiting limit n) ∨ (Answered a p limit r ∧ Rest a p r) ∨
      ∃ s preamble, IsPreamble preamble ∧ Streaming a limit r s preamble p := by
  cases h with
  | untouched hwaiting => exact Or.inl ⟨0, Nat.zero_le 1, hwaiting⟩
  | calling _ _ hwaiting => exact Or.inl ⟨0, Nat.zero_le 1, hwaiting⟩
  | failed hwaiting => exact Or.inl ⟨0, Nat.zero_le 1, hwaiting⟩
  | posted _ _ hwaiting => exact Or.inl ⟨1, le_rfl, hwaiting⟩
  | sending _ hwaiting => exact Or.inl ⟨1, le_rfl, hwaiting⟩
  | stored _ _ hwaiting => exact Or.inl ⟨1, le_rfl, hwaiting⟩
  | answered hanswered hrest => exact Or.inr (Or.inl ⟨hanswered, hrest⟩)
  | streaming s preamble hpreamble hstreaming =>
      exact Or.inr (Or.inr ⟨s, preamble, hpreamble, hstreaming⟩)

/-- The response of a waiting request is answered with its payload. -/
theorem deliver_of_waiting (hwaiting : v.progress.Waiting limit 1)
    (hstate : v.shared.response.mState ≠ .streaming) : v.deliver r = v.take.reply r := by
  have hpending := hwaiting.pending
  have htable := hwaiting.table
  simp only [View.progress] at hpending htable
  simp [View.deliver, View.wakeup, View.take, htable, hpending, hstate]

theorem answered_reply (hwaiting : v.progress.Waiting limit 1) (hallowed : a.send ∨ a.early) :
    Answered a (v.take.reply r).progress limit r := by
  obtain ⟨-, htable, hflight, houtputs, -, -, hpasses, hposts⟩ := hwaiting
  simp only [View.progress] at *
  refine ⟨rfl, htable, by simp [View.reply, View.take, hflight], hpasses,
    Nat.le_of_succ_le_succ hposts, ?_⟩
  simp only [View.reply, View.take, houtputs, List.nil_append]
  exact ⟨_, rfl, rfl, Or.inr ⟨rfl, hallowed⟩⟩

theorem deliver (h : Stage a limit r v.progress) (hflight : 0 < v.inFlight)
    (hok : v.Permitted a r .deliver) : Stage a limit r (v.deliver r).progress := by
  have hzero (hnone : v.progress.inFlight = 0) : Stage a limit r (v.deliver r).progress :=
    absurd hnone (Nat.ne_of_gt hflight)
  obtain ⟨hearly, hlate⟩ := hok
  cases h with
  | untouched hwaiting => exact hzero hwaiting.inFlight
  | calling t pc hwaiting => exact hzero hwaiting.inFlight
  | failed hwaiting => exact hzero hwaiting.inFlight
  | answered hanswered => exact hzero hanswered.inFlight
  | posted t pc hwaiting hthreads hpc hstate =>
      have hstate : v.shared.response.mState = .pending := hstate
      rw [deliver_of_waiting hwaiting (by simp [hstate])]
      -- `send` stores its payload before it posts, so that the reply is the same before and
      -- after its last store
      cases hpc with
      | send hsend =>
          exact .answered (answered_reply hwaiting (Or.inl hsend))
            (.send t hsend hthreads hwaiting.handles)
      | stream s hheld =>
          -- the wake-up has overtaken the store of `streaming`: the response is answered
          have hearly := hearly t (threads_of_only hthreads)
          exact .answered (answered_reply hwaiting (Or.inr hearly))
            (.decided t s hearly hthreads ⟨hheld.response, hheld.mStream, hheld.state, hheld.data⟩
              hwaiting.handles)
  | sending hsend hwaiting hthreads hstate =>
      have hstate : v.shared.response.mState = .sending := hstate
      have hhandles : (v.take.reply r).progress.handles = [] := hwaiting.handles
      rw [deliver_of_waiting hwaiting (by simp [hstate])]
      refine .answered (answered_reply hwaiting (Or.inl hsend)) (.quiet hthreads ?_ ?_)
      · simp [View.reply, Shared.updateResponse, AsyncResponse.markCompleted]
      · rw [hhandles]
        simp
  | stored t s hwaiting hthreads hheld hstate =>
      -- the wake-up has overtaken the return, and takes the pointer away
      have hlate := hlate t (threads_of_only hthreads)
      have hdeliver : v.deliver r = v.take.handOff.serve s := by
        have hpending := hwaiting.pending
        have htable := hwaiting.table
        have hmStream := hheld.mStream
        simp only [View.progress] at *
        simp [View.deliver, View.wakeup, View.take, htable, hpending, hstate, hmStream]
      obtain ⟨-, -, hflight, houtputs, hhandles, hputs, hpasses, hposts⟩ := hwaiting
      obtain ⟨hresponse, hmStream, hstart, hdata⟩ := hheld
      rw [hdeliver]
      simp only [Only, View.progress] at *
      refine .streaming s (v.shared.stream s.number).mData hdata (.unreturned t hlate
        ⟨hresponse, ?_, ?_, ?_, ?_⟩ ⟨?_, ?_, Or.inl hlate, ?_⟩ ?_ ?_ ?_ ?_ ?_ ?_ ?_) <;>
        simp_all [View.serve, View.handOff, View.take, Shared.updateStream, Shared.updateResponse,
          AsyncStream.serve, AsyncStream.serveOutput, AsyncStream.markFlush, Only, written]
  | streaming s preamble hpreamble hstreaming =>
      exact .streaming s preamble hpreamble (hstreaming.deliver hflight)

theorem poll (h : Stage a limit r v.progress) : Stage a limit r (v.poll r).progress := by
  have hother {state : AsyncResponse.State} (hstate : v.progress.mState = state)
      (hne : state ≠ .failed) : Stage a limit r (v.poll r).progress := by
    rw [poll_of_ne fun hfailed => hne (hstate.symm.trans hfailed)]
    exact h
  cases h with
  | untouched _ _ hstate => exact hother hstate (by simp)
  | calling _ _ _ _ _ hstate => exact hother hstate (by simp)
  | posted _ _ _ _ _ hstate => exact hother hstate (by simp)
  | sending _ _ _ hstate => exact hother hstate (by simp)
  | stored _ _ _ _ _ hstate => exact hother hstate (by simp)
  | streaming s preamble hpreamble hstreaming =>
      exact hother hstreaming.mState_eq (by simp)
  | answered hanswered hrest =>
      have hpending : v.pending = false := hanswered.pending
      rw [View.poll, if_neg (by simp [hpending])]
      exact .answered hanswered hrest
  | failed hwaiting hthreads hstate =>
      obtain ⟨hpending, htable, hflight, houtputs, hhandles, hputs, hpasses, hposts⟩ := hwaiting
      simp only [Quiet, View.progress] at *
      rw [View.poll, if_pos ⟨hpending, hstate⟩, houtputs]
      refine .answered ⟨rfl, htable, hflight, hpasses, Nat.le_of_succ_le hposts,
        _, rfl, rfl, Or.inl rfl⟩ (.quiet hthreads (by simp [hstate]) ?_)
      simp [hhandles]

theorem release (h : Stage a limit r v.progress) (blocked : Bool) :
    Stage a limit r (v.release blocked).progress := by
  have hnone (htable : v.progress.table = none) :
      Stage a limit r (v.release blocked).progress := by
    rw [release_of_none htable]
    exact h
  rcases h.waiting_or_answered_or_streaming with ⟨n, -, hwaiting⟩ | ⟨hanswered, -⟩ |
    ⟨s, preamble, hpreamble, hstreaming⟩
  · exact hnone hwaiting.table
  · exact hnone hanswered.table
  · exact .streaming s preamble hpreamble (hstreaming.release blocked)

/-- A call that finds the response settled leaves the situation as it is. -/
theorem begin_of_ne (h : Stage a limit r v.progress) (hidle : v.threads t = .idle)
    {state : AsyncResponse.State} (hstate : v.progress.mState = state) (hne : state ≠ .pending)
    (call : Call) : Stage a limit r (v.commit t (v.shared.begin r call)).progress := by
  rw [progress_begin_of_ne (fun hpending => hne (hstate.symm.trans hpending)) hidle]
  exact h

theorem begin (h : Stage a limit r v.progress) {call : Call} (hidle : v.threads t = .idle)
    (hok : v.Conforming r (.begin t call)) (hpermitted : v.Permitted a r (.begin t call)) :
    Stage a limit r (v.commit t (v.shared.begin r call)).progress := by
  have hdeciding {t' : ℕ} {pc : Pc} (hthreads : v.progress.Only t' pc)
      (hpc : pc.deciding = some r) :
      Stage a limit r (v.commit t (v.shared.begin r call)).progress := by
    have hnot := hok t'
    rw [threads_of_only hthreads] at hnot
    exact absurd hpc hnot
  have h' := h
  cases h with
  | untouched hwaiting hthreads hstate hlimit =>
      have hstate' : v.shared.response.mState = .pending := hstate
      have hone (pc : Pc) (access : Access) (hpc : access.pc = pc) :
          (v.commit t access).progress.Only t pc := by
        have hthreads : v.threads = fun _ => .idle := hthreads
        simp only [Only, View.progress, View.commit, hthreads, hpc]
      cases call with
      | send code body =>
          have hbegin : v.shared.begin r (.send code body) =
              { shared := v.shared.pass, pc := .sendChecked r code body } := by
            simp [Shared.begin, hstate']
          rw [hbegin]
          refine .calling t _ ?_ (hone _ _ rfl) (.sendChecked hpermitted code body) hstate
          exact ⟨hwaiting.pending, hwaiting.table, hwaiting.inFlight, hwaiting.outputs,
            hwaiting.handles, hwaiting.puts, hlimit, hwaiting.posts⟩
      | stream code encoding =>
          have hbegin : v.shared.begin r (.stream code encoding) =
              { shared := v.shared.pass, pc := .streamChecked r code encoding } := by
            simp [Shared.begin, hstate']
          rw [hbegin]
          refine .calling t _ ?_ (hone _ _ rfl) (.streamChecked code encoding) hstate
          exact ⟨hwaiting.pending, hwaiting.table, hwaiting.inFlight, hwaiting.outputs,
            hwaiting.handles, hwaiting.puts, hlimit, hwaiting.posts⟩
  | calling t' pc hwaiting hthreads hpc => exact hdeciding hthreads (by cases hpc <;> rfl)
  | posted t' pc hwaiting hthreads hpc => exact hdeciding hthreads (by cases hpc <;> rfl)
  | sending _ _ _ hstate => exact h'.begin_of_ne hidle hstate (by simp) call
  | stored _ _ _ _ _ hstate => exact h'.begin_of_ne hidle hstate (by simp) call
  | failed _ _ hstate => exact h'.begin_of_ne hidle hstate (by simp) call
  | streaming s preamble hpreamble hstreaming =>
      exact h'.begin_of_ne hidle hstreaming.mState_eq (by simp) call
  | answered hanswered hrest =>
      cases hrest with
      | quiet hthreads hstate => exact h'.begin_of_ne hidle rfl hstate call
      | stored t' s hearly hthreads hstate => exact h'.begin_of_ne hidle rfl hstate call
      | send t' hsend hthreads => exact hdeciding hthreads rfl
      | decided t' s hearly hthreads => exact hdeciding hthreads rfl

theorem wait (h : Stage a limit r v.progress) {s : StreamRef}
    (hok : v.Conforming r (.wait t s)) (hstep : v.step r (.wait t s) = some v') :
    Stage a limit r v'.progress := by
  have hmem := mem_handles_of_wait hstep
  have hnone (hhandles : v.progress.handles = []) : Stage a limit r v'.progress := by
    rw [hhandles] at hmem
    exact absurd hmem (by simp)
  rcases h.waiting_or_answered_or_streaming with ⟨n, -, hwaiting⟩ | ⟨-, hrest⟩ |
    ⟨s', preamble, hpreamble, hstreaming⟩
  · exact hnone hwaiting.handles
  · cases hrest with
    | quiet hthreads hstate hhandles =>
        -- the stream will never be served, and keeps its producer waiting
        have hstart : (v.shared.stream s.number).mState = .start := hhandles s hmem
        simp [View.step, AsyncStream.wait, hstart] at hstep
    | stored t' s' hearly hthreads hstate hheld hhandles => exact hnone hhandles
    | send t' hsend hthreads hhandles => exact hnone hhandles
    | decided t' s' hearly hthreads hheld hhandles => exact hnone hhandles
  · exact .streaming s' preamble hpreamble (hstreaming.wait hok hstep)

theorem put (h : Stage a limit r v.progress) {s : StreamRef} {op : Put}
    (hok : v.Conforming r (.put t s op)) (hstep : v.step r (.put t s op) = some v') :
    Stage a limit r v'.progress := by
  have hpc : v.threads t = .granted s := hok
  have hquiet (hthreads : v.progress.Quiet) : Stage a limit r v'.progress :=
    absurd hthreads (not_quiet_of_granted hpc)
  have honly {t' : ℕ} {pc : Pc} (hthreads : v.progress.Only t' pc) (hne : pc ≠ .granted s) :
      Stage a limit r v'.progress :=
    absurd (pc_of_granted hpc hthreads) hne
  cases h with
  | untouched _ hthreads => exact hquiet hthreads
  | sending _ _ hthreads => exact hquiet hthreads
  | failed _ hthreads => exact hquiet hthreads
  | stored _ _ _ hthreads => exact honly hthreads (by simp)
  | calling _ pc _ hthreads hcalling => exact honly hthreads (by cases hcalling <;> simp)
  | posted _ pc _ hthreads hposted => exact honly hthreads (by cases hposted <;> simp)
  | streaming s' preamble hpreamble hstreaming =>
      exact .streaming s' preamble hpreamble (hstreaming.put hok hstep)
  | answered hanswered hrest =>
      cases hrest with
      | quiet hthreads => exact hquiet hthreads
      | stored _ _ _ hthreads => exact honly hthreads (by simp)
      | send _ _ hthreads => exact honly hthreads (by simp)
      | decided _ _ _ hthreads => exact honly hthreads (by simp)

/-- The accesses of a call that has posted nothing yet. -/
theorem advance_calling {pc : Pc} (hwaiting : v.progress.Waiting limit 0)
    (hthreads : v.progress.Only t pc) (hpc : Calling a v.progress r pc)
    (hstate : v.progress.mState = .pending) (answer : Bool) :
    Stage a limit r (v.commit t (v.shared.advance answer pc)).progress := by
  -- whatever is posted, the view counts it
  have hpost : (v.commit t
      { shared := v.shared.post, pc := pc, posted := [(0, 0)] }).progress.Waiting limit 1 := by
    obtain ⟨hpending, htable, hflight, houtputs, hhandles, hputs, hpasses, hposts⟩ := hwaiting
    have hflight : v.inFlight = 0 := hflight
    exact ⟨hpending, htable, by simp [hflight], houtputs, hhandles, hputs, hpasses,
      Nat.succ_le_succ hposts⟩
  cases hpc with
  | sendChecked hsend code body =>
      cases answer with
      | true =>
          exact .calling t _ (hwaiting.congr rfl rfl rfl rfl rfl rfl rfl rfl)
            (only_commit hthreads _) (.sendStored hsend) hstate
      | false =>
          exact .calling t _ (hwaiting.congr rfl rfl rfl rfl rfl rfl rfl rfl)
            (only_commit hthreads _) (.sendFailed hsend) hstate
  | sendStored hsend =>
      cases answer with
      | true =>
          exact .posted t _ (hpost.congr rfl rfl rfl rfl rfl rfl rfl rfl)
            (only_commit hthreads _) (.send hsend) hstate
      | false =>
          exact .calling t _ (hwaiting.congr rfl rfl rfl rfl rfl rfl rfl rfl)
            (only_commit hthreads _) (.sendFailed hsend) hstate
  | sendFailed hsend =>
      exact .failed (hwaiting.congr rfl rfl rfl rfl rfl rfl rfl rfl)
        (quiet_commit hthreads rfl) rfl
  | streamChecked code encoding =>
      cases answer with
      | true =>
          refine .calling t _ (hwaiting.congr rfl rfl rfl rfl rfl rfl rfl rfl)
            (only_commit hthreads _)
            (.streamOpened ⟨r, v.shared.made⟩ ⟨rfl, rfl, ?_, code,
              (v.shared.response.frameHeaders encoding).mHeaders.format, ?_⟩) hstate
          · simp [Shared.advance, Shared.openStream]
          · simp [Shared.advance, Shared.openStream, AsyncResponse.preamble]
      | false =>
          exact .calling t _ (hwaiting.congr rfl rfl rfl rfl rfl rfl rfl rfl)
            (only_commit hthreads _) .streamFailed hstate
  | streamOpened s hheld =>
      cases answer with
      | true =>
          exact .posted t _ (hpost.congr rfl rfl rfl rfl rfl rfl rfl rfl)
            (only_commit hthreads _)
            (.stream s ⟨hheld.response, hheld.mStream, hheld.state, hheld.data⟩) hstate
      | false =>
          exact .calling t _ (hwaiting.congr rfl rfl rfl rfl rfl rfl rfl rfl)
            (only_commit hthreads _) .streamFailed hstate
  | streamFailed =>
      refine .failed (hwaiting.congr rfl rfl rfl rfl ?_ rfl rfl rfl) (quiet_commit hthreads rfl) rfl
      simp [Shared.advance, Shared.updateResponse, Shared.returns, List.reduceOption_append]

/-- The return of a call that has stored `streaming`. -/
theorem handles_return (hhandles : v.progress.handles = []) {s : StreamRef}
    (hheld : v.progress.Held r s) (answer : Bool) :
    (v.commit t (v.shared.advance answer (.streamStored r))).progress.handles = [s] := by
  have hhandles : v.shared.history.returned.reduceOption = [] := hhandles
  have hmStream : v.shared.response.mStream = some s := hheld.mStream
  simp [Shared.advance, Shared.returns, List.reduceOption_append, hhandles, hmStream]

theorem advance_rest (hanswered : Answered a v.progress limit r) (hrest : Rest a v.progress r)
    (hpc : v.threads t ≠ .idle) (answer : Bool) :
    Stage a limit r (v.commit t (v.shared.advance answer (v.threads t))).progress := by
  obtain ⟨hpending, htable, hflight, hpasses, hposts, houtputs⟩ := hanswered
  cases hrest with
  | quiet hthreads => exact absurd (threads_of_quiet hthreads t) hpc
  | send t' hsend hthreads hhandles =>
      obtain rfl := eq_of_only hthreads hpc
      rw [threads_of_only hthreads]
      have hhandles' :
          (v.commit t (v.shared.advance answer (.sendDecided r true))).progress.handles = [] :=
        hhandles
      refine .answered ⟨hpending, htable, hflight, hpasses, hposts, houtputs⟩
        (.quiet (quiet_commit hthreads rfl) ?_ ?_)
      · simp [Shared.advance, Shared.updateResponse]
      · rw [hhandles']
        simp
  | decided t' s hearly hthreads hheld hhandles =>
      obtain rfl := eq_of_only hthreads hpc
      rw [threads_of_only hthreads]
      refine .answered ⟨hpending, htable, hflight, hpasses, hposts, houtputs⟩
        (.stored t s hearly (only_commit hthreads _) ?_
          ⟨hheld.response, hheld.mStream, hheld.state, hheld.data⟩ hhandles)
      simp [Shared.advance, Shared.updateResponse]
  | stored t' s hearly hthreads hstate hheld hhandles =>
      obtain rfl := eq_of_only hthreads hpc
      rw [threads_of_only hthreads]
      refine .answered ⟨hpending, htable, hflight, hpasses, hposts, houtputs⟩
        (.quiet (quiet_commit hthreads rfl) hstate ?_)
      intro s' hs'
      rw [handles_return hhandles hheld] at hs'
      exact List.mem_singleton.mp hs' ▸ hheld.state

theorem advance (h : Stage a limit r v.progress) (t : ℕ) (answer : Bool) :
    Stage a limit r (v.commit t (v.shared.advance answer (v.threads t))).progress := by
  by_cases hpc : v.threads t = .idle
  · rw [advance_of_idle hpc]
    exact h
  have hquiet (hthreads : v.progress.Quiet) :
      Stage a limit r (v.commit t (v.shared.advance answer (v.threads t))).progress :=
    absurd (threads_of_quiet hthreads t) hpc
  cases h with
  | untouched _ hthreads => exact hquiet hthreads
  | sending _ _ hthreads => exact hquiet hthreads
  | failed _ hthreads => exact hquiet hthreads
  | streaming s preamble hpreamble hstreaming =>
      exact .streaming s preamble hpreamble (hstreaming.advance t answer)
  | answered hanswered hrest => exact advance_rest hanswered hrest hpc answer
  | calling t' pc hwaiting hthreads hcalling hstate =>
      obtain rfl := eq_of_only hthreads hpc
      rw [threads_of_only hthreads]
      exact advance_calling hwaiting hthreads hcalling hstate answer
  | posted t' pc hwaiting hthreads hposted hstate =>
      obtain rfl := eq_of_only hthreads hpc
      rw [threads_of_only hthreads]
      cases hposted with
      | send hsend =>
          exact .sending hsend (hwaiting.congr rfl rfl rfl rfl rfl rfl rfl rfl)
            (quiet_commit hthreads rfl) rfl
      | stream s hheld =>
          exact .stored t s (hwaiting.congr rfl rfl rfl rfl rfl rfl rfl rfl)
            (only_commit hthreads _) ⟨hheld.response, hheld.mStream, hheld.state, hheld.data⟩ rfl
  | stored t' s hwaiting hthreads hheld hstate =>
      obtain rfl := eq_of_only hthreads hpc
      rw [threads_of_only hthreads]
      have hhandles := handles_return (t := t) hwaiting.handles hheld answer
      refine .streaming s (v.shared.stream s.number).mData hheld.data
        (.handed ⟨hheld.response, hstate, ?_, hwaiting.passes,
            Nat.le_of_succ_le_succ hwaiting.posts⟩
          hwaiting.pending hwaiting.table hwaiting.inFlight (quiet_commit hthreads rfl)
          hheld.mStream hheld.state rfl ?_ (hwaiting.puts _) hwaiting.outputs)
      · rw [hhandles]
        simp
      · rw [hhandles]
        simp

/-- Every permitted step of a conforming use leads from situation to situation. -/
theorem step (h : Stage a limit r v.progress) {e : View.Event} (hok : v.Conforming r e)
    (hpermitted : v.Permitted a r e) (hstep : v.step r e = some v') :
    Stage a limit r v'.progress := by
  cases e with
  | deliver =>
      obtain ⟨hflight, rfl⟩ := View.step_deliver hstep
      exact h.deliver hflight hpermitted
  | poll => exact Option.some.inj hstep ▸ h.poll
  | release blocked => exact Option.some.inj hstep ▸ h.release blocked
  | headers headers => exact Option.some.inj hstep ▸ h
  | begin t call =>
      obtain ⟨hidle, rfl⟩ := View.step_begin hstep
      exact h.begin hidle hok hpermitted
  | wait t s => exact h.wait hok hstep
  | put t s op => exact h.put hok hstep
  | advance t answer => exact Option.some.inj hstep ▸ h.advance t answer

/-! ### What the situations have in common -/

variable {p : Progress}

/-- A wake-up in flight finds its request in exactly one of the tables. -/
theorem entry (h : Stage a limit r p) (hflight : 0 < p.inFlight) :
    p.pending = true ∧ p.table = none ∨ p.pending = false ∧ ∃ s, p.table = some s := by
  rcases h.waiting_or_answered_or_streaming with ⟨n, -, hwaiting⟩ | ⟨hanswered, -⟩ |
    ⟨s, preamble, -, hstreaming⟩
  · exact Or.inl ⟨hwaiting.pending, hwaiting.table⟩
  · exact absurd hanswered.inFlight (Nat.ne_of_gt hflight)
  · rcases hstreaming.handed_or_served_or_completed with ⟨hpending, htable, -⟩ | ⟨hserved, -⟩ |
      ⟨-, -, hnone, -⟩
    · exact Or.inl ⟨hpending, htable⟩
    · exact Or.inr ⟨hserved.pending, s, hserved.table⟩
    · exact absurd hnone (Nat.ne_of_gt hflight)

/-- A call that has posted nothing has the request to itself, and the request is
waiting for it. -/
theorem waiting_of_unposted (h : Stage a limit r p) {t r' : ℕ}
    (ht : (p.threads t).unposted = some r') :
    p.Waiting limit 0 ∧ p.Only t (p.threads t) ∧ p.mState = .pending := by
  have hquiet (hthreads : p.Quiet) : ¬(p.threads t).unposted = some r' := by
    rw [show p.threads t = .idle from congrFun hthreads t]
    simp [Pc.unposted]
  have honly {t' : ℕ} {pc : Pc} (hthreads : p.Only t' pc) :
      t = t' ∧ p.threads t = pc ∧ pc.unposted = some r' := by
    have hthread : p.threads t = Function.update (fun _ => Pc.idle) t' pc t := congrFun hthreads t
    by_cases htt : t = t'
    · rw [htt, Function.update_self] at hthread
      exact ⟨htt, htt ▸ hthread, hthread ▸ htt ▸ ht⟩
    · rw [hthread, Function.update_of_ne htt] at ht
      exact absurd ht (by simp [Pc.unposted])
  have hposted {t' : ℕ} {pc : Pc} {α : Prop} (hthreads : p.Only t' pc)
      (hpc : pc.unposted = none) : α := by
    obtain ⟨-, -, hsome⟩ := honly hthreads
    exact absurd (hpc.symm.trans hsome) (by simp)
  cases h with
  | untouched _ hthreads => exact absurd ht (hquiet hthreads)
  | sending _ _ hthreads => exact absurd ht (hquiet hthreads)
  | failed _ hthreads => exact absurd ht (hquiet hthreads)
  | calling t' pc hwaiting hthreads _ hstate =>
      obtain ⟨rfl, heq, -⟩ := honly hthreads
      exact ⟨hwaiting, heq ▸ hthreads, hstate⟩
  | posted t' pc _ hthreads hpc => exact hposted hthreads (by cases hpc <;> rfl)
  | stored t' s _ hthreads => exact hposted hthreads rfl
  | answered _ hrest =>
      cases hrest with
      | quiet hthreads => exact absurd ht (hquiet hthreads)
      | send t' _ hthreads => exact hposted hthreads rfl
      | decided t' _ _ hthreads => exact hposted hthreads rfl
      | stored t' _ _ hthreads => exact hposted hthreads rfl
  | streaming s preamble _ hstreaming =>
      cases hstreaming with
      | handed _ _ _ _ hthreads => exact absurd ht (hquiet hthreads)
      | resting _ _ _ hthreads => exact absurd ht (hquiet hthreads)
      | completed _ _ _ _ _ hthreads => exact absurd ht (hquiet hthreads)
      | unreturned t' _ _ _ _ hthreads => exact hposted hthreads rfl
      | granted t' _ _ _ hthreads => exact hposted hthreads rfl
      | outstanding _ _ _ _ hop =>
          cases hop with
          | written t' hthreads => exact hposted hthreads rfl
          | stored t' pc hthreads hpc =>
              exact hposted hthreads (by rcases hpc with rfl | rfl | rfl <;> rfl)
          | posted hthreads => exact absurd ht (hquiet hthreads)
          | lost hthreads => exact absurd ht (hquiet hthreads)

/-- What has been written: nothing, one reply, or a preamble and chunks. -/
theorem outputs (h : Stage a limit r p) :
    p.outputs = [] ∨
    (∃ o, p.outputs = [o] ∧ o.write.isHead = true ∧
      (o.source = .failed r ∨ o.source = .response r ∧ (a.send ∨ a.early))) ∨
    ∃ s preamble ops, p.outputs = written s preamble ops := by
  rcases h.waiting_or_answered_or_streaming with ⟨n, -, hwaiting⟩ | ⟨hanswered, -⟩ |
    ⟨s, preamble, -, hstreaming⟩
  · exact Or.inl hwaiting.outputs
  · exact Or.inr (Or.inl hanswered.outputs)
  · rcases hstreaming.handed_or_served_or_completed with ⟨-, -, houtputs⟩ |
      ⟨-, ops, -, -, houtputs⟩ | ⟨-, -, -, ops, houtputs⟩
    · exact Or.inl houtputs
    · exact Or.inr (Or.inr ⟨s, preamble, ops, houtputs⟩)
    · exact Or.inr (Or.inr ⟨s, preamble, ops, houtputs⟩)

/-- Who has written: the poll, a stream, or the response where that is allowed. -/
theorem source_of_mem_outputs (h : Stage a limit r p) {o : Output} (ho : o ∈ p.outputs) :
    o.source = .failed r ∨ o.source = .response r ∧ (a.send ∨ a.early) ∨
      ∃ s, o.source = .stream s := by
  rcases h.outputs with hnil | ⟨o', houtputs, -, hsource⟩ | ⟨s, preamble, ops, houtputs⟩
  · rw [hnil] at ho
    exact absurd ho (by simp)
  · rw [houtputs] at ho
    obtain rfl := List.mem_singleton.mp ho
    exact hsource.imp_right Or.inl
  · rw [houtputs] at ho
    exact Or.inr (Or.inr ⟨s, source_of_mem_written ho⟩)

end Progress.Stage

end Mgxx.Http
