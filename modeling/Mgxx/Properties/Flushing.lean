import Mgxx.Concurrency.Attendance
import Mgxx.Properties.Appending
import Mgxx.Properties.Chunks

/-!
What a stream that waits for the flush waits for: it has just written the preamble or a chunk,
so that its connection has bytes to send, or a write event is due for them.
-/

namespace Mgxx.Http

open Mgxx.Library

namespace Progress.Streaming

open View

variable {a : Allowed} {limit r : ℕ} {s : StreamRef} {preamble : Bytes} {v v' : View}

/-- A delivery writes the preamble, or what the producer has put into the slot. -/
theorem serves_deliver (h : Streaming a limit r s preamble v.progress) (hflight : 0 < v.inFlight) :
    ((v.shared.stream s.number).mState = .start ∧
        ((v.deliver r).shared.stream s.number).mState = .flush ∧
        (v.deliver r).outputs = v.outputs ++ [⟨.stream s, .send preamble⟩]) ∨
      ∃ op ∈ v.shared.history.puts s.number, (v.shared.stream s.number).mState = op.state ∧
        (((v.deliver r).shared.stream s.number).mState = .flush ∨
          ((v.deliver r).shared.stream s.number).mState = .completed) ∧
        (v.deliver r).outputs = v.outputs ++ [op.output s] := by
  have hzero {P : Prop} (hnone : v.progress.inFlight = 0) : P :=
    absurd hnone (Nat.ne_of_gt hflight)
  cases h with
  | resting _ _ hnone => exact hzero hnone
  | unreturned _ _ _ _ hnone => exact hzero hnone
  | granted _ _ _ hnone => exact hzero hnone
  | completed _ _ _ _ hnone => exact hzero hnone
  | handed howes hpending htable _ _ hheld hstate hdata _ _ _ =>
      have hdeliver : v.deliver r = v.take.handOff.serve s :=
        deliver_of_held hpending htable howes.mState hheld
      have hstate : (v.shared.stream s.number).mState = .start := hstate
      have hdata : (v.shared.stream s.number).mData = preamble := hdata
      refine Or.inl ⟨hstate, ?_, ?_⟩ <;>
        simp [hdeliver, View.serve, View.handOff, View.take, Shared.updateStream,
          Shared.updateResponse, AsyncStream.serve, AsyncStream.serveOutput, AsyncStream.markFlush,
          hstate, hdata]
  | outstanding ops op _ hserved hop hdata hputs _ _ =>
      cases hop with
      | written _ _ hnone => exact hzero hnone
      | stored _ _ _ _ hnone => exact hzero hnone
      | lost _ hnone => exact hzero hnone
      | posted _ _ hstate =>
          have hdeliver : v.deliver r = v.take.serve s := deliver_of_table hserved.table
          have hstate : (v.shared.stream s.number).mState = op.state := hstate
          have hdata : (v.shared.stream s.number).mData = op.data := hdata
          have hputs : v.shared.history.puts s.number = ops ++ [op] := hputs
          have hmem : op ∈ v.shared.history.puts s.number :=
            hputs ▸ List.mem_append_right _ (List.mem_singleton_self op)
          refine Or.inr ⟨op, hmem, hstate, ?_, ?_⟩
          · cases op with
            | send body =>
                exact Or.inl (by simp [hdeliver, View.serve, View.take, Shared.updateStream,
                  AsyncStream.serve, AsyncStream.markFlush, hstate, Put.state])
            | close =>
                exact Or.inr (by simp [hdeliver, View.serve, View.take, Shared.updateStream,
                  AsyncStream.serve, AsyncStream.markCompleted, hstate, Put.state])
          · cases op <;> simp [hdeliver, View.serve, View.take, AsyncStream.serveOutput, hstate,
              hdata, Put.state, Put.output, Put.data]

/-- An access of a worker leaves the state alone, fills the free slot, or fails the stream. -/
theorem mState_advance (h : Streaming a limit r s preamble v.progress) (t : ℕ) (answer : Bool) :
    ((v.shared.advance answer (v.threads t)).shared.stream s.number).mState =
        (v.shared.stream s.number).mState ∨
      (v.shared.stream s.number).mState = .empty ∧
        (∃ op : Put, ((v.shared.advance answer (v.threads t)).shared.stream s.number).mState =
          op.state) ∨
      ((v.shared.advance answer (v.threads t)).shared.stream s.number).mState = .failed := by
  by_cases hidle : v.threads t = .idle
  · exact Or.inl (by rw [hidle]; rfl)
  · have hquiet (hthreads : v.progress.Quiet) : v.threads t = .idle := threads_of_quiet hthreads t
    have honly {t' : ℕ} {pc : Pc} (hthreads : v.progress.Only t' pc) : v.threads t = pc := by
      obtain rfl := eq_of_only hthreads hidle
      exact threads_of_only hthreads
    cases h with
    | handed _ _ _ _ hthreads => exact absurd (hquiet hthreads) hidle
    | resting _ _ _ hthreads => exact absurd (hquiet hthreads) hidle
    | completed _ _ _ _ _ hthreads => exact absurd (hquiet hthreads) hidle
    | unreturned _ _ _ _ _ hthreads => exact Or.inl (by rw [honly hthreads]; rfl)
    | granted _ _ _ _ hthreads => exact Or.inl (by rw [honly hthreads]; rfl)
    | outstanding _ op _ _ hop =>
        cases hop with
        | written _ hthreads _ hstate =>
            rw [honly hthreads]
            exact Or.inr (Or.inl ⟨hstate, op, by simp [Shared.advance, Shared.updateStream]⟩)
        | posted hthreads => exact absurd (hquiet hthreads) hidle
        | lost hthreads => exact absurd (hquiet hthreads) hidle
        | stored _ pc hthreads hpc =>
            rw [honly hthreads]
            rcases hpc with rfl | rfl | rfl
            · exact Or.inl (by cases answer <;> rfl)
            · exact Or.inl (by cases answer <;> rfl)
            · exact Or.inr (Or.inr (by
                simp [Shared.advance, Shared.updateStream, AsyncStream.markFailed]))

/-- So does every step but a delivery and a write event. -/
theorem mState_step (h : Streaming a limit r s preamble v.progress) {ve : View.Event}
    (hdeliver : ve ≠ .deliver) (hrelease : ∀ blocked, ve ≠ .release blocked)
    (hstep : v.step r ve = some v') :
    (v'.shared.stream s.number).mState = (v.shared.stream s.number).mState ∨
      (v.shared.stream s.number).mState = .empty ∧
        (∃ op : Put, (v'.shared.stream s.number).mState = op.state) ∨
      (v'.shared.stream s.number).mState = .failed := by
  cases ve with
  | deliver => exact absurd rfl hdeliver
  | release blocked => exact absurd rfl (hrelease blocked)
  | poll =>
      obtain rfl := Option.some.inj hstep
      exact Or.inl (by rw [shared_poll])
  | headers headers =>
      obtain rfl := Option.some.inj hstep
      exact Or.inl rfl
  | begin t call =>
      obtain ⟨-, rfl⟩ := step_begin hstep
      refine Or.inl ?_
      show ((v.shared.begin r call).shared.stream s.number).mState = _
      rw [Shared.stream_begin]
  | wait t s' =>
      obtain ⟨-, -, granted, -, rfl⟩ := step_wait hstep
      exact Or.inl (by cases granted <;> rfl)
  | put t s' op =>
      obtain ⟨-, -, rfl⟩ := step_put hstep
      refine Or.inl ?_
      by_cases hn : s.number = s'.number
      · simp [Shared.put, Shared.updateStream, hn]
      · simp [Shared.put, Shared.updateStream, Function.update_of_ne hn]
  | advance t answer =>
      obtain rfl := Option.some.inj hstep
      exact h.mState_advance t answer

/-- A stream that is not in the table is at its start or at its end. -/
theorem table_cases (h : Streaming a limit r s preamble v.progress) :
    v.table = some s ∨ v.table = none ∧ (v.shared.stream s.number).mState ≠ .flush := by
  have hgone {state : AsyncStream.State} (htable : v.progress.table = none)
      (hstate : (v.progress.stream s.number).mState = state) (hne : state ≠ .flush) :
      v.table = some s ∨ v.table = none ∧ (v.shared.stream s.number).mState ≠ .flush :=
    Or.inr ⟨htable, fun hflush => hne (hstate.symm.trans hflush)⟩
  cases h with
  | handed _ _ htable _ _ _ hstate => exact hgone htable hstate (by simp)
  | resting _ hserved => exact Or.inl hserved.table
  | unreturned _ _ _ hserved => exact Or.inl hserved.table
  | granted _ _ hserved => exact Or.inl hserved.table
  | outstanding _ _ _ hserved => exact Or.inl hserved.table
  | completed _ _ _ htable _ _ hstate => exact hgone htable hstate (by simp)

theorem table_of_flush (h : Streaming a limit r s preamble v.progress)
    (hflush : (v.shared.stream s.number).mState = .flush) : v.table = some s :=
  h.table_cases.resolve_right fun hgone => hgone.2 hflush

theorem eq_of_table (h : Streaming a limit r s preamble v.progress) {s' : StreamRef}
    (htable : v.table = some s') : s' = s := by
  rcases h.table_cases with hsome | ⟨hnone, -⟩
  · exact Option.some.inj (htable.symm.trans hsome)
  · exact absurd (htable.symm.trans hnone) (by simp)

/-- Only a delivery makes a stream wait for the flush. -/
theorem flush_of_step (h : Streaming a limit r s preamble v.progress) {ve : View.Event}
    (hdeliver : ve ≠ .deliver) (hstep : v.step r ve = some v')
    (hflush : (v'.shared.stream s.number).mState = .flush) :
    (v.shared.stream s.number).mState = .flush := by
  by_cases hrelease : ∃ blocked, ve = .release blocked
  · obtain ⟨blocked, rfl⟩ := hrelease
    obtain rfl := Option.some.inj hstep
    unfold View.release at hflush
    split at hflush
    · exact hflush
    · next s' _ =>
        by_cases hs : s'.number = s.number
        · rw [hs] at hflush
          simp only [Shared.updateStream, Function.update_self, AsyncStream.release] at hflush
          split_ifs at hflush with hfree
          · simp [AsyncStream.markEmpty] at hflush
          · exact hflush
        · simpa [Shared.updateStream, Function.update_of_ne (Ne.symm hs)] using hflush
  · rcases h.mState_step hdeliver (fun blocked he => hrelease ⟨blocked, he⟩) hstep with
      hsame | ⟨-, op, hfull⟩ | hfailed
    · exact hsame ▸ hflush
    · rw [hfull] at hflush
      cases op <;> simp [Put.state] at hflush
    · simp [hfailed] at hflush

end Progress.Streaming

open Progress (IsPreamble)

/-- A stream that is new holds a preamble, and one that has not written it yet is changed by the
call that fills its slot only. -/
theorem Shared.isPreamble_advance (q : Shared) {answer : Bool} {pc : Pc} {n : ℕ}
    (hn : n < (q.advance answer pc).shared.made)
    (hstart : ((q.advance answer pc).shared.stream n).mState = .start) :
    IsPreamble ((q.advance answer pc).shared.stream n).mData ∨
      n < q.made ∧ (q.advance answer pc).shared.stream n = q.stream n ∧
        ∀ s op, pc = .putWritten s op → s.number ≠ n := by
  by_cases hmade : n < q.made
  · by_cases hpc : ∃ s, pc.stream = some s ∧ s.number = n
    · obtain ⟨s, hs, rfl⟩ := hpc
      cases pc with
      | putWritten s' op =>
          obtain rfl : s' = s := Option.some.inj hs
          cases op <;> simp [advance, updateStream, Put.state] at hstart
      | putRefused s' =>
          obtain rfl : s' = s := Option.some.inj hs
          simp [advance, updateStream, AsyncStream.markFailed] at hstart
      | granted _ => exact Or.inr ⟨hmade, rfl, by simp⟩
      | putStored _ | putLocked _ => cases answer <;> exact Or.inr ⟨hmade, rfl, by simp⟩
      | idle | sendChecked _ _ _ | sendStored _ | sendDecided _ _ | streamChecked _ _ _
      | streamOpened _ | streamDecided _ _ | streamStored _ => simp [Pc.stream] at hs
    · have hne (s : StreamRef) (hs : pc.stream = some s) : s.number ≠ n := fun hn => hpc ⟨s, hs, hn⟩
      exact Or.inr ⟨hmade, q.stream_advance_of_ne hmade hne answer, fun s op he => hne s (he ▸ rfl)⟩
  · have hsame {P : Prop} (hmade' : (q.advance answer pc).shared.made = q.made) : P :=
      absurd (hmade' ▸ hn) hmade
    cases pc with
    | streamChecked r code encoding =>
        cases answer with
        | false => exact hsame rfl
        | true =>
            obtain rfl : n = q.made := Nat.le_antisymm (Nat.lt_succ_iff.mp hn) (Nat.not_lt.mp hmade)
            refine Or.inl ⟨code, (q.response.frameHeaders encoding).mHeaders.format, ?_⟩
            simp [advance, openStream, AsyncResponse.makeStream, AsyncResponse.preamble]
    | idle | granted _ | sendDecided _ _ | streamStored _ | putWritten _ _ | putRefused _ =>
        exact hsame rfl
    | streamDecided r ok => cases ok <;> exact hsame rfl
    | sendChecked _ _ _ | sendStored _ | streamOpened _ | putStored _ | putLocked _ =>
        cases answer <;> exact hsame rfl

namespace Config

variable {mg : Mongoose} {cfg cfg' cfg₀ cfg₁ : Config} {r : ℕ} {s : StreamRef}

/-- A stream that has not written its preamble holds it, unless a call has overwritten it. -/
def Preambled (cfg : Config) (s : StreamRef) : Prop :=
  s.number < cfg.world.made s.response → (cfg.world.streams s).mState = .start →
    IsPreamble (cfg.world.streams s).mData ∨ ∃ t op, cfg.threads t = .putWritten s op

theorem Preambled.commit (h : cfg.Preambled s) {t r : ℕ} {access : Access}
    (haccess : r = s.response → s.number < access.shared.made →
      (access.shared.stream s.number).mState = .start →
      IsPreamble (access.shared.stream s.number).mData ∨ (∃ op, access.pc = .putWritten s op) ∨
        s.number < cfg.world.made s.response ∧
          access.shared.stream s.number = cfg.world.streams s)
    (ht : ∀ op, cfg.threads t = .putWritten s op → r = s.response ∧
      (access.shared.stream s.number).mState ≠ .start) : (cfg.commit t r access).Preambled s := by
  intro hmade hstart
  rw [made_commit] at hmade
  rw [streams_commit] at hstart ⊢
  have hold (hmade : s.number < cfg.world.made s.response)
      (hstart : (cfg.world.streams s).mState = .start)
      (hnot : ∀ op, cfg.threads t ≠ .putWritten s op) : IsPreamble (cfg.world.streams s).mData ∨
        ∃ t' op, (cfg.commit t r access).threads t' = .putWritten s op := by
    rcases h hmade hstart with hdata | ⟨t', op, hpc⟩
    · exact Or.inl hdata
    · refine Or.inr ⟨t', op, ?_⟩
      rw [threads_commit, if_neg]
      · exact hpc
      · rintro rfl
        exact hnot op hpc
  by_cases hr : s.response = r
  · rw [if_pos hr] at hmade hstart ⊢
    rcases haccess hr.symm hmade hstart with hdata | ⟨op, hpc⟩ | ⟨hmade, hsame⟩
    · exact Or.inl hdata
    · exact Or.inr ⟨t, op, by rw [threads_commit, if_pos rfl, hpc]⟩
    · rw [hsame] at hstart ⊢
      exact hold hmade hstart fun op hpc => (ht op hpc).2 (hsame ▸ hstart)
  · rw [if_neg hr] at hmade hstart ⊢
    exact hold hmade hstart fun op hpc => hr (ht op hpc).1.symm

theorem Preambled.step (h : cfg.Preambled s) {e : Event} (hstep : cfg.step mg e = some cfg') :
    cfg'.Preambled s := by
  cases e with
  | loop e =>
      obtain ⟨-, rfl⟩ := step_loop hstep
      intro hmade hstart
      rw [World.made_handle] at hmade
      rcases World.streams_handle mg cfg.world e s with
        hsame | hserve | ⟨-, -, hrelease⟩ | ⟨-, -, hfailed⟩
      · rw [hsame] at hstart ⊢
        exact h hmade hstart
      · rw [hserve] at hstart
        cases hstate : (cfg.world.streams s).mState <;>
          simp [AsyncStream.serve, hstate, AsyncStream.markFlush,
            AsyncStream.markCompleted] at hstart
      · rw [hrelease, AsyncStream.release] at hstart ⊢
        split_ifs at hstart ⊢
        · simp [AsyncStream.markEmpty] at hstart
        · exact h hmade hstart
      · simp [hfailed, AsyncStream.markFailed] at hstart
  | headers r headers =>
      obtain rfl := step_headers hstep
      exact h
  | begin t r call =>
      obtain ⟨hidle, -, rfl⟩ := step_begin hstep
      refine h.commit ?_ (by simp [hidle])
      rintro rfl hmade -
      rw [Shared.made_begin] at hmade
      exact Or.inr (Or.inr ⟨hmade, by rw [Shared.stream_begin]; rfl⟩)
  | wait t s' =>
      obtain ⟨hidle, -, granted, -, rfl⟩ := step_wait hstep
      cases granted with
      | false => exact h
      | true =>
          intro hmade hstart
          rcases h hmade hstart with hdata | ⟨t', op, hpc⟩
          · exact Or.inl hdata
          · refine Or.inr ⟨t', op, (Function.update_of_ne ?_ ..).trans hpc⟩
            rintro rfl
            simp [hidle] at hpc
  | put t s' op =>
      obtain ⟨hthread, -, rfl⟩ := step_put hstep
      refine h.commit ?_ ?_
      · intro hr hmade _
        by_cases hs : s' = s
        · exact Or.inr (Or.inl ⟨op, hs ▸ rfl⟩)
        · have hn : s.number ≠ s'.number := fun hn => hs (StreamRef.eq_of hr hn.symm)
          refine Or.inr (Or.inr ⟨hr ▸ hmade, ?_⟩)
          exact (Function.update_of_ne hn ..).trans (by rw [hr]; rfl)
      · intro op' hpc
        rcases hthread with hidle | hgranted
        · simp [hidle] at hpc
        · simp [hgranted] at hpc
  | advance t answer =>
      rcases step_advance hstep with ⟨-, rfl⟩ | ⟨r, hrequest, rfl⟩
      · exact h
      · have hwritten {op : Put} (hpc : cfg.threads t = .putWritten s op) : r = s.response := by
          rw [hpc] at hrequest
          exact (Option.some.inj hrequest).symm
        refine h.commit ?_ fun op hpc => ⟨hwritten hpc, ?_⟩
        · rintro rfl hmade hstart
          rcases Shared.isPreamble_advance _ hmade hstart with hdata | ⟨hmade, hsame, -⟩
          · exact Or.inl hdata
          · exact Or.inr (Or.inr ⟨hmade, hsame⟩)
        · cases op <;> simp [hpc, Shared.advance, Shared.updateStream, Put.state]

/-- The first bytes of a stream that is handed over are its preamble. -/
theorem HandedOver.isPreamble (h : cfg.HandedOver r s) (hinit : cfg₀.Initial)
    (hreaches : Reaches (step mg) anyEvent cfg₀ cfg) : IsPreamble (cfg.world.streams s).mData := by
  have howned := Owned.of_reaches hinit hreaches
  obtain ⟨rfl, hmade⟩ := howned.returned r s h.returned
  have hpreambled : cfg.Preambled s := hreaches.invariant (P := fun cfg => cfg.Preambled s)
    (fun hmade => absurd hmade (by simp [hinit.made])) fun _ _ _ h _ hstep => h.step hstep
  rcases hpreambled hmade h.start with hdata | ⟨t, op, hpc⟩
  · exact hdata
  · exact absurd (by rw [hpc]; rfl) (h.threads t)

/-- What is there to send on an open connection is lost to a write event only. -/
theorem busy_handle (mg : Mongoose) (howned : Owned cfg) {e : LoopEvent} {c : ℕ}
    (hwrite : e ≠ .write c) (hclose : e ≠ .close c) (h : (cfg.world.connections c).Busy) :
    ((cfg.world.handle mg e).connections c).Busy := by
  by_cases hc : c = e.conn
  · subst hc
    cases e with
    | accept c =>
        simp only [World.handle, World.accept, LoopEvent.conn, modifyAt_self]
        exact h
    | poll c =>
        rw [World.handle, World.handlePoll_eq]
        refine List.foldlRecOn (motive := fun w : World => (w.connections c).Busy) _ _ h ?_
        intro w hw id _
        simpa [World.fail, World.write] using hw.write mg (.failed id) internalServerError
    | httpMessage c msg calls =>
        rcases World.handleHttpMessage_cases mg cfg.world c msg calls with
          hadd | ⟨conns, hconns, hacts⟩
        · rw [World.handle, hadd]
          exact h
        · rw [World.handle, hconns]
          exact hacts.busy h
    | wakeup c id =>
        obtain ⟨out, hout, -⟩ := exists_appends_wakeup mg howned c id
        exact hout.busy h
    | write c => exact absurd rfl hwrite
    | close c => exact absurd rfl hclose
    | mongoose c send =>
        simp only [World.handle, World.setSend, LoopEvent.conn, modifyAt_self]
        cases send with
        | cons byte send => exact Or.inl (List.cons_ne_nil byte send)
        | nil =>
            refine Or.inr (Bool.or_eq_true_iff.mpr ?_)
            exact h.symm.imp_right fun hsend => decide_eq_true (List.length_pos_iff.mpr hsend)
  · rwa [World.connections_handle_of_ne mg cfg.world hc]

/-- A delivery writes on the connection of its stream. -/
theorem busy_deliver (hchunk : ∀ data, mg.mgHttpWriteChunk data ≠ []) {limit : ℕ}
    {preamble : Bytes} (hpreamble : preamble ≠ []) (howned : Owned cfg)
    (hstreaming : Progress.Streaming .any limit s.response s preamble
      (cfg.view s.response).progress)
    (hstep : cfg.step mg (.loop (.wakeup (cfg.conn s.response) s.response)) = some cfg')
    (hconn : cfg'.conn s.response = cfg.conn s.response)
    (hflight : 0 < (cfg.view s.response).inFlight)
    (hview : cfg'.view s.response = (cfg.view s.response).deliver s.response) :
    (cfg'.world.connections (cfg.conn s.response)).Busy := by
  obtain ⟨-, rfl⟩ := step_loop hstep
  obtain ⟨out, hout, hsources⟩ := exists_appends_wakeup mg howned (cfg.conn s.response) s.response
  have houtputs := outputs_of_appends hconn hout
  rw [List.filter_eq_self.mpr fun o ho => decide_eq_true (hsources o ho), hview] at houtputs
  refine hout.busy_of_ne ?_
  rcases hstreaming.serves_deliver hflight with ⟨-, -, hwritten⟩ | ⟨op, -, -, -, hwritten⟩
  · obtain rfl := List.append_cancel_left (houtputs.symm.trans hwritten)
    simpa [outputBytes, Write.bytes] using hpreamble
  · obtain rfl := List.append_cancel_left (houtputs.symm.trans hwritten)
    simpa [outputBytes, Put.output, Write.bytes] using hchunk op.data

/-- A write event leaves a stream of the table waiting only for want of room on the
connection. -/
theorem busy_write (hio : 0 < mg.ioSize) {c : ℕ} (hs : s ∈ cfg.world.tableStreams)
    (hbefore : (cfg.world.streams s).mState = .flush)
    (hflush : ((cfg.world.handle mg (.write c)).streams s).mState = .flush) :
    ((cfg.world.handle mg (.write c)).connections c).Busy := by
  rw [World.streams_handle_write, if_pos hs, AsyncStream.release] at hflush
  split_ifs at hflush with hfree
  · simp [AsyncStream.markEmpty] at hflush
  · have hfull : cfg.world.blocked mg c = true := by
      by_contra hroom
      exact hfree ⟨hbefore, Bool.not_eq_true _ ▸ hroom⟩
    have hle := of_decide_eq_true hfull
    refine Or.inl fun hsend => ?_
    rw [World.connections_handle_write, modifyAt_self] at hsend
    simp only [World.pumpStream, modifyAt_self] at hle
    rw [hsend] at hle
    exact absurd (Nat.lt_of_lt_of_le hio hle) (Nat.lt_irrefl 0)

/-- A stream that waits for the flush keeps its connection busy. -/
theorem busy_step (hio : 0 < mg.ioSize) (hchunk : ∀ data, mg.mgHttpWriteChunk data ≠ [])
    {limit : ℕ} {preamble : Bytes} (hpreamble : preamble ≠ []) (howned : Owned cfg)
    (hr : s.response < cfg.world.mRequestCounter)
    (hstreaming : Progress.Streaming .any limit s.response s preamble
      (cfg.view s.response).progress)
    (h : (cfg.world.streams s).mState = .flush →
      (cfg.world.connections (cfg.conn s.response)).Busy)
    {e : Event} (hstep : cfg.step mg e = some cfg') (hopen : cfg'.IsOpen s.response)
    (hflush : (cfg'.world.streams s).mState = .flush) :
    (cfg'.world.connections (cfg.conn s.response)).Busy := by
  have hview := view_step mg howned hr hstep hopen
  have hconn := conn_step howned hr hstep
  by_cases hdeliver : e.about mg cfg s.response = some .deliver
  · obtain ⟨c, rfl⟩ := event_of_about hdeliver
    obtain ⟨hraises, -⟩ := step_loop hstep
    obtain rfl : cfg.conn s.response = c := (howned.wakeup c s.response hraises.2).2
    rw [hdeliver] at hview
    obtain ⟨hflight, hview⟩ := View.step_deliver hview
    exact busy_deliver hchunk hpreamble howned hstreaming hstep hconn hflight hview
  · have hbefore : (cfg.world.streams s).mState = .flush := by
      cases habout : e.about mg cfg s.response with
      | none =>
          rw [habout] at hview
          exact (congrArg (fun v => (v.shared.stream s.number).mState) hview).symm.trans hflush
      | some ve =>
          rw [habout] at hview hdeliver
          exact hstreaming.flush_of_step (fun he => hdeliver (congrArg some he)) hview hflush
    rcases step_cases hstep with ⟨e, rfl, -, rfl⟩ | ⟨-, hconnections, -⟩
    · by_cases hwrite : e = .write (cfg.conn s.response)
      · subst hwrite
        have htable :=
          (mem_tableStreams_iff howned s.number).mpr (hstreaming.table_of_flush hbefore)
        exact busy_write hio htable hbefore hflush
      · refine busy_handle mg howned hwrite ?_ (h hbefore)
        rintro rfl
        rw [IsOpen, hconn] at hopen
        rw [World.handle, World.status_forget, if_pos rfl] at hopen
        exact absurd hopen (by simp)
    · rw [hconnections]
      exact h hbefore

/-- From its hand-over on, whatever a conforming producer and the event loop do in whatever
order, a stream that waits for the flush keeps its connection busy. -/
theorem busy_of_reaches (hio : 0 < mg.ioSize) (hchunk : ∀ data, mg.mgHttpWriteChunk data ≠ [])
    (hinit : cfg₀.Initial) (h₁ : Reaches (step mg) anyEvent cfg₀ cfg₁)
    (hhanded : cfg₁.HandedOver r s)
    (h : Reaches (step mg) (Conforming r) cfg₁ cfg) (hopen : cfg.IsOpen r)
    (hflush : (cfg.world.streams s).mState = .flush) :
    (cfg.world.connections (cfg.conn r)).Busy := by
  have howned₁ := Owned.of_reaches hinit h₁
  obtain ⟨-, hr₁, -, -⟩ := howned₁.responseEntry _ _ _ hhanded.entry
  obtain ⟨rfl, -, -⟩ := howned₁.held r s hr₁ hhanded.mStream
  have hpreamble : (cfg₁.world.streams s).mData ≠ [] := by
    obtain ⟨code, headers, hdata⟩ := hhanded.isPreamble hinit h₁
    simp [hdata, formatPreamble, text]
  refine h.invariant_of
    (J := fun cfg => Reaches (step mg) (Conforming s.response) cfg₁ cfg)
    (P := fun cfg => cfg.IsOpen s.response → (cfg.world.streams s).mState = .flush →
      (cfg.world.connections (cfg.conn s.response)).Busy) (fun _ h => h) ?_ ?_ hopen hflush
  · intro _ hflush
    simp [hhanded.start] at hflush
  · intro cfg e cfg' hreaches hbusy _ hstep hopen hflush
    have howned := Owned.of_reaches hinit (h₁.trans (hreaches.mono fun _ _ _ => trivial))
    have hr := Nat.lt_of_lt_of_le hr₁ (mRequestCounter_le_of_reaches hreaches)
    have hbefore := isOpen_of_step howned hr hstep hopen
    rw [conn_step howned hr hstep]
    exact busy_step hio hchunk hpreamble howned hr
      (streaming_of_reaches hinit h₁ hhanded hreaches hbefore) (hbusy hbefore) hstep hopen hflush

end Config

end Mgxx.Http
