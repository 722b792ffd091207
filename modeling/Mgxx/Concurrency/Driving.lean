import Mgxx.Concurrency.Protocol

/-!
How a stream is brought to its end: the producer waits for the slot and fills it,
the call posts its wake-up, the delivery writes the slot out, and the client reads.
Each of these is a step of the view, and every round of them writes one chunk out.
-/

namespace Mgxx.Http

open Mgxx.Library

namespace View

open Progress

/-- The stream is in the table, its producer has it, and `ops` are written out. -/
structure Attached (v : View) (s : StreamRef) (preamble : Bytes) (ops : List Put) : Prop where
  table : v.table = some s
  returned : some s ∈ v.shared.history.returned
  outputs : v.outputs = written s preamble ops

/-- All that the producer has sent is written out. -/
structure Resting (v : View) (s : StreamRef) (preamble : Bytes) (ops : List Put) : Prop extends
    Attached v s preamble ops where
  inFlight : v.inFlight = 0
  threads : v.progress.Quiet
  state : (v.shared.stream s.number).mState = .flush ∨ (v.shared.stream s.number).mState = .empty
  puts : v.shared.history.puts s.number = ops

structure Filling (v : View) (s : StreamRef) (preamble : Bytes) (ops : List Put) (op : Put)
    (t : ℕ) (pc : Pc) : Prop extends Attached v s preamble ops where
  inFlight : v.inFlight = 0
  threads : v.progress.Only t pc
  data : (v.shared.stream s.number).mData = op.data
  puts : v.shared.history.puts s.number = ops ++ [op]

/-- The call is over, and its wake-up is in flight. -/
structure Posted (v : View) (s : StreamRef) (preamble : Bytes) (ops : List Put) (op : Put) :
    Prop extends Attached v s preamble ops where
  inFlight : v.inFlight = 1
  threads : v.progress.Quiet
  state : (v.shared.stream s.number).mState = op.state
  data : (v.shared.stream s.number).mData = op.data
  puts : v.shared.history.puts s.number = ops ++ [op]

structure Finished (v : View) (s : StreamRef) (preamble : Bytes) (ops : List Put) : Prop where
  state : (v.shared.stream s.number).mState = .completed
  puts : v.shared.history.puts s.number = ops
  outputs : v.outputs = written s preamble ops

/-- What is done to bring a stream on: thread `t` waits, no call fails, the client reads what
the stream waits for, and every wake-up is delivered. -/
def Drives (t : ℕ) (v : View) : Event → Prop
  | .deliver | .put _ _ _ | .advance _ true => True
  | .release false => ∃ s, v.table = some s ∧ (v.shared.stream s.number).mState = .flush
  | .wait t' _ => t' = t
  | .poll | .release true | .headers _ | .begin _ _ | .advance _ false => False

def Leads (r t : ℕ) : View → View → Prop :=
  Reaches (step r) fun v ve => v.Conforming r ve ∧ v.Drives t ve

variable {v v' : View} {r t : ℕ} {s : StreamRef} {preamble : Bytes} {ops : List Put} {op : Put}

theorem Leads.step (ve : Event) (hconforming : v.Conforming r ve) (hdrives : v.Drives t ve)
    (hstep : v.step r ve = some v') : Leads r t v v' :=
  (Reaches.refl v).next ⟨hconforming, hdrives⟩ hstep

theorem Filling.written (h : Filling v s preamble ops op t (.putWritten s op)) (t' : ℕ) :
    ∃ v', Leads r t' v v' ∧ Filling v' s preamble ops op t (.putStored s) ∧
      (v'.shared.stream s.number).mState = op.state := by
  have hpc : v.threads t = .putWritten s op := threads_of_only h.threads
  refine ⟨_, .step (.advance t true) trivial trivial rfl, ?_, ?_⟩
  · refine ⟨⟨h.table, ?_, h.outputs⟩, ?_, ?_, ?_, ?_⟩
    · simpa [hpc, Shared.advance, Shared.updateStream] using h.returned
    · simpa [hpc, Shared.advance] using h.inFlight
    · rw [hpc]
      exact only_commit h.threads _
    · simpa [hpc, Shared.advance, Shared.updateStream] using h.data
    · simpa [hpc, Shared.advance, Shared.updateStream] using h.puts
  · simp [hpc, Shared.advance, Shared.updateStream]

theorem Filling.locked (h : Filling v s preamble ops op t (.putLocked s))
    (hstate : (v.shared.stream s.number).mState = op.state) (t' : ℕ) :
    ∃ v', Leads r t' v v' ∧ Posted v' s preamble ops op := by
  have hpc : v.threads t = .putLocked s := threads_of_only h.threads
  refine ⟨_, .step (.advance t true) trivial trivial rfl, ⟨h.table, ?_, h.outputs⟩, ?_, ?_,
    ?_, ?_, ?_⟩
  · simpa [hpc, Shared.advance] using h.returned
  · simp [hpc, Shared.advance, h.inFlight]
  · rw [hpc]
    exact quiet_commit h.threads rfl
  · simpa [hpc, Shared.advance] using hstate
  · simpa [hpc, Shared.advance] using h.data
  · simpa [hpc, Shared.advance] using h.puts

theorem Filling.stored (h : Filling v s preamble ops op t (.putStored s))
    (hstate : (v.shared.stream s.number).mState = op.state) (t' : ℕ) :
    ∃ v', Leads r t' v v' ∧ Posted v' s preamble ops op := by
  have hpc : v.threads t = .putStored s := threads_of_only h.threads
  have hlocked : Filling (v.commit t (v.shared.advance true (v.threads t))) s preamble ops op t
      (.putLocked s) := by
    refine ⟨⟨h.table, ?_, h.outputs⟩, ?_, ?_, ?_, ?_⟩
    · simpa [hpc, Shared.advance] using h.returned
    · simpa [hpc, Shared.advance] using h.inFlight
    · rw [hpc]
      exact only_commit h.threads _
    · simpa [hpc, Shared.advance] using h.data
    · simpa [hpc, Shared.advance] using h.puts
  obtain ⟨v', hleads, hposted⟩ := hlocked.locked (r := r)
    (by simpa [hpc, Shared.advance] using hstate) t'
  exact ⟨v', (Leads.step (.advance t true) trivial trivial rfl).trans hleads, hposted⟩

theorem Filling.posted {pc : Pc} (h : Filling v s preamble ops op t pc)
    (hpc : pc = .putWritten s op ∨
      (pc = .putStored s ∨ pc = .putLocked s) ∧ (v.shared.stream s.number).mState = op.state)
    (t' : ℕ) : ∃ v', Leads r t' v v' ∧ Posted v' s preamble ops op := by
  rcases hpc with rfl | ⟨rfl | rfl, hstate⟩
  · obtain ⟨v₁, hleads₁, hstored, hstate⟩ := h.written (r := r) t'
    obtain ⟨v₂, hleads₂, hposted⟩ := hstored.stored (r := r) hstate t'
    exact ⟨v₂, hleads₁.trans hleads₂, hposted⟩
  · exact h.stored hstate t'
  · exact h.locked hstate t'

/-- Thread `t'` has been granted the slot, and sends the next chunk. -/
theorem posted_of_granted (h : Attached v s preamble ops) (hflight : v.inFlight = 0)
    (hthreads : v.progress.Only t' (.granted s))
    (hputs : v.shared.history.puts s.number = ops) (op : Put) (t : ℕ) :
    ∃ v', Leads r t v v' ∧ Posted v' s preamble ops op := by
  have hpc : v.threads t' = .granted s := threads_of_only hthreads
  have hstep : v.step r (.put t' s op) = some (v.commit t' (v.shared.put s op)) :=
    if_pos ⟨Or.inr hpc, h.returned⟩
  have hwritten : Filling (v.commit t' (v.shared.put s op)) s preamble ops op t'
      (.putWritten s op) := by
    refine ⟨⟨h.table, h.returned, h.outputs⟩, ?_, only_commit hthreads _, ?_, ?_⟩
    · simpa [Shared.put] using hflight
    · simp [Shared.put, Shared.updateStream]
    · simp [Shared.put, hputs]
  obtain ⟨v', hleads, hposted⟩ := hwritten.posted (r := r) (Or.inl rfl) t
  exact ⟨v', (Leads.step (.put t' s op) hpc trivial hstep).trans hleads, hposted⟩

theorem Resting.release (h : Resting v s preamble ops) :
    Resting (v.release false) s preamble ops ∧
      ((v.release false).shared.stream s.number).mState = .empty := by
  have hrelease : v.release false =
      { v with shared := v.shared.updateStream s.number (AsyncStream.release false) } := by
    simp only [View.release, h.table]
  have hempty : ((v.release false).shared.stream s.number).mState = .empty := by
    rw [hrelease]
    rcases h.state with hstate | hstate <;>
      simp [Shared.updateStream, AsyncStream.release, AsyncStream.markEmpty, hstate]
  refine ⟨⟨?_, ?_, ?_, Or.inr hempty, ?_⟩, hempty⟩ <;> rw [hrelease]
  · exact ⟨h.table, h.returned, h.outputs⟩
  · exact h.inFlight
  · exact h.threads
  · exact h.puts

/-- Where the stream still waits for the flush, a write event frees the slot. -/
theorem Resting.emptied (h : Resting v s preamble ops) (t : ℕ) :
    ∃ v', Leads r t v v' ∧ Resting v' s preamble ops ∧
      (v'.shared.stream s.number).mState = .empty := by
  rcases h.state with hflush | hempty
  · exact ⟨_, .step (.release false) trivial ⟨s, h.table, hflush⟩ rfl, h.release⟩
  · exact ⟨v, .refl v, h, hempty⟩

theorem Resting.posted (h : Resting v s preamble ops) (op : Put) (t : ℕ) :
    ∃ v', Leads r t v v' ∧ Posted v' s preamble ops op := by
  obtain ⟨v₁, hemptied, hrest, hempty⟩ := h.emptied (r := r) t
  have hidle (t' : ℕ) : v₁.threads t' = .idle := threads_of_quiet hrest.threads t'
  have hwait : v₁.step r (.wait t s) = some { v₁ with
      threads := Function.update v₁.threads t (.granted s) } := by
    refine (if_pos ⟨hidle t, hrest.returned⟩).trans ?_
    rw [(AsyncStream.wait_eq_true_iff _).mpr hempty]
    rfl
  have hgranted : Leads r t v₁ { v₁ with
      threads := Function.update v₁.threads t (.granted s) } :=
    .step (.wait t s) (fun t' => by simp [hidle, Pc.stream]) rfl hwait
  have honly : Function.update v₁.threads t (.granted s) =
      Function.update (fun _ => .idle) t (.granted s) := by rw [funext hidle]
  have hattached : Attached { v₁ with
      threads := Function.update v₁.threads t (.granted s) } s preamble ops :=
    ⟨hrest.table, hrest.returned, hrest.outputs⟩
  obtain ⟨v₂, hleads, hposted⟩ :=
    posted_of_granted (r := r) hattached hrest.inFlight honly hrest.puts op t
  exact ⟨v₂, (hemptied.trans hgranted).trans hleads, hposted⟩

theorem Posted.deliver (h : Posted v s preamble ops op) (t : ℕ) :
    Leads r t v (v.take.serve s) := by
  refine .step .deliver trivial trivial ?_
  rw [← deliver_of_table (r := r) h.table]
  exact if_pos (by rw [h.inFlight]; exact Nat.one_pos)

theorem Posted.resting {body : Bytes} (h : Posted v s preamble ops (.send body)) :
    Resting (v.take.serve s) s preamble (ops ++ [.send body]) := by
  have hstate : (v.shared.stream s.number).mState = .hasData := h.state
  have hdata : (v.shared.stream s.number).mData = body := h.data
  refine ⟨⟨?_, h.returned, ?_⟩, ?_, h.threads, ?_, h.puts⟩
  · simp [serve, take, hstate]
  · rw [written_concat, ← h.outputs]
    simp [serve, AsyncStream.serveOutput, hstate, hdata, Put.output, Put.data, take]
  · simp [serve, take, h.inFlight]
  · simp [serve, take, Shared.updateStream, AsyncStream.serve, AsyncStream.markFlush, hstate]

theorem Posted.finished (h : Posted v s preamble ops .close) :
    Finished (v.take.serve s) s preamble (ops ++ [.close]) := by
  have hstate : (v.shared.stream s.number).mState = .close := h.state
  refine ⟨?_, h.puts, ?_⟩
  · simp [serve, take, Shared.updateStream, AsyncStream.serve, AsyncStream.markCompleted, hstate]
  · rw [written_concat, ← h.outputs]
    simp [serve, AsyncStream.serveOutput, hstate, Put.output, Put.data, take]

/-- From rest, any list of chunks can be written out. -/
theorem Resting.fed (h : Resting v s preamble ops) (bodies : List Bytes) (t : ℕ) :
    ∃ v', Leads r t v v' ∧ Resting v' s preamble (ops ++ bodies.map .send) := by
  induction bodies generalizing v ops with
  | nil => exact ⟨v, .refl v, by simpa using h⟩
  | cons body bodies ih =>
      obtain ⟨v₁, hleads₁, hposted⟩ := h.posted (r := r) (.send body) t
      obtain ⟨v₂, hleads₂, hresting⟩ := ih hposted.resting
      refine ⟨v₂, (hleads₁.trans (hposted.deliver t)).trans hleads₂, ?_⟩
      simpa using hresting

/-- And the end of the stream after them. -/
theorem Resting.finished (h : Resting v s preamble ops) (bodies : List Bytes) (t : ℕ) :
    ∃ v', Leads r t v v' ∧ Finished v' s preamble (ops ++ (bodies.map Put.send ++ [.close])) := by
  obtain ⟨v₁, hleads₁, hresting⟩ := h.fed (r := r) bodies t
  obtain ⟨v₂, hleads₂, hposted⟩ := hresting.posted (r := r) .close t
  refine ⟨_, (hleads₁.trans hleads₂).trans (hposted.deliver t), ?_⟩
  rw [← List.append_assoc]
  exact hposted.finished

end View

end Mgxx.Http
