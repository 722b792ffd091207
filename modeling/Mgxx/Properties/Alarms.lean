import Mgxx.Concurrency.Attendance
import Mgxx.Properties.Terminal

/-!
The close of a connection as those who sleep see it.  `mark_failed` wakes up all of
them, and as long as no call stores a state any more none goes back to sleep.
-/

namespace Mgxx.Http

open Mgxx.Library

namespace Blocking

/-- No `send` or `close` on the stream gets to its store. -/
def Unwritten (s : StreamRef) (b : Blocking) : BlockingEvent → Prop
  | .base (.advance t _) => ∀ op, b.cfg.threads t ≠ .putWritten s op
  | .base _ | .call _ _ | .resume _ | .notify _ | .spurious _ => True

/-- The stream has failed, and who still sleeps will be woken up by `notify_all()`. -/
structure Alarmed (s : StreamRef) (b : Blocking) : Prop where
  made : s.number < b.cfg.world.made s.response
  failed : b.state s = .failed
  asleep : ∀ t current, b.waits t = .asleep s current → ⟨s, .all⟩ ∈ b.due

variable {mg : Mongoose} {s : StreamRef} {b b' : Blocking} {t c : ℕ}

/-- The close of the connection fails each stream of its table. -/
theorem alarmed_of_close (howned : Owned b.abs) (hs : s ∈ b.cfg.world.streamsOf c)
    (hstep : b.step mg (.base (.loop (.close c))) = some b') : Alarmed s b' := by
  cases takes_of_step hstep with
  | worker e cfg hloop _ _ _ => exact absurd rfl (hloop _)
  | loop e cfg _ hcfg =>
      obtain ⟨id, hid⟩ := (World.mem_streamsOf ..).mp hs
      obtain ⟨⟨n, hn, heq⟩, -⟩ := howned.streamEntry c id _ hid
      obtain rfl := Option.some.inj heq
      have hmade := Nat.lt_of_lt_of_le hn (Config.made_le_step hcfg id)
      obtain ⟨-, rfl⟩ := Config.step_loop hcfg
      refine ⟨hmade, ?_, fun _ _ _ => ?_⟩
      · show ((b.cfg.world.handleClose c).streams ⟨id, n⟩).mState = .failed
        rw [World.streams_handleClose, if_pos hs]
        rfl
      · exact List.mem_map.mpr ⟨_, hs, rfl⟩

namespace Alarmed

/-- A step of `wait()`, by the thread that is in it. -/
theorem setWait (h : Alarmed s b) {pc : WaitPc}
    (hasleep : ∀ current, pc = .asleep s current → b.waits t = .asleep s current) :
    Alarmed s (b.setWait t pc) := by
  refine ⟨h.made, h.failed, fun t' current hpc => ?_⟩
  by_cases ht : t' = t
  · subst ht
    exact h.asleep t' current (hasleep current (by simpa [Blocking.setWait] using hpc))
  · exact h.asleep t' current (by simpa [Blocking.setWait, ht] using hpc)

theorem notifyAll (h : Alarmed s b) {s' : StreamRef} {due : List Notice}
    (hdue : b.due = ⟨s', .all⟩ :: due) :
    Alarmed s { b with waits := fun t => (b.waits t).wake s', due := due } := by
  refine ⟨h.made, h.failed, fun t current hpc => ?_⟩
  obtain ⟨hpc, hs⟩ := WaitPc.wake_eq_asleep.mp hpc
  have hmem := h.asleep t current hpc
  rw [hdue] at hmem
  rcases List.mem_cons.mp hmem with hhead | hmem
  · exact absurd (congrArg Notice.stream hhead).symm hs
  · exact hmem

/-- A call of `notify_one()` is not the one the sleepers are waiting for. -/
theorem tail (h : Alarmed s b) {s' : StreamRef} {due : List Notice}
    (hdue : b.due = ⟨s', .one⟩ :: due) : Alarmed s { b with due := due } := by
  refine ⟨h.made, h.failed, fun t current hpc => ?_⟩
  have hmem := h.asleep t current hpc
  rw [hdue] at hmem
  rcases List.mem_cons.mp hmem with hhead | hmem
  · exact absurd (congrArg Notice.kind hhead) (by simp)
  · exact hmem

theorem worker (h : Alarmed s b) {e : Event} {cfg : Config} (hloop : ∀ e', e ≠ .loop e')
    (hunwritten : Unwritten s b (.base e)) (hcfg : b.cfg.step mg e = some cfg) :
    Alarmed s { b with cfg := cfg } := by
  refine ⟨Nat.lt_of_lt_of_le h.made (Config.made_le_step hcfg _), ?_, h.asleep⟩
  refine Config.failed_step hloop ?_ h.made h.failed hcfg
  rintro t answer op rfl
  exact hunwritten op

/-- Every step of a program in which nobody stores a state in the stream. -/
theorem step (h : Alarmed s b) (hblocks : ∀ t, (b.waits t).Blocks) (howned : Owned b.abs)
    {e : BlockingEvent} (hunwritten : Unwritten s b e) (hstep : b.step mg e = some b') :
    Alarmed s b' := by
  cases takes_of_step hstep with
  | worker e cfg hloop _ _ hcfg => exact h.worker hloop hunwritten hcfg
  | loop e cfg hdue hcfg =>
      have hmade := Nat.lt_of_lt_of_le h.made (Config.made_le_step hcfg s.response)
      obtain ⟨-, rfl⟩ := Config.step_loop hcfg
      refine ⟨hmade, ?_, fun t current hpc => ?_⟩
      · exact (howned.mState_handle_of_terminal mg e (Or.inr h.failed)).trans h.failed
      · have hmem := h.asleep t current hpc
        rw [hdue] at hmem
        exact absurd hmem List.not_mem_nil
  | call t s' _ _ _ | load t s' _ => exact h.setWait (by simp)
  | giveUp t s' current _ _ => exact h.setWait (by simp)
  | grant t s' _ =>
      have haway : Alarmed s (b.setWait t .away) := h.setWait (by simp)
      exact ⟨h.made, h.failed, haway.asleep⟩
  | compare t s' current hpc =>
      refine h.setWait fun current' hpc' => ?_
      split_ifs at hpc' with hstate
      obtain ⟨rfl, rfl⟩ : s' = s ∧ current = current' := by simpa using hpc'
      -- nobody goes to sleep on a failed stream
      have hterminal : current.IsTerminal := Or.inr (hstate.symm.trans h.failed)
      exact absurd hterminal (blocks_compare hblocks hpc).2
  | notifyAll s' due hdue => exact h.notifyAll hdue
  | notifyNone s' due hdue => exact h.tail hdue
  | notifyOne t s' current due hdue _ =>
      have hwoken : Alarmed s (b.setWait t (.awake s' current)) := h.setWait (by simp)
      exact hwoken.tail hdue
  | spurious t s' current _ => exact h.setWait (by simp)

end Alarmed

end Blocking

end Mgxx.Http
