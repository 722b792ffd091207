import Mgxx.Concurrency.Attendance
import Mgxx.Concurrency.Stranding
import Mgxx.Properties.Alarms

/-!
`wait()` between its loads, the stores of the event loop and the calls of
`notify_one()` and `notify_all()` after them.
-/

namespace Mgxx.Http

open Mgxx.Library

namespace Blocking

variable {mg : Mongoose} {b b' : Blocking} {s : StreamRef} {t : ℕ} {current : AsyncStream.State}
  {cfg₀ cfg : Config}

/-- The states of the program with atomic waits are those of the program, with the calls
of `wait()` that are about to return true counted as returned. -/
theorem exists_abs_iff_reaches {ok : Config → Event → Prop} :
    (∃ b, Reaches (step mg) (Lifts ok) (start cfg₀) b ∧ b.abs = cfg) ↔
      Reaches (Config.step mg) ok cfg₀ cfg := by
  constructor
  · rintro ⟨b, h, rfl⟩
    exact (reaches_abs h).2
  · intro h
    have hreaches : Reaches (step mg) (Lifts ok) (start cfg₀) (start cfg) := by
      induction h with
      | refl => exact .refl _
      | tail _ hmove ih =>
          obtain ⟨e, hok, hstep⟩ := hmove
          exact ih.trans (reaches_of_step hok hstep)
    exact ⟨_, hreaches, rfl⟩

/-- Nobody misses a wake-up: when the event thread is through with its handler, a call of
`wait()` for whose stream there is an answer returns by itself. -/
theorem wait_returns (hinit : cfg₀.Initial)
    (h : Reaches (step mg) (Regular s) (start cfg₀) b) (hdue : b.due = [])
    (ht : (b.waits t).stream = some s) (hanswer : (b.cfg.world.streams s).wait ≠ none) :
    ∃ n ≤ 3, b.ReturnsIn mg t n := by
  have hattended := attended_of_reaches hinit h
  have hblocks := blocks_of_reaches h
  have hstate : ¬(b.state s).Blocks := fun hblocks =>
    hanswer ((AsyncStream.wait_eq_none_iff _).mpr hblocks)
  refine exists_returnsIn hblocks ht (fun current hpc => ?_) hstate
  rcases hattended.asleep t current hpc with rfl | ⟨n, hn, -⟩
  · have hasleep := hblocks t
    rw [hpc] at hasleep
    exact hstate hasleep
  · rw [hdue] at hn
    exact absurd hn List.not_mem_nil

/-- Thread 0 waits from the start on, sleeps twice, and is woken up when the stream is empty. -/
def waitingEarly : List BlockingEvent :=
  Config.openingStream.map .base ++ [.call 0 ⟨0, 0⟩, .resume 0, .base (.loop (.wakeup 0 0)),
    .notify (some 0), .resume 0, .resume 0, .resume 0, .base (.loop (.mongoose 0 [])),
    .base (.loop (.write 0)), .notify (some 0)]

theorem wait_returns_early : ∃ b,
    run (step .plain) (start (Config.start Config.asyncRoutes)) waitingEarly = some b ∧
      b.waits 0 = .awake ⟨0, 0⟩ .flush ∧ ∃ n ≤ 3, b.ReturnsIn .plain 0 n := by
  have hmeets : Meets (step .plain) (Regular ⟨0, 0⟩) (start (Config.start Config.asyncRoutes))
      waitingEarly :=
    ⟨⟨trivial, trivial⟩, ⟨trivial, trivial⟩, ⟨trivial, trivial⟩, ⟨trivial, trivial⟩,
      ⟨trivial, trivial⟩, ⟨trivial, trivial⟩, ⟨trivial, trivial⟩,
      ⟨fun _ t => ⟨by simp [start, WaitPc.stream], by cases t <;> exact (Option.some_ne_none _).symm⟩,
        trivial⟩,
      ⟨trivial, trivial⟩, ⟨trivial, trivial⟩, ⟨trivial, trivial⟩, ⟨trivial, trivial⟩,
      ⟨trivial, trivial⟩, ⟨trivial, trivial⟩, ⟨trivial, trivial⟩, ⟨trivial, trivial⟩,
      ⟨trivial, trivial⟩, trivial⟩
  exact ⟨_, rfl, rfl, wait_returns (Config.initial_start _) (reaches_of_run rfl hmeets) rfl rfl
    (by decide)⟩

/-- A completed stream wakes up one sleeper, and the others sleep for good. -/
theorem asleep_of_completed (hinit : cfg₀.Initial)
    (h : Reaches (step mg) anyEvent (start cfg₀) b) (hcompleted : b.state s = .completed)
    (hdue : ∀ n ∈ b.due, n.stream ≠ s) (hpc : b.waits t = .asleep s current)
    (h' : Reaches (step mg) (fun _ e => e ≠ .spurious t) b b') :
    b'.waits t = .asleep s current := by
  obtain ⟨hplaced, howned⟩ := owned_of_reaches hinit h
  obtain ⟨-, hreturned⟩ := hplaced t s (by rw [hpc]; rfl)
  have hdropped : b.abs.Dropped s := Config.dropped_of_completed howned
    (howned.returned s.response s hreturned).2 (howned.lt_of_returned hreturned) hcompleted
  have hstranded : Stranded b t s current := ⟨hpc, hdropped, hdue⟩
  exact asleep_of_stranded hstranded hinit h h'

/-- Thread 0 closes the stream while threads 1 and 2 wait for its end. -/
def closingForTwo : List BlockingEvent :=
  Config.openingStream.map .base ++ .base (.loop (.wakeup 0 0)) :: .notify none ::
    Config.flushing.map .base ++ .notify none :: .call 0 ⟨0, 0⟩ :: .resume 0 ::
    (Config.putting .close).map .base ++ [.call 1 ⟨0, 0⟩, .resume 1, .call 2 ⟨0, 0⟩, .resume 2,
    .base (.loop (.wakeup 0 0)), .notify (some 1)]

theorem asleep_of_completed_two : ∃ b b',
    run (step .plain) (start (Config.start Config.asyncRoutes)) closingForTwo = some b ∧
      b.state ⟨0, 0⟩ = .completed ∧ b.step .plain (.resume 1) = some b' ∧
      b'.waits 2 = .asleep ⟨0, 0⟩ .close := by
  have hrun : Reaches (step .plain) anyEvent (start (Config.start Config.asyncRoutes)) _ :=
    reaches_of_run rfl (meets_anyEvent _ closingForTwo)
  refine ⟨_, _, rfl, rfl, rfl, asleep_of_completed (Config.initial_start _) hrun rfl ?_ rfl
    ((Reaches.refl _).next (e := .resume 1) (by simp) rfl)⟩
  nofun

/-- A stream that is not in the table when its connection closes leaves those who sleep on it
asleep for good. -/
theorem asleep_of_close {b₁ : Blocking} (hinit : cfg₀.Initial)
    (h : Reaches (step mg) anyEvent (start cfg₀) b)
    (hclose : b.step mg (.base (.loop (.close (b.cfg.conn s.response)))) = some b₁)
    (hs : s ∉ b.cfg.world.streamsOf (b.cfg.conn s.response)) (hpc : b.waits t = .asleep s current)
    (h' : Reaches (step mg) (fun _ e => e ≠ .spurious t) b₁ b') :
    b'.waits t = .asleep s current := by
  obtain ⟨hplaced, howned⟩ := owned_of_reaches hinit h
  obtain ⟨-, hreturned⟩ := hplaced t s (by rw [hpc]; rfl)
  have hstranded : Stranded b₁ t s current := by
    cases takes_of_step hclose with
    | worker e cfg hloop _ _ _ => exact absurd rfl (hloop _)
    | loop e cfg _ hcfg =>
        refine ⟨hpc, ?_, fun n hn hns => ?_⟩
        · have hfollows := step_abs_base (b := b) (by simp) (by simp [Outside, Event.thread]) hcfg
          exact Config.dropped_of_close rfl (howned.lt_of_returned hreturned) hfollows
        · obtain ⟨s', hs', rfl⟩ := List.mem_map.mp hn
          obtain rfl : s' = s := hns
          exact hs hs'
  exact asleep_of_stranded hstranded hinit (h.next trivial hclose) h'

/-- Thread 1 waits too, thread 2 closes the stream after all, and the next client comes. -/
def closingInVain : List BlockingEvent :=
  [.call 1 ⟨0, 0⟩, .resume 1, .base (.put 2 ⟨0, 0⟩ .close), .base (.advance 2 true),
    .base (.advance 2 true), .base (.advance 2 true), .base (.loop (.accept 1))]

theorem asleep_of_close_early : ∃ b b₁ b',
    run (step .plain) (start (Config.start Config.asyncRoutes))
        (Config.openingStream.map .base ++ [.call 0 ⟨0, 0⟩, .resume 0]) = some b ∧
      b.step .plain (.base (.loop (.close 0))) = some b₁ ∧
      run (step .plain) b₁ closingInVain = some b' ∧ b'.state ⟨0, 0⟩ = .close ∧
      b'.waits 0 = .asleep ⟨0, 0⟩ .start := by
  have hrun : Reaches (step .plain) anyEvent (start (Config.start Config.asyncRoutes)) _ :=
    reaches_of_run rfl (meets_anyEvent _ (Config.openingStream.map .base ++
      [.call 0 ⟨0, 0⟩, .resume 0]))
  have hlater : ∀ _ : Blocking, ∀ e ∈ closingInVain, e ≠ .spurious 0 := by simp [closingInVain]
  exact ⟨_, _, _, rfl, rfl, rfl, rfl, asleep_of_close (Config.initial_start _) hrun rfl
    (by decide) rfl (reaches_of_run rfl (meets_of_forall hlater _))⟩

/-- The close of a connection wakes up everybody: as long as no call stores a state in the stream
any more, every call of `wait()` returns by itself once `notify_all()` has been called. -/
theorem all_return_of_close {b₁ : Blocking} {c : ℕ} (hinit : cfg₀.Initial)
    (h : Reaches (step mg) anyEvent (start cfg₀) b) (hs : s ∈ b.cfg.world.streamsOf c)
    (hclose : b.step mg (.base (.loop (.close c))) = some b₁)
    (h' : Reaches (step mg) (Unwritten s) b₁ b') (hdue : ⟨s, .all⟩ ∉ b'.due)
    (ht : (b'.waits t).stream = some s) : ∃ n ≤ 3, b'.ReturnsIn mg t n := by
  have h₁ := h.next trivial hclose
  have hbefore {b₂ : Blocking} (h₂ : Reaches (step mg) (Unwritten s) b₁ b₂) :
      Reaches (step mg) anyEvent (start cfg₀) b₂ := h₁.trans (h₂.mono fun _ _ _ => trivial)
  have halarmed : Alarmed s b' := by
    obtain ⟨-, howned⟩ := owned_of_reaches hinit h
    refine h'.invariant_of (J := fun b => (∀ t, (b.waits t).Blocks) ∧ Owned b.abs)
      (P := fun b => Alarmed s b) (fun b₂ h₂ => ?_) (alarmed_of_close howned hs hclose) ?_
    · exact ⟨blocks_of_reaches (hbefore h₂), (owned_of_reaches hinit (hbefore h₂)).2⟩
    · rintro b₂ e b₃ ⟨hblocks, howned⟩ halarmed hunwritten hstep
      exact halarmed.step hblocks howned hunwritten hstep
  refine exists_returnsIn (blocks_of_reaches (hbefore h')) ht (fun current hpc => ?_) ?_
  · exact hdue (halarmed.asleep t current hpc)
  · rw [halarmed.failed]
    exact fun hblocks => hblocks.2 (Or.inr rfl)

/-- Threads 1 and 2 wait for the first chunk when the client leaves; the notification of the
preamble has woken up one of them, in vain. -/
def leavingTwo : List BlockingEvent :=
  Config.openingStream.map .base ++ [.call 1 ⟨0, 0⟩, .resume 1, .call 2 ⟨0, 0⟩, .resume 2,
    .base (.loop (.wakeup 0 0)), .notify (some 1), .resume 1, .resume 1, .resume 1]

theorem all_return_of_close_two : ∃ b b₁ b',
    run (step .plain) (start (Config.start Config.asyncRoutes)) leavingTwo = some b ∧
      b.waits 1 = .asleep ⟨0, 0⟩ .flush ∧ b.waits 2 = .asleep ⟨0, 0⟩ .start ∧
      b.step .plain (.base (.loop (.close 0))) = some b₁ ∧
      b₁.step .plain (.notify none) = some b' ∧
      (∃ n ≤ 3, b'.ReturnsIn .plain 1 n) ∧ ∃ n ≤ 3, b'.ReturnsIn .plain 2 n := by
  have hrun : Reaches (step .plain) anyEvent (start (Config.start Config.asyncRoutes)) _ :=
    reaches_of_run rfl (meets_anyEvent _ leavingTwo)
  have hall := fun t => all_return_of_close (t := t) (s := ⟨0, 0⟩) (c := 0)
    (Config.initial_start _) hrun (by decide) rfl
    ((Reaches.refl _).next (e := .notify none) trivial rfl) (by decide)
  exact ⟨_, _, _, rfl, rfl, rfl, rfl, rfl, hall 1 rfl, hall 2 rfl⟩

end Blocking

end Mgxx.Http
