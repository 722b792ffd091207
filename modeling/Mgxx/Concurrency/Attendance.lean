import Mgxx.Concurrency.AtomicWaits

/-!
A stream that one thread at a time waits for and writes to.  When the thread sleeps,
nobody but the event loop changes the stream, and whenever the event loop does, it
has a call of `notify_one()` or `notify_all()` to make that wakes the thread up.
-/

namespace Mgxx.Http

open Mgxx.Library

theorem StreamRef.eq_of {s s' : StreamRef} (hresponse : s.response = s'.response)
    (hnumber : s.number = s'.number) : s = s' := by
  cases s
  cases s'
  simp_all

theorem Pc.request_of_stream {pc : Pc} {s : StreamRef} (h : pc.stream = some s) :
    pc.request = some s.response := by
  cases pc <;> simp_all [Pc.stream, Pc.request]

namespace Shared

variable (q : Shared)

theorem stream_begin (r : ℕ) (call : Call) : (q.begin r call).shared.stream = q.stream := by
  cases call <;> simp only [begin] <;> split_ifs <;> rfl

theorem stream_pc_begin (r : ℕ) (call : Call) : (q.begin r call).pc.stream = none := by
  cases call <;> simp only [begin] <;> split_ifs <;> rfl

/-- An access leaves alone the streams made before, but for the one the thread writes to. -/
theorem stream_advance_of_ne {pc : Pc} {n : ℕ} (hn : n < q.made)
    (hpc : ∀ s, pc.stream = some s → s.number ≠ n) (answer : Bool) :
    (q.advance answer pc).shared.stream n = q.stream n := by
  cases pc with
  | putWritten s op => exact Function.update_of_ne (hpc s rfl).symm ..
  | putRefused s => exact Function.update_of_ne (hpc s rfl).symm ..
  | streamChecked r code encoding =>
      cases answer with
      | true => exact Function.update_of_ne (Nat.ne_of_lt hn) ..
      | false => rfl
  | idle | granted _ | sendDecided _ _ | streamStored _ => rfl
  | streamDecided r ok => cases ok <;> rfl
  | sendChecked _ _ _ | sendStored _ | streamOpened _ | putStored _ | putLocked _ =>
      cases answer <;> rfl

theorem stream_pc_advance {pc : Pc} {s : StreamRef} {answer : Bool}
    (h : (q.advance answer pc).pc.stream = some s) : pc.stream = some s := by
  cases pc <;> simp only [advance] at h <;> (try split_ifs at h) <;>
    simp_all [Pc.stream]

end Shared

namespace Config

variable {mg : Mongoose} {cfg cfg' : Config} {s : StreamRef} {e : Event}

/-- Outside the event loop a stream is changed by who writes to it only. -/
theorem streams_step (hloop : ∀ e', e ≠ .loop e')
    (hs : s.number < cfg.world.made s.response) (hstep : cfg.step mg e = some cfg') :
    cfg'.world.streams s = cfg.world.streams s ∨ (∃ t op, e = .put t s op) ∨
      ∃ t answer, e = .advance t answer ∧ (cfg.threads t).stream = some s ∧
        cfg'.world.streams s =
          ((cfg.shared s.response).advance answer (cfg.threads t)).shared.stream s.number := by
  cases e with
  | loop e => exact absurd rfl (hloop e)
  | headers r headers =>
      obtain rfl := step_headers hstep
      exact Or.inl rfl
  | wait t s' =>
      obtain ⟨-, -, granted, -, rfl⟩ := step_wait hstep
      exact Or.inl (by cases granted <;> rfl)
  | begin t r call =>
      obtain ⟨-, -, rfl⟩ := step_begin hstep
      refine Or.inl ?_
      rw [streams_commit, Shared.stream_begin]
      split_ifs with hr
      · subst hr
        rfl
      · rfl
  | put t s' op =>
      obtain ⟨-, -, rfl⟩ := step_put hstep
      by_cases hs' : s' = s
      · exact Or.inr (Or.inl ⟨t, op, hs' ▸ rfl⟩)
      · refine Or.inl ?_
        rw [streams_commit]
        split_ifs with hr
        · have hn : s.number ≠ s'.number := fun hn => hs' (StreamRef.eq_of hr hn).symm
          show Function.update _ _ _ _ = _
          rw [Function.update_of_ne hn, shared, ← hr]
        · rfl
  | advance t answer =>
      rcases step_advance hstep with ⟨-, rfl⟩ | ⟨r, hreq, rfl⟩
      · exact Or.inl rfl
      · by_cases hr : s.response = r
        · subst hr
          by_cases hpc : (cfg.threads t).stream = some s
          · exact Or.inr (Or.inr ⟨t, answer, rfl, hpc, by rw [streams_commit, if_pos rfl]⟩)
          · refine Or.inl ?_
            rw [streams_commit, if_pos rfl]
            refine Shared.stream_advance_of_ne _ hs (fun s' hs' hn => hpc ?_) answer
            have hresponse : s'.response = s.response :=
              Option.some.inj ((Pc.request_of_stream hs').symm.trans hreq)
            exact StreamRef.eq_of hresponse hn ▸ hs'
        · exact Or.inl (by rw [streams_commit, if_neg hr])

/-- Nobody writes to a stream that no thread has been granted. -/
theorem streams_step_of_unheld (hloop : ∀ e', e ≠ .loop e') (hput : ∀ t op, e ≠ .put t s op)
    (hs : s.number < cfg.world.made s.response) (hfree : ∀ t, (cfg.threads t).stream ≠ some s)
    (hstep : cfg.step mg e = some cfg') : cfg'.world.streams s = cfg.world.streams s := by
  rcases streams_step hloop hs hstep with hsame | ⟨t, op, he⟩ | ⟨t, answer, -, ht, -⟩
  · exact hsame
  · exact absurd he (hput t op)
  · exact absurd ht (hfree t)

/-- A call of `send` or `close` begins with the data slot. -/
theorem mState_put {t : ℕ} {s' : StreamRef} {op : Put}
    (hstep : cfg.step mg (.put t s' op) = some cfg') :
    (cfg'.world.streams s).mState = (cfg.world.streams s).mState := by
  obtain ⟨-, -, rfl⟩ := step_put hstep
  rw [streams_commit]
  split_ifs with hr
  · simp only [Shared.put, Shared.updateStream, Function.update_apply]
    split_ifs with hn
    · rw [AsyncStream.mState_putData, StreamRef.eq_of hr hn]
      rfl
    · rw [shared, ← hr]
  · rfl

/-- A failed stream stays so as long as nobody stores a state in it. -/
theorem failed_step (hloop : ∀ e', e ≠ .loop e')
    (hadvance : ∀ t answer op, e = .advance t answer → cfg.threads t ≠ .putWritten s op)
    (hs : s.number < cfg.world.made s.response) (hfailed : (cfg.world.streams s).mState = .failed)
    (hstep : cfg.step mg e = some cfg') : (cfg'.world.streams s).mState = .failed := by
  rcases streams_step hloop hs hstep with hsame | ⟨t, op, rfl⟩ | ⟨t, answer, he, ht, hstream⟩
  · rw [hsame]
    exact hfailed
  · exact (mState_put hstep).trans hfailed
  · rw [hstream]
    cases hpc : cfg.threads t with
    | putWritten s' op =>
        obtain rfl : s' = s := by simpa [hpc, Pc.stream] using ht
        exact absurd hpc (hadvance t answer op he)
    | putRefused s' =>
        obtain rfl : s' = s := by simpa [hpc, Pc.stream] using ht
        simp [Shared.advance, Shared.updateStream, AsyncStream.markFailed]
    | granted _ => exact hfailed
    | putStored _ | putLocked _ => cases answer <;> exact hfailed
    | idle | sendChecked _ _ _ | sendStored _ | sendDecided _ _ | streamChecked _ _ _
    | streamOpened _ | streamDecided _ _ | streamStored _ => simp [hpc, Pc.stream] at ht

theorem stream_threads_step {t : ℕ} (hwait : e ≠ .wait t s) (hput : ∀ op, e ≠ .put t s op)
    (hstep : cfg.step mg e = some cfg') (h : (cfg'.threads t).stream = some s) :
    (cfg.threads t).stream = some s := by
  by_cases ht : e.thread = some t
  · cases e with
    | loop e => simp [Event.thread] at ht
    | headers r headers => simp [Event.thread] at ht
    | begin t' r call =>
        obtain ⟨-, -, rfl⟩ := step_begin hstep
        rw [threads_commit, if_pos (Option.some.inj ht).symm, Shared.stream_pc_begin] at h
        exact absurd h (by simp)
    | wait t' s' =>
        obtain rfl : t' = t := Option.some.inj ht
        obtain ⟨-, -, granted, -, rfl⟩ := step_wait hstep
        cases granted with
        | true =>
            have hs : some s' = some s := by simpa [Pc.stream] using h
            exact absurd (Option.some.inj hs ▸ rfl) hwait
        | false => exact h
    | put t' s' op =>
        obtain rfl : t' = t := Option.some.inj ht
        obtain ⟨-, -, rfl⟩ := step_put hstep
        rw [threads_commit, if_pos rfl] at h
        have hs : s' = s := Option.some.inj h
        exact absurd (hs ▸ rfl) (hput op)
    | advance t' answer =>
        obtain rfl : t' = t := Option.some.inj ht
        rcases step_advance hstep with ⟨-, rfl⟩ | ⟨r, -, rfl⟩
        · exact h
        · rw [threads_commit, if_pos rfl] at h
          exact Shared.stream_pc_advance _ h
  · rwa [threads_step_of_ne hstep ht] at h

end Config

/-- A state for which `wait()` goes to sleep. -/
def AsyncStream.State.Blocks (state : AsyncStream.State) : Prop :=
  state ≠ .empty ∧ ¬state.IsTerminal

theorem AsyncStream.wait_eq_none_iff (stream : AsyncStream) :
    stream.wait = none ↔ stream.mState.Blocks := by
  cases h : stream.mState <;> simp [wait, h, State.Blocks, State.IsTerminal]

def WaitPc.Blocks : WaitPc → Prop
  | asleep _ current | awake _ current => current.Blocks
  | away | loaded _ _ | changed _ => True

theorem WaitPc.blocks_wake {pc : WaitPc} (h : pc.Blocks) (s : StreamRef) : (pc.wake s).Blocks := by
  cases pc with
  | asleep s' current =>
      rw [wake]
      split_ifs <;> exact h
  | away | loaded _ _ | awake _ _ | changed _ => exact h

namespace Blocking

section Blocks

variable {mg : Mongoose} {b b' : Blocking} {t : ℕ}

theorem blocks_setWait (h : ∀ t, (b.waits t).Blocks) {pc : WaitPc} (hpc : pc.Blocks) (t' : ℕ) :
    ((b.setWait t pc).waits t').Blocks := by
  by_cases ht : t' = t
  · subst ht
    simpa [setWait] using hpc
  · simpa [setWait, ht] using h t'

theorem blocks_compare (h : ∀ t, (b.waits t).Blocks) {s : StreamRef} {current : AsyncStream.State}
    (hpc : b.waits t = .awake s current ∨
      b.waits t = .loaded s current ∧ current ≠ .empty ∧ ¬current.IsTerminal) :
    current.Blocks := by
  rcases hpc with hpc | ⟨-, hblocks⟩
  · have hawake := h t
    rwa [hpc] at hawake
  · exact hblocks

theorem blocks_step (h : ∀ t, (b.waits t).Blocks) {e : BlockingEvent}
    (hstep : b.step mg e = some b') : ∀ t, (b'.waits t).Blocks := by
  cases takes_of_step hstep with
  | loop _ _ _ _ | worker _ _ _ _ _ _ | notifyNone _ _ _ => exact h
  | call t s _ _ _ | load t s _ | grant t s _ | giveUp t s _ _ _ => exact blocks_setWait h trivial
  | compare t s current hpc =>
      refine blocks_setWait h ?_
      split_ifs
      · exact blocks_compare h hpc
      · trivial
  | notifyAll s due _ => exact fun t => WaitPc.blocks_wake (h t) s
  | notifyOne t s current due _ hpc =>
      have hasleep := h t
      rw [hpc] at hasleep
      exact blocks_setWait h hasleep
  | spurious t s current hpc =>
      have hasleep := h t
      rw [hpc] at hasleep
      exact blocks_setWait h hasleep

/-- Whatever the run, nobody sleeps on a state for which `wait()` returns. -/
theorem blocks_of_reaches {ok : Blocking → BlockingEvent → Prop} {cfg₀ : Config}
    (h : Reaches (step mg) ok (start cfg₀) b) : ∀ t, (b.waits t).Blocks :=
  h.invariant (P := fun b => ∀ t, (b.waits t).Blocks) (fun _ => trivial)
    fun _ _ _ hblocks _ hstep => blocks_step hblocks hstep

end Blocks

/-- One thread at a time uses the stream: nobody calls `wait()` while another is in it or
has been granted a chunk, and `send` and `close` follow a `wait()` that returned true. -/
def Solo (s : StreamRef) (b : Blocking) : BlockingEvent → Prop
  | .call _ s' => s' = s →
      ∀ t, (b.waits t).stream ≠ some s ∧ (b.cfg.threads t).stream ≠ some s
  | .base (.put t s' _) => s' = s → b.cfg.threads t = .granted s
  | .base _ | .resume _ | .notify _ | .spurious _ => True

/-- `notify_one()` wakes up somebody, unless all who sleep went to sleep on the new state. -/
def Notifies (b : Blocking) : BlockingEvent → Prop
  | .notify none => ∀ s due, b.due = ⟨s, .one⟩ :: due →
      ∀ t current, b.waits t = .asleep s current → b.state s = current
  | .base _ | .call _ _ | .resume _ | .notify (some _) | .spurious _ => True

/-- The thread that waits for the stream is alone, nobody writes to the stream, and a sleeper
will be woken up if there is something new. -/
structure Attended (s : StreamRef) (b : Blocking) : Prop where
  alone : ∀ t t', (b.waits t).stream = some s → (b.waits t').stream = some s → t = t'
  unheld : ∀ t t', (b.waits t).stream = some s → (b.cfg.threads t').stream ≠ some s
  asleep : ∀ t current, b.waits t = .asleep s current →
    b.state s = current ∨ ∃ n ∈ b.due, n.stream = s

section Attended

variable {mg : Mongoose} {s : StreamRef} {b b' : Blocking} {t : ℕ}

namespace Attended

theorem of_start (cfg : Config) : Attended s (start cfg) := by
  constructor <;> intros <;> simp_all [start, WaitPc.stream]

/-- A step of `wait()`, by the thread that is in it. -/
theorem setWait (h : Attended s b) {pc : WaitPc}
    (hstream : pc.stream = some s → (b.waits t).stream = some s)
    (hasleep : ∀ current, pc = .asleep s current → b.state s = current) :
    Attended s (b.setWait t pc) := by
  have hstreams (t' : ℕ) (ht' : ((b.setWait t pc).waits t').stream = some s) :
      (b.waits t').stream = some s := by
    by_cases ht : t' = t
    · subst ht
      exact hstream (by simpa [Blocking.setWait] using ht')
    · simpa [Blocking.setWait, ht] using ht'
  refine ⟨fun t₁ t₂ h₁ h₂ => h.alone t₁ t₂ (hstreams t₁ h₁) (hstreams t₂ h₂),
    fun t₁ t₂ h₁ => h.unheld t₁ t₂ (hstreams t₁ h₁), fun t' current hpc => ?_⟩
  by_cases ht : t' = t
  · subst ht
    exact Or.inl (hasleep current (by simpa [Blocking.setWait] using hpc))
  · exact h.asleep t' current (by simpa [Blocking.setWait, ht] using hpc)

theorem worker (h : Attended s b) {e : Event} {cfg : Config} (hloop : ∀ e', e ≠ .loop e')
    (hwait : ∀ t s, e ≠ .wait t s) (hout : b.Outside e) (hplaced : b.Placed) (howned : Owned b.abs)
    (hsolo : b.Solo s (.base e)) (hcfg : b.cfg.step mg e = some cfg) :
    Attended s { b with cfg := cfg } := by
  have hput (t : ℕ) (ht : (b.waits t).stream = some s) (t' : ℕ) (op : Put) : e ≠ .put t' s op := by
    rintro rfl
    have hgranted : b.cfg.threads t' = .granted s := hsolo rfl
    exact h.unheld t t' ht (by rw [hgranted]; rfl)
  refine ⟨h.alone, fun t t' ht ht' => ?_, fun t current hpc => ?_⟩
  · exact h.unheld t t' ht
      (Config.stream_threads_step (hwait t' s) (hput t ht t') hcfg ht')
  · have ht : (b.waits t).stream = some s := by rw [hpc]; rfl
    obtain ⟨-, hreturned⟩ := hplaced t s ht
    have hs : s.number < b.cfg.world.made s.response := (howned.returned s.response s hreturned).2
    have hsame :=
      Config.streams_step_of_unheld hloop (hput t ht) hs (fun t' => h.unheld t t' ht) hcfg
    rcases h.asleep t current hpc with hstate | hdue
    · exact Or.inl ((congrArg AsyncStream.mState hsame).trans hstate)
    · exact Or.inr hdue

theorem loop (h : Attended s b) {e : LoopEvent} {cfg : Config} (hdue : b.due = [])
    (hcfg : b.cfg.step mg (.loop e) = some cfg) :
    Attended s { b with cfg := cfg, due := b.cfg.world.notices mg e } := by
  obtain ⟨-, rfl⟩ := Config.step_loop hcfg
  refine ⟨h.alone, h.unheld, fun t current hpc => ?_⟩
  by_cases hnotice : ∃ n ∈ b.cfg.world.notices mg e, n.stream = s
  · exact Or.inr hnotice
  · have hsame := World.streams_handle_of_notices fun n hn hs => hnotice ⟨n, hn, hs⟩
    rcases h.asleep t current hpc with hstate | ⟨n, hn, -⟩
    · exact Or.inl ((congrArg AsyncStream.mState hsame).trans hstate)
    · rw [hdue] at hn
      exact absurd hn List.not_mem_nil

/-- A call of the event thread for another stream, or one that leaves no sleeper behind. -/
theorem tail (h : Attended s b) {n : Notice} {due : List Notice} (hdue : b.due = n :: due)
    (hsleeper : n.stream = s → ∀ t current, b.waits t = .asleep s current → b.state s = current) :
    Attended s { b with due := due } := by
  refine ⟨h.alone, h.unheld, fun t current hpc => ?_⟩
  rcases h.asleep t current hpc with hstate | ⟨n', hn', hs'⟩
  · exact Or.inl hstate
  · rw [hdue] at hn'
    rcases List.mem_cons.mp hn' with rfl | hn'
    · exact Or.inl (hsleeper hs' t current hpc)
    · exact Or.inr ⟨n', hn', hs'⟩

theorem notifyAll (h : Attended s b) {s' : StreamRef} {due : List Notice}
    (hdue : b.due = ⟨s', .all⟩ :: due) :
    Attended s { b with waits := fun t => (b.waits t).wake s', due := due } := by
  have hwoken : Attended s { b with waits := fun t => (b.waits t).wake s' } := by
    refine ⟨fun t t' ht ht' => ?_, fun t t' ht => ?_, fun t current hpc => ?_⟩
    · exact h.alone t t' (by rwa [WaitPc.stream_wake] at ht) (by rwa [WaitPc.stream_wake] at ht')
    · exact h.unheld t t' (by rwa [WaitPc.stream_wake] at ht)
    · exact h.asleep t current (WaitPc.wake_eq_asleep.mp hpc).1
  exact hwoken.tail hdue fun hs t current hpc => absurd hs (WaitPc.wake_eq_asleep.mp hpc).2

theorem notifyOne (h : Attended s b) {s' : StreamRef} {current : AsyncStream.State}
    {due : List Notice} (hdue : b.due = ⟨s', .one⟩ :: due) (hpc : b.waits t = .asleep s' current) :
    Attended s { b.setWait t (.awake s' current) with due := due } := by
  have hwoken : Attended s (b.setWait t (.awake s' current)) :=
    h.setWait (fun hs => by rw [hpc]; exact hs) (by simp)
  refine hwoken.tail hdue fun hs t' current' hpc' => ?_
  -- the thread that was woken up was the only one
  obtain rfl : s' = s := hs
  have ht : t' ≠ t := by
    rintro rfl
    simp [Blocking.setWait] at hpc'
  have hpc'' : b.waits t' = .asleep s' current' := by simpa [Blocking.setWait, ht] using hpc'
  exact absurd (h.alone t' t (by rw [hpc'']; rfl) (by rw [hpc]; rfl)) ht

theorem grant (h : Attended s b) {s' : StreamRef} (hpc : b.waits t = .loaded s' .empty) :
    Attended s (b.grant t s') := by
  have haway : Attended s (b.setWait t .away) :=
    h.setWait (by simp [WaitPc.stream]) (by simp)
  refine ⟨haway.alone, fun t₁ t₂ h₁ h₂ => ?_, haway.asleep⟩
  by_cases ht : t₂ = t
  · subst ht
    obtain rfl : s' = s := by simpa [Blocking.grant, Pc.stream] using h₂
    have hne : t₁ ≠ t₂ := by
      rintro rfl
      simp [Blocking.grant, Blocking.setWait, WaitPc.stream] at h₁
    have h₁' : (b.waits t₁).stream = some s' := by
      simpa [Blocking.grant, Blocking.setWait, hne] using h₁
    exact hne (h.alone t₁ t₂ h₁' (by rw [hpc]; rfl))
  · exact haway.unheld t₁ t₂ h₁ (by simpa [Blocking.grant, Blocking.setWait, ht] using h₂)

theorem call (h : Attended s b) {s' : StreamRef} (hsolo : b.Solo s (.call t s')) :
    Attended s (b.load t s') := by
  by_cases hs : s' = s
  · subst hs
    have hnone (t' : ℕ) (ht' : t' ≠ t) : ((b.load t s').waits t').stream ≠ some s' := by
      simpa [Blocking.load, Blocking.setWait, ht'] using (hsolo rfl t').1
    have hself (t' : ℕ) (ht' : ((b.load t s').waits t').stream = some s') : t' = t :=
      by_contra fun hne => hnone t' hne ht'
    refine ⟨fun t₁ t₂ h₁ h₂ => (hself t₁ h₁).trans (hself t₂ h₂).symm,
      fun _ t₂ _ => (hsolo rfl t₂).2, fun t' current hpc => ?_⟩
    obtain rfl := hself t' (by rw [hpc]; rfl)
    simp [Blocking.load, Blocking.setWait] at hpc
  · exact h.setWait (fun hs' => absurd (Option.some.inj hs') hs) (by simp)

/-- Every step of threads that use the stream one at a time. -/
theorem step (h : Attended s b) (hplaced : b.Placed) (howned : Owned b.abs) {e : BlockingEvent}
    (hsolo : b.Solo s e) (hnotifies : b.Notifies e) (hstep : b.step mg e = some b') :
    Attended s b' := by
  cases takes_of_step hstep with
  | loop e cfg hdue hcfg => exact h.loop hdue hcfg
  | worker e cfg hloop hwait hout hcfg => exact h.worker hloop hwait hout hplaced howned hsolo hcfg
  | call t s' _ _ _ => exact h.call hsolo
  | load t s' hpc => exact h.setWait (fun hs => by rw [hpc]; exact hs) (by simp)
  | compare t s' current hpc =>
      have hstream : (b.waits t).stream = some s' := by
        rcases hpc with hpc | ⟨hpc, -⟩ <;> rw [hpc] <;> rfl
      refine h.setWait (fun hs => ?_) fun current' hpc' => ?_
      · rw [hstream]
        split_ifs at hs <;> exact hs
      · split_ifs at hpc' with hstate
        obtain ⟨rfl, rfl⟩ : s' = s ∧ current = current' := by simpa using hpc'
        exact hstate
  | grant t s' hpc => exact h.grant hpc
  | giveUp t s' current hpc _ => exact h.setWait (by simp [WaitPc.stream]) (by simp)
  | notifyAll s' due hdue => exact h.notifyAll hdue
  | notifyNone s' due hdue =>
      refine h.tail hdue fun hs t current hpc => ?_
      obtain rfl : s' = s := hs
      exact hnotifies s' due hdue t current hpc
  | notifyOne t s' current due hdue hpc => exact h.notifyOne hdue hpc
  | spurious t s' current hpc =>
      exact h.setWait (fun hs => by rw [hpc]; exact hs) (by simp)

end Attended

def Regular (s : StreamRef) (b : Blocking) (e : BlockingEvent) : Prop := b.Solo s e ∧ b.Notifies e

variable {cfg₀ : Config}

theorem attended_of_reaches (hinit : cfg₀.Initial)
    (h : Reaches (step mg) (Regular s) (start cfg₀) b) : Attended s b := by
  refine h.invariant_of (J := fun b => b.Placed ∧ Owned b.abs) (fun b hb => ?_)
    (Attended.of_start cfg₀) fun b e b' hJ hattended hok hstep => ?_
  · exact owned_of_reaches hinit (hb.mono fun _ _ _ => trivial)
  · exact hattended.step hJ.1 hJ.2 hok.1 hok.2 hstep

end Attended

section Return

variable {mg : Mongoose} {s : StreamRef} {b : Blocking} {t : ℕ} {current : AsyncStream.State}

/-- `wait()` of a thread returns after so many steps of its own. -/
def ReturnsIn (mg : Mongoose) (b : Blocking) (t n : ℕ) : Prop :=
  ∃ b', run (step mg) b (List.replicate n (.resume t)) = some b' ∧ b'.waits t = .away ∧
    b'.cfg.world = b.cfg.world

theorem returnsIn_of_loaded (hpc : b.waits t = .loaded s current) (hcurrent : ¬current.Blocks) :
    b.ReturnsIn mg t 1 := by
  have hrun {b' : Blocking} (hresume : b.resume t = some b') :
      run (step mg) b (List.replicate 1 (.resume t)) = some b' := by
    simp only [List.replicate, run, step, hresume, Option.bind_some]
  cases current with
  | empty => exact ⟨b.grant t s, hrun (by simp only [resume, hpc]), Function.update_self .., rfl⟩
  | completed | failed =>
      exact ⟨b.setWait t .away, hrun (by simp only [resume, hpc]), Function.update_self .., rfl⟩
  | start | hasData | flush | close => exact absurd ⟨by simp, by decide⟩ hcurrent

theorem returnsIn_of_changed (hpc : b.waits t = .changed s) (hstate : ¬(b.state s).Blocks) :
    b.ReturnsIn mg t 2 := by
  have hstep : b.step mg (.resume t) = some (b.load t s) := by simp only [step, resume, hpc]
  have hpc' : (b.load t s).waits t = .loaded s (b.state s) := Function.update_self ..
  obtain ⟨b', hrun, haway, hworld⟩ : (b.load t s).ReturnsIn mg t 1 :=
    returnsIn_of_loaded hpc' hstate
  refine ⟨b', ?_, haway, hworld⟩
  rw [List.replicate_succ, run_cons, hstep]
  exact hrun

theorem returnsIn_of_compare (hstep : b.step mg (.resume t) = some (b.compare t s current))
    (hne : b.state s ≠ current) (hstate : ¬(b.state s).Blocks) : b.ReturnsIn mg t 3 := by
  have hpc : (b.compare t s current).waits t = .changed s := by simp [compare, setWait, hne]
  obtain ⟨b', hrun, haway, hworld⟩ : (b.compare t s current).ReturnsIn mg t 2 :=
    returnsIn_of_changed hpc hstate
  refine ⟨b', ?_, haway, hworld⟩
  rw [List.replicate_succ, run_cons, hstep]
  exact hrun

/-- Whoever does not sleep sees that there is an answer. -/
theorem exists_returnsIn (hblocks : ∀ t, (b.waits t).Blocks) (ht : (b.waits t).stream = some s)
    (hasleep : ∀ current, b.waits t ≠ .asleep s current) (hstate : ¬(b.state s).Blocks) :
    ∃ n ≤ 3, b.ReturnsIn mg t n := by
  have hthread := hblocks t
  cases hpc : b.waits t with
  | away => simp [hpc, WaitPc.stream] at ht
  | asleep s' current =>
      obtain rfl : s' = s := by simpa [hpc, WaitPc.stream] using ht
      exact absurd hpc (hasleep current)
  | awake s' current =>
      obtain rfl : s' = s := by simpa [hpc, WaitPc.stream] using ht
      have hstep : b.step mg (.resume t) = some (b.compare t s' current) := by
        simp only [step, resume, hpc]
      rw [hpc] at hthread
      have hne : b.state s' ≠ current := fun hsame => hstate (hsame ▸ hthread)
      exact ⟨3, le_rfl, returnsIn_of_compare hstep hne hstate⟩
  | changed s' =>
      obtain rfl : s' = s := by simpa [hpc, WaitPc.stream] using ht
      exact ⟨2, by omega, returnsIn_of_changed hpc hstate⟩
  | loaded s' current =>
      obtain rfl : s' = s := by simpa [hpc, WaitPc.stream] using ht
      by_cases hcurrent : current.Blocks
      · have hstep : b.step mg (.resume t) = some (b.compare t s' current) := by
          obtain ⟨hempty, hterminal⟩ := hcurrent
          cases current <;> simp_all [step, resume, AsyncStream.State.IsTerminal]
        have hne : b.state s' ≠ current := fun hsame => hstate (hsame ▸ hcurrent)
        exact ⟨3, le_rfl, returnsIn_of_compare hstep hne hstate⟩
      · exact ⟨1, by omega, returnsIn_of_loaded hpc hcurrent⟩

end Return

end Blocking

end Mgxx.Http
