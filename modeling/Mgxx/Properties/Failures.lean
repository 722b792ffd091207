import Mgxx.Concurrency.Use

/-!
A request whose answer could not be posted.
-/

namespace Mgxx.Http

open Mgxx.Library

/-- The call has learned that its wake-up could not be posted, and has yet to
store `failed`. -/
def Pc.Failing (pc : Pc) (r : ℕ) : Prop := pc = .sendDecided r false ∨ pc = .streamDecided r false

theorem Pc.Failing.unposted {pc : Pc} {r : ℕ} (h : pc.Failing r) : pc.unposted = some r := by
  rcases h with rfl | rfl <;> rfl

/-- The response has failed before anything was posted or written.  `polled`
says whether a poll has come since and has sent the error. -/
structure View.Failed (r : ℕ) (polled : Bool) (v : View) : Prop where
  mState : v.shared.response.mState = .failed
  pending : v.pending = !polled
  table : v.table = none
  inFlight : v.inFlight = 0
  threads : ∀ t, v.threads t = .idle
  returned : ∀ s, some s ∉ v.shared.history.returned
  outputs : v.outputs = if polled then [⟨.failed r, internalServerError⟩] else []

namespace View.Failed

variable {r : ℕ} {polled : Bool} {v v' : View}

theorem poll (h : v.Failed r polled) : (v.poll r).Failed r true := by
  unfold View.poll
  cases polled with
  | false =>
      have hpending : v.pending = true := h.pending
      rw [if_pos ⟨hpending, h.mState⟩]
      refine ⟨h.mState, rfl, h.table, h.inFlight, h.threads, h.returned, ?_⟩
      rw [show v.outputs = [] from h.outputs]
      rfl
  | true =>
      have hpending : v.pending = false := h.pending
      rw [if_neg (by simp [hpending])]
      exact h

/-- Nothing but a poll changes a failed request. -/
theorem step {ve : View.Event} (h : v.Failed r polled) (hpoll : ve ≠ .poll)
    (hstep : v.step r ve = some v') : v'.Failed r polled := by
  cases ve with
  | poll => exact absurd rfl hpoll
  | deliver =>
      exact absurd h.inFlight (Nat.ne_of_gt (step_deliver hstep).1)
  | release blocked =>
      rw [View.step, release_of_none h.table] at hstep
      exact Option.some.inj hstep ▸ h
  | headers headers =>
      obtain rfl := Option.some.inj hstep
      exact ⟨h.mState, h.pending, h.table, h.inFlight, h.threads, h.returned, h.outputs⟩
  | wait t s =>
      exact absurd (step_wait hstep).2.1 (h.returned s)
  | put t s op =>
      exact absurd (step_put hstep).2.1 (h.returned s)
  | advance t answer =>
      obtain rfl := Option.some.inj hstep
      rwa [advance_of_idle (h.threads t)]
  | begin t call =>
      obtain ⟨-, rfl⟩ := step_begin hstep
      have hne : v.shared.response.mState ≠ .pending := by rw [h.mState]; simp
      have hthreads (t' : ℕ) : Function.update v.threads t .idle t' = .idle := by
        rw [Function.update_apply]
        split_ifs
        · rfl
        · exact h.threads t'
      rw [Shared.begin_of_ne hne]
      exact ⟨h.mState, h.pending, h.table, h.inFlight, hthreads,
        call.returned_refusal h.returned, h.outputs⟩

end View.Failed

namespace Config

variable {mg : Mongoose} {cfg cfg' cfg₀ cfg₁ cfg₂ cfg₃ : Config} {r t : ℕ}

theorem about_eq_poll_iff {e : Event} :
    e.about mg cfg r = some .poll ↔ e = .loop (.poll (cfg.conn r)) := by
  refine ⟨event_of_about, ?_⟩
  rintro rfl
  simp [Event.about]

/-- The failing call stores `failed`. -/
theorem failed_of_failing (hinit : cfg₀.Initial) (h : Reaches (step mg) (Conforming r) cfg₀ cfg₁)
    (hfailing : (cfg₁.threads t).Failing r) {answer : Bool}
    (hstep : cfg₁.step mg (.advance t answer) = some cfg₂) (hopen : cfg₂.IsOpen r) :
    (cfg₂.view r).Failed r false := by
  have howned := Owned.of_reaches hinit h
  have hrequest : (cfg₁.threads t).request = some r := by
    rcases hfailing with hpc | hpc <;> simp [hpc, Pc.request]
  have hr := howned.thread t r hrequest
  have hthread : (cfg₁.view r).threads t = cfg₁.threads t := threads_view_of_request hrequest
  have hstage : Progress.Stage .any 1 r (cfg₁.view r).progress :=
    stage_of_reaches hinit h (fun _ e hok => ⟨hok, permitted_any r e⟩) hr
      (isOpen_of_step howned hr hstep hopen)
  have hunposted : ((cfg₁.view r).progress.threads t).unposted = some r := by
    rw [View.progress_threads, hthread]
    exact hfailing.unposted
  obtain ⟨hwaiting, honly, -⟩ := hstage.waiting_of_unposted hunposted
  have hview := view_step mg howned hr hstep hopen
  simp only [Event.about, if_pos hrequest, View.step, Option.some.injEq, hthread] at hview
  have hidle : ∀ access : Access, access.pc = .idle →
      ∀ t', ((cfg₁.view r).commit t access).threads t' = .idle :=
    fun access hpc => congrFun (View.quiet_commit honly hpc)
  have hreturned : ∀ s, some s ∉ (cfg₁.view r).shared.history.returned := by
    intro s hs
    have hmem : s ∈ (cfg₁.view r).progress.handles := List.reduceOption_mem_iff.mpr hs
    rw [hwaiting.handles] at hmem
    exact absurd hmem (by simp)
  -- the last access of `send`, and that of `stream`, which returns null besides
  rw [← hview]
  rcases hfailing with hpc | hpc
  · rw [hpc]
    exact ⟨rfl, hwaiting.pending, hwaiting.table, hwaiting.inFlight, hidle _ rfl, hreturned,
      hwaiting.outputs⟩
  · rw [hpc]
    refine ⟨rfl, hwaiting.pending, hwaiting.table, hwaiting.inFlight, hidle _ rfl,
      fun s hs => hreturned s ?_, hwaiting.outputs⟩
    simpa [Shared.advance, Shared.returns, Shared.updateResponse] using hs

/-- From the failure on, the request is answered by the first poll of its
connection, and by nothing else. -/
theorem failed_of_run {polled : Bool} (hfailed : (cfg.view r).Failed r polled) (howned : Owned cfg)
    (hr : r < cfg.world.mRequestCounter) {es : List Event}
    (hrun : run (step mg) cfg es = some cfg') (hopen : cfg'.IsOpen r) :
    ∃ polled', (cfg'.view r).Failed r polled' ∧
      (polled' = true ↔ polled = true ∨ Event.loop (.poll (cfg.conn r)) ∈ es) := by
  induction es generalizing cfg polled with
  | nil =>
      obtain rfl := Option.some.inj hrun
      exact ⟨polled, hfailed, by simp⟩
  | cons e es ih =>
      obtain ⟨cfg₁, hstep, hrest⟩ := Option.bind_eq_some_iff.mp hrun
      have howned₁ := howned.step hstep
      have hr₁ := Nat.lt_of_lt_of_le hr (mRequestCounter_le_step hstep)
      have hopen₁ := isOpen_of_reaches howned₁ hr₁
        (reaches_of_run hrest (meets_anyEvent cfg₁ es)) hopen
      have hview := view_step mg howned hr hstep hopen₁
      have hconn := conn_step howned hr hstep
      -- `polled` says what has happened so far, so that it changes at the first poll only
      by_cases hpoll : e = .loop (.poll (cfg.conn r))
      · rw [about_eq_poll_iff.mpr hpoll] at hview
        have hfailed₁ : (cfg₁.view r).Failed r true := Option.some.inj hview ▸ hfailed.poll
        obtain ⟨polled', hfailed', hiff⟩ := ih hfailed₁ howned₁ hr₁ hrest
        exact ⟨polled', hfailed', by simp [hiff, hpoll]⟩
      · have hfailed₁ : (cfg₁.view r).Failed r polled := by
          cases habout : e.about mg cfg r with
          | none =>
              rw [habout] at hview
              exact hview ▸ hfailed
          | some ve =>
              rw [habout] at hview
              refine hfailed.step ?_ hview
              rintro rfl
              exact hpoll (about_eq_poll_iff.mp habout)
        obtain ⟨polled', hfailed', hiff⟩ := ih hfailed₁ howned₁ hr₁ hrest
        refine ⟨polled', hfailed', ?_⟩
        rw [hiff, hconn, List.mem_cons]
        exact ⟨fun h => h.imp_right Or.inr, fun h => h.imp_right fun h =>
          h.resolve_left fun heq => hpoll heq.symm⟩

/-- A poll erases the failed responses of its connection and keeps every other entry. -/
theorem find_of_poll {c : ℕ} (hstep : cfg.step mg (.loop (.poll c)) = some cfg') (c' id : ℕ) :
    cfg'.world.mPendingResponses.find c' id =
      (cfg.world.mPendingResponses.find c' id).filter fun r =>
        ¬(c' = c ∧ (cfg.world.responses r).mState = .failed) := by
  obtain ⟨-, rfl⟩ := step_loop hstep
  rw [World.handle, World.find_mPendingResponses_handlePoll]
  cases hentry : cfg.world.mPendingResponses.find c' id with
  | none => simp
  | some r =>
      by_cases hc : c' = c
      · subst hc
        by_cases hstate : (cfg.world.responses r).mState = .failed
        · rw [if_pos ⟨rfl, (World.mem_failedIds ..).mpr ⟨r, hentry, hstate⟩⟩]
          simp [hstate, Option.filter]
        · rw [if_neg]
          · simp [hstate, Option.filter]
          · rintro ⟨-, hmem⟩
            obtain ⟨r', hr', hstate'⟩ := (World.mem_failedIds ..).mp hmem
            exact hstate (Option.some.inj (hentry.symm.trans hr') ▸ hstate')
      · simp [hc, Option.filter]

/-- A request whose first effective call could not post its wake-up is answered
with the error by the first poll of its connection after the failure, and by
nothing else, whatever is called and whatever happens.  Every poll erases
exactly the failed responses of its connection. -/
theorem failure_reported_once (hinit : cfg₀.Initial)
    (h : Reaches (step mg) (Conforming r) cfg₀ cfg₁) (hfailing : (cfg₁.threads t).Failing r)
    {answer : Bool} (hstep : cfg₁.step mg (.advance t answer) = some cfg₂) {es : List Event}
    (hrun : run (step mg) cfg₂ es = some cfg₃) (hopen : cfg₃.IsOpen r) :
    (Event.loop (.poll (cfg₂.conn r)) ∈ es →
        (cfg₃.view r).outputs = [⟨.failed r, internalServerError⟩] ∧
          cfg₃.world.mPendingResponses.find (cfg₃.conn r) r = none) ∧
      (Event.loop (.poll (cfg₂.conn r)) ∉ es →
        (cfg₃.view r).outputs = [] ∧
          cfg₃.world.mPendingResponses.find (cfg₃.conn r) r = some r) ∧
      ∀ before c after cfg cfg', es = before ++ .loop (.poll c) :: after →
        run (step mg) cfg₂ before = some cfg → cfg.step mg (.loop (.poll c)) = some cfg' →
        ∀ c' id, cfg'.world.mPendingResponses.find c' id =
          (cfg.world.mPendingResponses.find c' id).filter fun r' =>
            ¬(c' = c ∧ (cfg.world.responses r').mState = .failed) := by
  have hreach₁ : Reaches (step mg) anyEvent cfg₀ cfg₁ := h.mono fun _ _ _ => trivial
  have hreach₂ := hreach₁.next trivial hstep
  have howned₂ := Owned.of_reaches hinit hreach₂
  have hreach := reaches_of_run hrun (meets_anyEvent cfg₂ es)
  have hr₂ : r < cfg₂.world.mRequestCounter := by
    have hrequest : (cfg₁.threads t).request = some r := by
      rcases hfailing with hpc | hpc <;> simp [hpc, Pc.request]
    exact Nat.lt_of_lt_of_le ((Owned.of_reaches hinit h).thread t r hrequest)
      (mRequestCounter_le_step hstep)
  have hopen₂ := isOpen_of_reaches howned₂ hr₂ hreach hopen
  have hfailed₂ := failed_of_failing hinit h hfailing hstep hopen₂
  obtain ⟨polled, hfailed, hiff⟩ := failed_of_run hfailed₂ howned₂ hr₂ hrun hopen
  have hiff : polled = true ↔ Event.loop (.poll (cfg₂.conn r)) ∈ es := by simpa using hiff
  have hpending : (cfg₃.world.mPendingResponses.find (cfg₃.conn r) r).isSome = !polled :=
    hfailed.pending
  refine ⟨fun hpoll => ?_, fun hpoll => ?_, fun _ c _ cfg cfg' _ _ hpoll => find_of_poll hpoll⟩
  · obtain rfl := hiff.mpr hpoll
    exact ⟨hfailed.outputs, by simpa using hpending⟩
  · obtain rfl : polled = false := by simpa using fun h => hpoll (hiff.mp h)
    obtain ⟨r', hr'⟩ := Option.isSome_iff_exists.mp hpending
    obtain ⟨rfl, -⟩ := (Owned.of_reaches hinit (hreach₂.trans hreach)).responseEntry _ _ _ hr'
    exact ⟨hfailed.outputs, hr'⟩

def refusedSend : List Event :=
  firstRequest ++ [.begin 0 0 (.send 200 []), .advance 0 true, .advance 0 false]

theorem failure_reported_once_first : ∃ cfg₁ cfg₂ cfg₃ : Config,
    run (step .plain) (start asyncRoutes) refusedSend = some cfg₁ ∧
      cfg₁.step .plain (.advance 0 true) = some cfg₂ ∧
      run (step .plain) cfg₂ [.loop (.poll 0), .begin 0 0 (.send 200 []), .loop (.poll 0)] =
        some cfg₃ ∧
      (cfg₃.view 0).outputs = [⟨.failed 0, internalServerError⟩] ∧
      cfg₃.world.mPendingResponses.find (cfg₃.conn 0) 0 = none := by
  have hmeets : Meets (step .plain) (Conforming 0) (start asyncRoutes) refusedSend :=
    ⟨trivial, trivial, fun _ t => by cases t <;> nofun, trivial, trivial, trivial⟩
  have hrun : Reaches (step .plain) (Conforming 0) (start asyncRoutes) _ :=
    reaches_of_run rfl hmeets
  have hstored : ((run (step .plain) (start asyncRoutes) refusedSend).get rfl).step .plain
      (.advance 0 true) = some _ := rfl
  have hpolled : run (step .plain)
      ((run (step .plain) (start asyncRoutes) (refusedSend ++ [.advance 0 true])).get rfl)
      [.loop (.poll 0), .begin 0 0 (.send 200 []), .loop (.poll 0)] = some _ := rfl
  exact ⟨_, _, _, rfl, hstored, hpolled, (failure_reported_once (initial_start asyncRoutes) hrun
    (Or.inl rfl) hstored hpolled rfl).1 List.mem_cons_self⟩

end Config

end Mgxx.Http
