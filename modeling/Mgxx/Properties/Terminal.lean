import Mgxx.Concurrency.Atomic

/-!
The end of a stream: the states `completed` and `failed`, and the close of a
connection.
-/

namespace Mgxx.Http

open Mgxx.Library

namespace AsyncStream

theorem serve_of_terminal {stream : AsyncStream} (h : stream.mState.IsTerminal) :
    stream.serve = stream := by
  rcases h with h | h <;> simp [serve, h]

theorem release_of_terminal {stream : AsyncStream} (h : stream.mState.IsTerminal)
    (blocked : Bool) : stream.release blocked = stream := by
  rcases h with h | h <;> simp [release, h]

/-- The state a producer's call leaves. -/
theorem mState_put (stream : AsyncStream) (op : Put) (wake : Wake) :
    (stream.put op wake).1.mState = if wake = .refused then .failed else op.state := by
  cases wake <;> simp [put]

end AsyncStream

theorem Put.state_not_terminal (op : Put) : ¬op.state.IsTerminal := by
  cases op <;> simp [Put.state, AsyncStream.State.IsTerminal]

namespace Shared

variable (q : Shared) (r : ℕ)

/-- A call on a response leaves the streams made before it alone. -/
theorem stream_wholeCall {n : ℕ} (hn : n < q.made) (call : Call) (wake : Wake) :
    (q.wholeCall r wake call).shared.stream n = q.stream n := by
  cases call with
  | send code body => rfl
  | stream code encoding =>
      simp only [wholeCall]
      cases (q.response.stream code encoding ⟨r, q.made⟩ wake).made with
      | none => rfl
      | some stream => exact Function.update_of_ne (Nat.ne_of_lt hn) ..

theorem made_le_wholeCall (call : Call) (wake : Wake) :
    q.made ≤ (q.wholeCall r wake call).shared.made := by
  cases call with
  | send code body => exact le_rfl
  | stream code encoding => exact Nat.le_add_right ..

end Shared

namespace Owned

variable {cfg : Config} {mg : Mongoose}

variable (mg) in
/-- No event of the loop changes a stream that is at its end. -/
theorem mState_handle_of_terminal (h : Owned cfg) (e : LoopEvent) {s : StreamRef}
    (hterminal : (cfg.world.streams s).mState.IsTerminal) :
    ((cfg.world.handle mg e).streams s).mState = (cfg.world.streams s).mState := by
  rcases World.streams_handle mg cfg.world e s with
    hsame | hserve | ⟨-, -, hrelease⟩ | ⟨-, hs, hfailed⟩
  · rw [hsame]
  · rw [hserve, AsyncStream.serve_of_terminal hterminal]
  · rw [hrelease, AsyncStream.release_of_terminal hterminal]
  · -- a completed stream has left the table
    obtain ⟨id, hid⟩ := (World.mem_streamsOf ..).mp hs
    rw [hfailed]
    rcases hterminal with hcompleted | hfailed
    · exact absurd hcompleted (h.tabled _ id s hid).1
    · exact hfailed.symm

end Owned

namespace Config

variable {mg : Mongoose} {cfg cfg' cfg₀ : Config} {s : StreamRef} {e : AtomicEvent}

theorem made_le_atomicStep (hstep : cfg.atomicStep mg e = some cfg') (r : ℕ) :
    cfg.world.made r ≤ cfg'.world.made r := by
  cases e with
  | loop e =>
      obtain ⟨-, rfl⟩ := step_loop hstep
      exact Nat.le_of_eq (congrFun (World.made_handle mg cfg.world e) r).symm
  | headers r' headers =>
      obtain rfl := atomicStep_headers hstep
      exact le_rfl
  | wait s =>
      obtain rfl := atomicStep_wait hstep
      exact le_rfl
  | call r' call wake =>
      obtain ⟨-, rfl⟩ := atomicStep_call hstep
      rw [made_commit]
      split_ifs with hr
      · exact hr ▸ (cfg.shared r').made_le_wholeCall r' call wake
      · exact le_rfl
  | put s' op wake =>
      obtain ⟨-, rfl⟩ := atomicStep_put hstep
      rw [made_commit]
      split_ifs with hr
      · rw [hr]
        exact le_rfl
      · exact le_rfl

theorem streams_wholePut_of_ne {s' : StreamRef} (hs : s ≠ s') (op : Put) (wake : Wake) :
    (cfg.commit 0 s'.response ((cfg.shared s'.response).wholePut s' op wake)).world.streams s =
      cfg.world.streams s := by
  rw [streams_commit]
  split_ifs with hr
  · have hn : s.number ≠ s'.number := by
      intro hn
      cases s
      cases s'
      simp_all
    simp only [Shared.wholePut, Function.update_of_ne hn, shared, ← hr]
  · rfl

/-- `send` and `close` overwrite the state whatever it is; nothing else does. -/
theorem mState_atomicStep (howned : Owned cfg) (hs : s.number < cfg.world.made s.response)
    (hterminal : (cfg.world.streams s).mState.IsTerminal)
    (hstep : cfg.atomicStep mg e = some cfg') :
    (cfg'.world.streams s).mState = (cfg.world.streams s).mState ↔
      ∀ op wake, e = .put s op wake →
        wake = .refused ∧ (cfg.world.streams s).mState = .failed := by
  have hkept (hne : ∀ op wake, e ≠ .put s op wake)
      (hsame : (cfg'.world.streams s).mState = (cfg.world.streams s).mState) :
      (cfg'.world.streams s).mState = (cfg.world.streams s).mState ↔
        ∀ op wake, e = .put s op wake →
          wake = .refused ∧ (cfg.world.streams s).mState = .failed :=
    iff_of_true hsame fun op wake he => absurd he (hne op wake)
  cases e with
  | loop e =>
      obtain ⟨-, rfl⟩ := step_loop hstep
      exact hkept (by simp) (howned.mState_handle_of_terminal mg e hterminal)
  | headers r headers =>
      obtain rfl := atomicStep_headers hstep
      exact hkept (by simp) rfl
  | wait s' =>
      obtain rfl := atomicStep_wait hstep
      exact hkept (by simp) rfl
  | call r call wake =>
      obtain ⟨-, rfl⟩ := atomicStep_call hstep
      refine hkept (by simp) ?_
      rw [streams_commit]
      split_ifs with hr
      · subst hr
        rw [(cfg.shared s.response).stream_wholeCall s.response hs call wake]
        rfl
      · rfl
  | put s' op wake =>
      obtain ⟨-, rfl⟩ := atomicStep_put hstep
      by_cases hs' : s = s'
      · subst hs'
        have hstate : ((cfg.commit 0 s.response
            ((cfg.shared s.response).wholePut s op wake)).world.streams s).mState =
            if wake = .refused then .failed else op.state := by
          rw [streams_commit, if_pos rfl]
          simp only [Shared.wholePut, Function.update_self, AsyncStream.mState_put]
        rw [hstate]
        constructor
        · intro hsame op' wake' he
          obtain ⟨-, rfl, rfl⟩ := AtomicEvent.put.inj he
          split_ifs at hsame with hwake
          · exact ⟨hwake, hsame.symm⟩
          · exact absurd (hsame ▸ hterminal) (Put.state_not_terminal op)
        · intro hput
          obtain ⟨rfl, hfailed⟩ := hput op wake rfl
          exact hfailed.symm
      · exact hkept (by simp [Ne.symm hs']) (congrArg _ (streams_wholePut_of_ne hs' op wake))

/-- A stream at its end keeps its state, and its producer is told so by every
later `wait`, exactly as long as nobody calls `send` or `close` on it; a call
whose wake-up is refused does no harm to a stream that has failed. -/
theorem terminal_kept_iff (hinit : cfg₀.Initial) (h : Reaches (atomicStep mg) anyEvent cfg₀ cfg)
    (hs : s.number < cfg.world.made s.response)
    (hterminal : (cfg.world.streams s).mState.IsTerminal) {es : List AtomicEvent}
    (hrun : run (atomicStep mg) cfg es = some cfg') :
    (∀ xs cfg₁, xs <+: es → run (atomicStep mg) cfg xs = some cfg₁ →
        (cfg₁.world.streams s).mState = (cfg.world.streams s).mState ∧
          (cfg₁.world.streams s).wait = some false) ↔
      ∀ op wake, AtomicEvent.put s op wake ∈ es →
        wake = .refused ∧ (cfg.world.streams s).mState = .failed := by
  have hwait : (cfg.world.streams s).wait = some false :=
    (AsyncStream.wait_eq_false_iff _).mpr hterminal
  induction es generalizing cfg with
  | nil =>
      refine iff_of_true (fun xs cfg₁ hxs hrun => ?_) (by simp)
      obtain rfl := List.prefix_nil.mp hxs
      obtain rfl := Option.some.inj hrun
      exact ⟨rfl, hwait⟩
  | cons e es ih =>
      obtain ⟨cfg₂, hstep, hrest⟩ := Option.bind_eq_some_iff.mp hrun
      have hone := mState_atomicStep (Owned.of_atomic hinit h) hs hterminal hstep
      have hs₂ := Nat.lt_of_lt_of_le hs (made_le_atomicStep hstep s.response)
      have hlater (hsame : (cfg₂.world.streams s).mState = (cfg.world.streams s).mState) := by
        have hterminal₂ : (cfg₂.world.streams s).mState.IsTerminal := hsame ▸ hterminal
        have hih := ih (h.next trivial hstep) hs₂ hterminal₂ hrest
          ((AsyncStream.wait_eq_false_iff _).mpr hterminal₂)
        rwa [hsame] at hih
      constructor
      · intro hall op wake hmem
        have hsame := (hall [e] cfg₂ ⟨es, rfl⟩ (by simp [hstep])).1
        rcases List.mem_cons.mp hmem with rfl | hmem
        · exact hone.mp hsame op wake rfl
        · refine (hlater hsame).mp (fun xs cfg₁ hxs hrun => ?_) op wake hmem
          exact hall (e :: xs) cfg₁ (List.cons_prefix_cons.mpr ⟨rfl, hxs⟩) (by simp [hstep, hrun])
      · intro hput xs cfg₁ hxs hrun
        have hsame := hone.mpr fun op wake he => hput op wake (he ▸ List.mem_cons_self)
        rcases List.prefix_cons_iff.mp hxs with rfl | ⟨ys, rfl, hys⟩
        · obtain rfl := Option.some.inj hrun
          exact ⟨rfl, hwait⟩
        · refine (hlater hsame).mpr (fun op wake hmem => ?_) ys cfg₁ hys ?_
          · exact hput op wake (List.mem_cons_of_mem e hmem)
          · simpa [hstep] using hrun

def leavingClient : List AtomicEvent :=
  [.loop (.accept 0), .loop (.httpMessage 0 ⟨[], []⟩ []),
    .call 0 (.stream 200 (text "chunked")) .accepted, .loop (.wakeup 0 0),
    .loop (.mongoose 0 []), .loop (.write 0), .wait ⟨0, 0⟩, .loop (.close 0)]

theorem terminal_kept_first : ∃ cfg : Config,
    run (atomicStep .plain) (start asyncRoutes) leavingClient = some cfg ∧
      (cfg.world.streams ⟨0, 0⟩).mState = .failed ∧
      ∀ xs cfg₁, xs <+: [AtomicEvent.wait ⟨0, 0⟩] → run (atomicStep .plain) cfg xs = some cfg₁ →
        (cfg₁.world.streams ⟨0, 0⟩).mState = (cfg.world.streams ⟨0, 0⟩).mState ∧
          (cfg₁.world.streams ⟨0, 0⟩).wait = some false := by
  have hrun : Reaches (atomicStep .plain) anyEvent (start asyncRoutes) _ :=
    reaches_of_run rfl (meets_anyEvent _ leavingClient)
  exact ⟨_, rfl, rfl, (terminal_kept_iff (initial_start _) hrun (by decide) (Or.inr rfl) rfl).mpr
    (by simp)⟩

/-- `wait` has returned true, the connection closes, and the producer calls
`send`: the stream is no longer failed, and its `wait` never returns. -/
theorem failed_stream_revived : ∃ cfg cfg',
    run (atomicStep .plain) (start asyncRoutes) leavingClient = some cfg ∧
      (cfg.world.streams ⟨0, 0⟩).mState = .failed ∧
      cfg.atomicStep .plain (.put ⟨0, 0⟩ (.send [1]) .accepted) = some cfg' ∧
      (cfg'.world.streams ⟨0, 0⟩).mState = .hasData ∧
      (cfg'.world.streams ⟨0, 0⟩).wait = none :=
  ⟨_, _, rfl, rfl, rfl, rfl, rfl⟩

end Config

end Mgxx.Http
