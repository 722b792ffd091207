import Mgxx.Concurrency.AtomicRuns

/-!
What a caller of the asynchronous interface can learn of a call that has had no
effect: either a wake-up is on its way, or the object says that it has failed.
-/

namespace Mgxx.Http

open Mgxx.Library

namespace Config

/-- One wake-up has been posted, for this connection and id. -/
def Posts (cfg cfg' : Config) (c id : ℕ) : Prop :=
  cfg'.world.wakeups = cfg.world.wakeups ++ [(c, id)]

/-- No wake-up has been posted, and the stream says that it has failed, to
`failed()` and to the next `wait()`. -/
structure Fails (cfg cfg' : Config) (s : StreamRef) : Prop where
  wakeups : cfg'.world.wakeups = cfg.world.wakeups
  failed : (cfg'.world.streams s).failed = true
  wait : (cfg'.world.streams s).wait = some false

variable {mg : Mongoose} {cfg cfg' : Config} {r : ℕ} {s : StreamRef}

theorem posts_of_call {call : Call} {wake : Wake}
    (hstate : (cfg.world.responses r).mState = .pending)
    (hstep : cfg.atomicStep mg (.call r call wake) = some cfg') :
    cfg.Posts cfg' (cfg.world.responses r).mConn (cfg.world.responses r).mId ∨
      cfg'.world.wakeups = cfg.world.wakeups ∧ (cfg'.world.responses r).mState = .failed := by
  obtain ⟨-, rfl⟩ := atomicStep_call hstep
  have hresponse : (cfg.shared r).response = cfg.world.responses r := rfl
  rw [responses_commit, if_pos rfl, wakeups_commit, Posts, wakeups_commit]
  cases wake with
  | accepted =>
      left
      cases call <;> simp [Shared.wholeCall, AsyncResponse.send, AsyncResponse.stream, hresponse,
        hstate, Shared.wakeup]
  | refused =>
      right
      cases call <;> simp [Shared.wholeCall, AsyncResponse.send, AsyncResponse.stream, hresponse,
        hstate, Shared.wakeup]
  | expired =>
      right
      cases call <;> simp [Shared.wholeCall, AsyncResponse.send, AsyncResponse.stream, hresponse,
        hstate, Shared.wakeup]

/-- What the producer's call leaves of its stream, and the wake-ups it posts. -/
theorem world_of_put {op : Put} {wake : Wake}
    (hstep : cfg.atomicStep mg (.put s op wake) = some cfg') :
    cfg'.world.streams s = ((cfg.world.streams s).put op wake).1 ∧
      cfg'.world.wakeups = cfg.world.wakeups ++
        if wake = .accepted then [((cfg.world.streams s).mConn, (cfg.world.streams s).mId)]
        else [] := by
  obtain ⟨-, rfl⟩ := atomicStep_put hstep
  constructor
  · rw [streams_commit, if_pos rfl]
    exact Function.update_self ..
  · rw [wakeups_commit]
    cases wake <;> rfl

theorem posts_or_fails_iff {op : Put} {wake : Wake}
    (hstep : cfg.atomicStep mg (.put s op wake) = some cfg') :
    (cfg.Posts cfg' (cfg.world.streams s).mConn (cfg.world.streams s).mId ∨ cfg.Fails cfg' s) ↔
      wake ≠ .expired := by
  obtain ⟨hstream, hwakeups⟩ := world_of_put hstep
  cases wake with
  | accepted => exact iff_of_true (Or.inl hwakeups) (by simp)
  | refused =>
      refine iff_of_true (Or.inr ⟨?_, ?_, ?_⟩) (by simp)
      · simpa using hwakeups
      · simp [hstream, AsyncStream.put, AsyncStream.failed]
      · simp [hstream, AsyncStream.put, AsyncStream.wait]
  | expired =>
      have hstate : (cfg'.world.streams s).mState = op.state := by
        rw [hstream, AsyncStream.put, AsyncStream.mState_store]
      refine iff_of_false ?_ (by simp)
      rintro (hposts | hfails)
      · rw [Posts, hwakeups] at hposts
        exact absurd hposts (by simp)
      · have hfailed := hfails.failed
        cases op <;> simp [AsyncStream.failed, hstate, Put.state] at hfailed

/-- In every state and whatever the environment answers: a call on a pending
response posts its wake-up or leaves the response failed; a call on a stream
that is not at its end does the same for the stream exactly when the manager is
alive. -/
theorem effects_reported_iff (mg : Mongoose) (cfg : Config) :
    (∀ r call wake cfg', (cfg.world.responses r).mState = .pending →
      cfg.atomicStep mg (.call r call wake) = some cfg' →
      cfg.Posts cfg' (cfg.world.responses r).mConn (cfg.world.responses r).mId ∨
        cfg'.world.wakeups = cfg.world.wakeups ∧ (cfg'.world.responses r).mState = .failed) ∧
      ∀ s op wake cfg', ¬(cfg.world.streams s).mState.IsTerminal →
        cfg.atomicStep mg (.put s op wake) = some cfg' →
        ((cfg.Posts cfg' (cfg.world.streams s).mConn (cfg.world.streams s).mId ∨
            cfg.Fails cfg' s) ↔ wake ≠ .expired) :=
  ⟨fun _ _ _ _ hstate hstep => posts_of_call hstate hstep,
    fun _ _ _ _ _ hstep => posts_or_fails_iff hstep⟩

def grantedStream : List AtomicEvent :=
  [.loop (.accept 0), .loop (.httpMessage 0 ⟨[], []⟩ []),
    .call 0 (.stream 200 (text "chunked")) .accepted, .loop (.wakeup 0 0),
    .loop (.mongoose 0 []), .loop (.write 0), .wait ⟨0, 0⟩]

theorem effects_reported_iff_first : ∃ cfg cfg' : Config,
    run (atomicStep .plain) (start asyncRoutes) grantedStream = some cfg ∧
      cfg.atomicStep .plain (.put ⟨0, 0⟩ (.send [1]) .refused) = some cfg' ∧
      (cfg.Posts cfg' 0 0 ∨ cfg.Fails cfg' ⟨0, 0⟩) :=
  ⟨_, _, rfl, rfl, ((effects_reported_iff .plain _).2 ⟨0, 0⟩ (.send [1]) .refused _ (by decide)
    rfl).mpr (by decide)⟩

/-- The server is destroyed: it closes the connection, and the manager expires.
A chunk that is sent then overwrites the failure, and the next `wait` blocks.  A
stream that is in no table when the connection closes is not failed at all, and
what is sent on it is lost as silently. -/
theorem send_without_manager :
    (∃ cfg cfg' : Config,
      run (atomicStep .plain) (start asyncRoutes) (grantedStream ++ [.loop (.close 0)]) = some cfg ∧
        cfg.atomicStep .plain (.put ⟨0, 0⟩ (.send [1]) .expired) = some cfg' ∧
        cfg'.world.wakeups = cfg.world.wakeups ∧
        (cfg'.world.streams ⟨0, 0⟩).failed = false ∧ (cfg'.world.streams ⟨0, 0⟩).wait = none) ∧
      ∃ cfg cfg' : Config,
        run (atomicStep .plain) (start asyncRoutes)
            (grantedStream.take 3 ++ [.loop (.close 0)]) = some cfg ∧
          ¬(cfg.world.streams ⟨0, 0⟩).mState.IsTerminal ∧
          cfg.atomicStep .plain (.put ⟨0, 0⟩ (.send [1]) .expired) = some cfg' ∧
          cfg'.world.wakeups = cfg.world.wakeups ∧
          (cfg'.world.streams ⟨0, 0⟩).failed = false ∧
          (cfg'.world.streams ⟨0, 0⟩).wait = none :=
  ⟨⟨_, _, rfl, rfl, rfl, rfl, rfl⟩, _, _, rfl, by decide, rfl, rfl, rfl, rfl⟩

end Config

end Mgxx.Http
