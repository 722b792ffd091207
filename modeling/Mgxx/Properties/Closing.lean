import Mgxx.Concurrency.AtomicRuns
import Mgxx.Properties.Terminal

/-!
The close of a connection, and the producers that wait for it.
-/

namespace Mgxx.Http

open Mgxx.Library

/-- Where the streams of an open request are: at their end, in the table, or
with the response that is still in its own table. -/
structure View.Accounted (v : View) : Prop where
  returned : ∀ s, some s ∈ v.shared.history.returned →
    (v.shared.stream s.number).mState.IsTerminal ∨ v.table = some s ∨
      v.pending = true ∧ v.shared.response.mState = .streaming ∧ v.shared.response.mStream = some s
  pending : v.shared.response.mState = .pending → v.pending = true
  streaming : ∀ s, v.shared.response.mState = .streaming → v.shared.response.mStream = some s →
    some s ∈ v.shared.history.returned

namespace View.Accounted

variable {v : View} {r : ℕ}

theorem terminal_update {stream : ℕ → AsyncStream} {n k : ℕ} {f : AsyncStream → AsyncStream}
    (hf : (stream k).mState.IsTerminal → (f (stream k)).mState.IsTerminal)
    (hn : (stream n).mState.IsTerminal) :
    (Function.update stream k (f (stream k)) n).mState.IsTerminal := by
  rw [Function.update_apply]
  split_ifs with h
  · subst h
    exact hf hn
  · exact hn

/-- A stream that is served is at its end or stays in the table. -/
theorem serve (s : StreamRef) (hreturned : ∀ s', some s' ∈ v.shared.history.returned →
      (v.shared.stream s'.number).mState.IsTerminal ∨ s' = s ∨
        v.pending = true ∧ v.shared.response.mState = .streaming ∧
          v.shared.response.mStream = some s')
    (hpending : v.shared.response.mState = .pending → v.pending = true)
    (hstreaming : ∀ s', v.shared.response.mState = .streaming →
      v.shared.response.mStream = some s' → some s' ∈ v.shared.history.returned) :
    (v.serve s).Accounted := by
  refine ⟨fun s' hs' => ?_, hpending, hstreaming⟩
  rcases hreturned s' hs' with hterminal | rfl | hheld
  · refine Or.inl (terminal_update (fun h => ?_) hterminal)
    rwa [AsyncStream.serve_of_terminal h]
  · by_cases hclose : (v.shared.stream s'.number).mState = .close
    · left
      simp [View.serve, Shared.updateStream, AsyncStream.serve, hclose, AsyncStream.markCompleted,
        AsyncStream.State.IsTerminal]
    · exact Or.inr (Or.inl (if_neg hclose))
  · exact Or.inr (Or.inr hheld)

theorem deliver (h : v.Accounted) : (v.deliver r).Accounted := by
  have htake : v.take.Accounted := ⟨h.returned, h.pending, h.streaming⟩
  unfold View.deliver View.wakeup
  cases htable : v.take.table with
  | some s =>
      refine serve s (fun s' hs' => ?_) htake.pending htake.streaming
      rcases htake.returned s' hs' with hterminal | hs | hheld
      · exact Or.inl hterminal
      · exact Or.inr (Or.inl (Option.some.inj (hs.symm.trans htable)))
      · exact Or.inr (Or.inr hheld)
  | none =>
      simp only
      split_ifs with hpending hstate
      · cases hheld : v.take.shared.response.mStream with
        | none => exact htake
        | some s =>
            refine serve s (fun s' hs' => ?_) (fun hp => ?_) (fun s' _ hs' => ?_)
            · rcases htake.returned s' hs' with hterminal | hs | ⟨-, -, hs⟩
              · exact Or.inl hterminal
              · exact absurd (hs.symm.trans htable) (by simp)
              · exact Or.inr (Or.inl (Option.some.inj (hs.symm.trans hheld)))
            · exact absurd (hstate.symm.trans hp) (by simp)
            · exact absurd hs' (by simp [View.handOff, Shared.updateResponse])
      · refine ⟨fun s' hs' => ?_, fun hp => ?_, fun s' hs _ => ?_⟩
        · rcases htake.returned s' hs' with hterminal | hs | ⟨-, hs, -⟩
          · exact Or.inl hterminal
          · exact Or.inr (Or.inl hs)
          · exact absurd hs hstate
        · exact absurd hp (by simp [View.reply, Shared.updateResponse, AsyncResponse.markCompleted])
        · exact absurd hs (by simp [View.reply, Shared.updateResponse, AsyncResponse.markCompleted])
      · exact ⟨fun s hs => htable ▸ htake.returned s hs, htake.pending, htake.streaming⟩

theorem poll (h : v.Accounted) : (v.poll r).Accounted := by
  unfold View.poll
  split_ifs with hfailed
  · refine ⟨fun s hs => ?_, fun hp => ?_, h.streaming⟩
    · rcases h.returned s hs with hterminal | htable | ⟨-, hstate, -⟩
      · exact Or.inl hterminal
      · exact Or.inr (Or.inl htable)
      · exact absurd (hstate.symm.trans hfailed.2) (by simp)
    · exact absurd (hp.symm.trans hfailed.2) (by simp)
  · exact h

theorem release (h : v.Accounted) (blocked : Bool) : (v.release blocked).Accounted := by
  cases htable : v.table with
  | none => rwa [View.release_of_none htable]
  | some s =>
      simp only [View.release, htable]
      refine ⟨fun s' hs' => ?_, h.pending, h.streaming⟩
      rcases h.returned s' hs' with hterminal | hrest
      · refine Or.inl (terminal_update (fun hs => ?_) hterminal)
        rwa [AsyncStream.release_of_terminal hs]
      · rw [htable] at hrest
        exact Or.inr hrest

/-- While the response is pending, it holds no stream. -/
theorem returned_of_pending (h : v.Accounted) (hpending : v.shared.response.mState = .pending)
    {s : StreamRef} (hs : some s ∈ v.shared.history.returned) :
    (v.shared.stream s.number).mState.IsTerminal ∨ v.table = some s := by
  rcases h.returned s hs with hterminal | htable | ⟨-, hstreaming, -⟩
  · exact Or.inl hterminal
  · exact Or.inr htable
  · exact absurd (hpending.symm.trans hstreaming) (by simp)

/-- A call that leaves the response settled gives out nothing. -/
theorem settle (h : v.Accounted) {access : Access}
    (hpending : v.shared.response.mState = .pending)
    (hreturned : ∀ s, some s ∈ access.shared.history.returned →
      some s ∈ v.shared.history.returned)
    (hstream : ∀ s, some s ∈ v.shared.history.returned →
      access.shared.stream s.number = v.shared.stream s.number)
    (hstate : access.shared.response.mState = .sending ∨
      access.shared.response.mState = .failed) : (v.commit 0 access).Accounted := by
  refine ⟨fun s hs => ?_, fun hp => ?_, fun s hs _ => ?_⟩
  · have hs := hreturned s hs
    rcases h.returned_of_pending hpending hs with hterminal | htable
    · left
      rw [View.commit_shared, hstream s hs]
      exact hterminal
    · exact Or.inr (Or.inl htable)
  · rw [View.commit_shared] at hp
    rcases hstate with hstate | hstate <;> exact absurd (hstate.symm.trans hp) (by simp)
  · rw [View.commit_shared] at hs
    rcases hstate with hstate | hstate <;> exact absurd (hstate.symm.trans hs) (by simp)

/-- A call that leaves the response with a stream gives out this one. -/
theorem hold (h : v.Accounted) {access : Access} (s : StreamRef)
    (hpending : v.shared.response.mState = .pending)
    (hreturned : access.shared.history.returned = v.shared.history.returned ++ [some s])
    (hstream : ∀ s', some s' ∈ v.shared.history.returned →
      access.shared.stream s'.number = v.shared.stream s'.number)
    (hstate : access.shared.response.mState = .streaming)
    (hheld : access.shared.response.mStream = some s) : (v.commit 0 access).Accounted := by
  refine ⟨fun s' hs' => ?_, fun hp => ?_, fun s' _ hs' => ?_⟩
  · rw [View.commit_shared, hreturned] at hs'
    rcases List.mem_append.mp hs' with hs' | hs'
    · rcases h.returned_of_pending hpending hs' with hterminal | htable
      · left
        rw [View.commit_shared, hstream s' hs']
        exact hterminal
      · exact Or.inr (Or.inl htable)
    · rw [Option.some.inj (List.mem_singleton.mp hs')]
      exact Or.inr (Or.inr ⟨h.pending hpending, hstate, hheld⟩)
  · exact absurd (hstate.symm.trans hp) (by simp)
  · rw [View.commit_shared, hreturned]
    exact List.mem_append_right _ (List.mem_singleton.mpr (hs'.symm.trans hheld))

/-- `stream` gives out the stream that the response holds. -/
theorem call (h : v.Accounted)
    (hmade : ∀ s, some s ∈ v.shared.history.returned → s.number < v.shared.made)
    (call : Call) (wake : Wake) :
    (v.commit 0 (v.shared.wholeCall r wake call)).Accounted := by
  by_cases hstate : v.shared.response.mState = .pending
  · have hstream (s : StreamRef) (hs : some s ∈ v.shared.history.returned) :=
      v.shared.stream_wholeCall r (hmade s hs) call wake
    cases call with
    | send code body =>
        refine h.settle hstate (fun s hs => hs) hstream ?_
        cases wake <;> simp [Shared.wholeCall, AsyncResponse.send, hstate]
    | stream code encoding =>
        cases wake with
        | expired =>
            refine h.settle hstate (fun s hs => ?_) hstream (Or.inr ?_)
            · simpa [Shared.wholeCall, AsyncResponse.stream, hstate, History.count] using hs
            · simp [Shared.wholeCall, AsyncResponse.stream, hstate]
        | refused =>
            refine h.settle hstate (fun s hs => ?_) hstream (Or.inr ?_)
            · simpa [Shared.wholeCall, AsyncResponse.stream, hstate, History.count] using hs
            · simp [Shared.wholeCall, AsyncResponse.stream, hstate]
        | accepted =>
            refine h.hold ⟨r, v.shared.made⟩ hstate ?_ hstream ?_ ?_ <;>
              simp [Shared.wholeCall, AsyncResponse.stream, hstate, History.count]
  · rw [v.shared.wholeCall_of_ne r hstate call wake, Shared.begin_of_ne hstate]
    refine ⟨fun s hs => h.returned s ?_, h.pending, fun s hs hheld => ?_⟩
    · exact (List.mem_append.mp hs).resolve_right (call.some_not_mem_refusal s)
    · exact List.mem_append_left _ (h.streaming s hs hheld)

theorem put (h : v.Accounted) {s : StreamRef}
    (hterminal : ¬(v.shared.stream s.number).mState.IsTerminal) (op : Put) (wake : Wake) :
    (v.commit 0 (v.shared.wholePut s op wake)).Accounted := by
  refine ⟨fun s' hs' => ?_, h.pending, h.streaming⟩
  rcases h.returned s' hs' with hs | hrest
  · refine Or.inl (terminal_update (f := fun stream => (stream.put op wake).1) (fun h => ?_) hs)
    exact absurd h hterminal
  · exact Or.inr hrest

theorem atomicStep (h : v.Accounted) {ve : View.AtomicEvent}
    (hmade : ∀ s, some s ∈ v.shared.history.returned → s.number < v.shared.made)
    (hspares : ∀ s op wake, ve = .put s op wake →
      ¬(v.shared.stream s.number).mState.IsTerminal) : (v.atomicStep r ve).Accounted := by
  cases ve with
  | deliver => exact h.deliver
  | poll => exact h.poll
  | release blocked => exact h.release blocked
  | headers headers => exact ⟨h.returned, h.pending, h.streaming⟩
  | call call wake => exact h.call hmade call wake
  | put s op wake => exact h.put (hspares s op wake rfl) op wake

end View.Accounted

namespace Config

variable {mg : Mongoose} {cfg cfg' cfg₀ : Config} {r : ℕ}

/-- No producer calls `send` or `close` on a stream that is at its end. -/
def SparesTerminal (cfg : Config) : AtomicEvent → Prop
  | .put s _ _ => ¬(cfg.world.streams s).mState.IsTerminal
  | .loop _ | .headers _ _ | .call _ _ _ | .wait _ => True

theorem accounted_of_reaches (hinit : cfg₀.Initial)
    (h : Reaches (atomicStep mg) SparesTerminal cfg₀ cfg) (hr : r < cfg.world.mRequestCounter)
    (hopen : cfg.IsOpen r) : (cfg.view r).Accounted := by
  refine view_invariant hinit (.refl cfg₀) h ?_ ?_ ?_ hr hopen
  · exact fun hr => absurd hr (hinit.not_lt r)
  · intro _ c stream
    exact ⟨fun s hs => absurd hs (by simp [fresh]), fun _ => rfl,
      fun s hs => absurd hs (by simp [fresh])⟩
  · intro cfg e ve howned hok habout _ haccounted
    refine haccounted.atomicStep (fun s hs => ?_) fun s op wake hput => ?_
    · exact (howned.returned r s hs).2
    · subst hput
      obtain ⟨rfl, rfl⟩ := atomicEvent_of_about habout
      exact hok

/-- A response of connection `c` still holds a stream that is not at its end. -/
def HoldsStream (cfg : Config) (c : ℕ) : Prop :=
  ∃ r s, cfg.world.mPendingResponses.find c r = some r ∧
    (cfg.world.responses r).mState = .streaming ∧ (cfg.world.responses r).mStream = some s ∧
    ¬(cfg.world.streams s).mState.IsTerminal

/-- A stream that a response holds is not in the table. -/
theorem not_mem_streamsOf_of_held (howned : Owned cfg) {c : ℕ} {s : StreamRef}
    (hr : r < cfg.world.mRequestCounter) (hheld : (cfg.world.responses r).mStream = some s) :
    s ∉ cfg.world.streamsOf c := by
  intro hs
  obtain ⟨id, hid⟩ := (World.mem_streamsOf ..).mp hs
  obtain ⟨⟨n, -, hn⟩, -⟩ := howned.streamEntry c id _ hid
  obtain ⟨hresponse, -⟩ := howned.held r s hr hheld
  obtain rfl : s = ⟨id, n⟩ := Option.some.inj hn
  obtain rfl : id = r := hresponse
  exact (howned.tabled c id _ hid).2 hheld

/-- When producers leave ended streams alone, the close of a connection empties
its part of both tables, and ends every stream that its responses have given
out exactly when none of these responses still holds one. -/
theorem streams_ended_iff (hinit : cfg₀.Initial)
    (h : Reaches (atomicStep mg) SparesTerminal cfg₀ cfg) {c : ℕ}
    (hclose : cfg.atomicStep mg (.loop (.close c)) = some cfg') :
    (∀ id, cfg'.world.mPendingResponses.find c id = none ∧
        cfg'.world.mPendingStreams.find c id = none) ∧
      ((∀ r s, (cfg'.world.responses r).mConn = c → some s ∈ (cfg'.history r).returned →
          (cfg'.world.streams s).mState.IsTerminal) ↔ ¬cfg.HoldsStream c) := by
  have howned := Owned.of_atomic hinit h
  obtain ⟨hlive, rfl⟩ := step_loop hclose
  have hlive : (cfg.world.connections c).status = .live := hlive
  simp only [World.handle, World.forget, World.mConn_handleClose, record]
  refine ⟨fun id => ⟨?_, ?_⟩, ?_⟩
  · rw [World.find_mPendingResponses_handleClose, if_pos rfl]
  · rw [World.find_mPendingStreams_handleClose, if_pos rfl]
  · constructor
    · rintro hall ⟨r, s, hentry, hstate, hheld, hnot⟩
      obtain ⟨-, hr, hconn, -⟩ := howned.responseEntry c r r hentry
      have haccounted := accounted_of_reaches hinit h hr (by rwa [IsOpen, conn, hconn])
      have hended := hall r s hconn (haccounted.streaming s hstate hheld)
      rw [World.streams_handleClose, if_neg (not_mem_streamsOf_of_held howned hr hheld)] at hended
      exact hnot hended
    · intro hnone r s hconn hs
      obtain ⟨hresponse, hn⟩ := howned.returned r s hs
      have hr : r < cfg.world.mRequestCounter := by
        by_contra hr
        rw [(howned.unborn r (Nat.le_of_not_lt hr)).1] at hn
        exact absurd hn (Nat.not_lt_zero _)
      have haccounted := accounted_of_reaches hinit h hr (by rwa [IsOpen, conn, hconn])
      have hkept (hterminal : (cfg.world.streams s).mState.IsTerminal) :
          ((cfg.world.handleClose c).streams s).mState.IsTerminal := by
        have hsame := howned.mState_handle_of_terminal mg (.close c) hterminal
        exact hsame ▸ hterminal
      subst hresponse
      rcases haccounted.returned s hs with hterminal | htable | ⟨hpending, hstate, hheld⟩
      · exact hkept hterminal
      · have hentry := table_eq_some.mp htable
        rw [conn, hconn] at hentry
        rw [World.streams_handleClose, if_pos ((World.mem_streamsOf ..).mpr ⟨_, hentry⟩)]
        exact Or.inr rfl
      · refine hkept (by_contra fun hnot => hnone ⟨s.response, s, ?_, hstate, hheld, hnot⟩)
        obtain ⟨r', hr'⟩ := Option.isSome_iff_exists.mp hpending
        rw [conn, hconn] at hr'
        rwa [(howned.responseEntry _ _ _ hr').1] at hr'

def streamingRequest : List AtomicEvent :=
  [.loop (.accept 0), .loop (.httpMessage 0 ⟨[], []⟩ []),
    .call 0 (.stream 200 (text "chunked")) .accepted]

theorem streams_ended_first : ∃ cfg cfg' : Config,
    run (atomicStep .plain) (start asyncRoutes) (streamingRequest ++ [.loop (.wakeup 0 0)]) =
        some cfg ∧
      cfg.atomicStep .plain (.loop (.close 0)) = some cfg' ∧
      cfg.world.mPendingStreams.find 0 0 = some (some ⟨0, 0⟩) ∧
      cfg'.world.mPendingStreams.find 0 0 = none ∧
      ((∀ r s, (cfg'.world.responses r).mConn = 0 → some s ∈ (cfg'.history r).returned →
        (cfg'.world.streams s).mState.IsTerminal) ↔ ¬cfg.HoldsStream 0) := by
  have hmeets : Meets (atomicStep .plain) SparesTerminal (start asyncRoutes)
      (streamingRequest ++ [.loop (.wakeup 0 0)]) := ⟨trivial, trivial, trivial, trivial, trivial⟩
  have hrun : Reaches (atomicStep .plain) SparesTerminal (start asyncRoutes) _ :=
    reaches_of_run rfl hmeets
  obtain ⟨htables, hended⟩ := streams_ended_iff (initial_start _) hrun (c := 0) rfl
  exact ⟨_, _, rfl, rfl, rfl, (htables 0).2, hended⟩

/-- A client that leaves before the first wake-up is delivered: the worker has
a stream that stays in state `start`, and its `wait` never returns. -/
theorem stream_left_waiting : ∃ cfg,
    run (atomicStep .plain) (start asyncRoutes) (streamingRequest ++ [.loop (.close 0)]) =
        some cfg ∧
      some ⟨0, 0⟩ ∈ (cfg.history 0).returned ∧ (cfg.world.responses 0).mConn = 0 ∧
      (cfg.world.streams ⟨0, 0⟩).mState = .start ∧ (cfg.world.streams ⟨0, 0⟩).wait = none :=
  ⟨_, rfl, List.mem_singleton_self _, rfl, rfl, rfl⟩

end Config

end Mgxx.Http
