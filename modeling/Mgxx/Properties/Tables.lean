import Mgxx.Concurrency.Use

/-!
The representation invariant of the two pending tables.
-/

namespace Mgxx.Http

open Mgxx.Library

namespace World

variable {mg : Mongoose} {w : World}

theorem innerNonempty_serveStream (h : w.mPendingStreams.InnerNonempty) (c id : ℕ)
    (stream : Option StreamRef) :
    (w.serveStream mg c id stream).mPendingStreams.InnerNonempty := by
  cases stream with
  | none => exact h
  | some s =>
      cases hstate : (w.streams s).mState with
      | close =>
          simp only [serveStream, hstate]
          exact NestedMap.innerNonempty_prune_eraseAt h c id
      | start | hasData | flush | empty | completed | failed =>
          simp only [serveStream, hstate]
          exact h

theorem innerNonempty_handleWakeup (h : w.mPendingStreams.InnerNonempty) (c id : ℕ) :
    (w.handleWakeup mg c id).mPendingStreams.InnerNonempty := by
  apply handleWakeup_elim (P := fun w' => w'.mPendingStreams.InnerNonempty)
  · intro stream _
    exact innerNonempty_serveStream h c id stream
  · intro r _ _ _
    exact innerNonempty_serveStream (w := w.handOff c id r)
      (NestedMap.innerNonempty_set h c id _) c id _
  · intro r _ _ _
    exact h
  · intro _ _
    exact h

/-- Every handler leaves no empty map behind in `m_pending_streams`. -/
theorem innerNonempty_handle (h : w.mPendingStreams.InnerNonempty) (e : LoopEvent) :
    (w.handle mg e).mPendingStreams.InnerNonempty := by
  cases e with
  | accept c => exact h
  | poll c => rwa [handle, mPendingStreams_handlePoll]
  | httpMessage c msg calls =>
      rcases handleHttpMessage_cases mg w c msg calls with hadd | ⟨conns, hconns, -⟩
      · rw [handle, hadd]
        exact h
      · rw [handle, hconns]
        exact h
  | wakeup c id => exact innerNonempty_handleWakeup (w := w.take c id) h c id
  | write c => rwa [handle, toEndpoint_handleWrite]
  | close c =>
      rw [handle, handleClose_eq]
      exact NestedMap.innerNonempty_erase h c
  | mongoose c send => exact h

end World

def World.MadeBy (w : World) (r : ℕ) (s : StreamRef) : Prop :=
  s.response = r ∧ s.number < w.made r

def Endpoint.Occurs (e : Endpoint) (c id : ℕ) : Prop :=
  e.mPendingResponses.find c id ≠ none ∨ e.mPendingStreams.find c id ≠ none

/-- The representation invariant. -/
structure World.TablesSound (w : World) : Prop where
  connection : ∀ c c' id, w.Occurs c id → w.Occurs c' id → c = c'
  table : ∀ c c' id, w.mPendingResponses.find c id ≠ none → w.mPendingStreams.find c' id = none
  bound : ∀ c id, w.Occurs c id → id < w.mRequestCounter
  response : ∀ c id r, w.mPendingResponses.find c id = some r →
    r = id ∧ (w.responses r).mConn = c ∧ (w.responses r).mId = id
  stream : ∀ c id p, w.mPendingStreams.find c id = some p →
    ∃ s, p = some s ∧ (w.streams s).mConn = c ∧ (w.streams s).mId = id
  inner : w.mPendingStreams.InnerNonempty
  /-- A stream in the table comes from one response, which has been erased and
  has let go of it. -/
  origin : ∀ c id s, w.mPendingStreams.find c id = some (some s) →
    ∃ r, (∀ r', w.MadeBy r' s ↔ r' = r) ∧ (∀ c', w.mPendingResponses.find c' r = none) ∧
      (w.responses r).mStream ≠ some s

namespace Owned

variable {cfg : Config} {c id : ℕ}

theorem of_occurs (h : Owned cfg) (hoccurs : cfg.world.Occurs c id) :
    id < cfg.world.mRequestCounter ∧ (cfg.world.responses id).mConn = c := by
  rcases hoccurs with hresponse | hstream
  · obtain ⟨r, hr⟩ := Option.ne_none_iff_exists'.mp hresponse
    obtain ⟨-, hlt, hconn, -⟩ := h.responseEntry c id r hr
    exact ⟨hlt, hconn⟩
  · obtain ⟨p, hp⟩ := Option.ne_none_iff_exists'.mp hstream
    obtain ⟨-, hlt, hconn, -⟩ := h.streamEntry c id p hp
    exact ⟨hlt, hconn⟩

/-- An entry of one table shuts out every entry for its id in the other. -/
theorem find_mPendingResponses_of_stream (h : Owned cfg) {p : Option StreamRef}
    (hp : cfg.world.mPendingStreams.find c id = some p) (c' : ℕ) :
    cfg.world.mPendingResponses.find c' id = none := by
  by_contra hsome
  have hconn := (h.of_occurs (Or.inl hsome)).2
  obtain ⟨-, -, hconn', -, hnone⟩ := h.streamEntry c id p hp
  rw [hconn] at hconn'
  exact hsome (hconn' ▸ hnone)

theorem tablesSound (h : Owned cfg) (hinner : cfg.world.mPendingStreams.InnerNonempty) :
    cfg.world.TablesSound where
  connection c c' id hc hc' := (h.of_occurs hc).2.symm.trans (h.of_occurs hc').2
  table c c' id hresponse := by
    by_contra hsome
    obtain ⟨p, hp⟩ := Option.ne_none_iff_exists'.mp hsome
    exact hresponse (h.find_mPendingResponses_of_stream hp c)
  bound c id hc := (h.of_occurs hc).1
  response c id r hr := by
    obtain ⟨rfl, hlt, hconn, -⟩ := h.responseEntry c id r hr
    exact ⟨rfl, hconn, (h.identity r hlt).1⟩
  stream c id p hp := by
    obtain ⟨⟨n, hn, rfl⟩, -, hconn, -⟩ := h.streamEntry c id p hp
    obtain ⟨hsconn, hsid⟩ := h.streamIdentity id n hn
    exact ⟨⟨id, n⟩, rfl, hsconn.trans hconn, hsid⟩
  inner := hinner
  origin c id s hs := by
    obtain ⟨⟨n, hn, heq⟩, -⟩ := h.streamEntry c id _ hs
    obtain rfl := Option.some.inj heq
    refine ⟨id, fun r' => ⟨fun hmade => hmade.1.symm, ?_⟩,
      h.find_mPendingResponses_of_stream hs, (h.tabled c id _ hs).2⟩
    rintro rfl
    exact ⟨rfl, hn⟩

end Owned

namespace Config

variable {mg : Mongoose} {cfg cfg' cfg₀ : Config}

/-- The tables are sound in every state that any interleaving of the events
with the calls of the workers reaches. -/
theorem tablesSound_of_reaches (hinit : cfg₀.Initial)
    (h : Reaches (step mg) anyEvent cfg₀ cfg) : cfg.world.TablesSound := by
  refine (Owned.of_reaches hinit h).tablesSound ?_
  refine h.invariant (P := fun cfg => cfg.world.mPendingStreams.InnerNonempty) ?_ ?_
  · rw [hinit.mPendingStreams]
    exact NestedMap.innerNonempty_empty
  · intro cfg e cfg' hinner _ hstep
    rcases step_cases hstep with ⟨e, rfl, -, rfl⟩ | ⟨-, -, hendpoint⟩
    · exact World.innerNonempty_handle hinner e
    · rwa [hendpoint]

theorem tablesSound_of_reaches_first : ∃ cfg,
    run (step .plain) (start asyncRoutes) (openingStream ++ [.loop (.wakeup 0 0)]) = some cfg ∧
      cfg.world.mPendingStreams.find 0 0 = some (some ⟨0, 0⟩) ∧ cfg.world.TablesSound := by
  have hrun : Reaches (step .plain) anyEvent (start asyncRoutes) _ :=
    reaches_of_run rfl (meets_anyEvent _ (openingStream ++ [.loop (.wakeup 0 0)]))
  exact ⟨_, rfl, rfl, tablesSound_of_reaches (initial_start _) hrun⟩

end Config

end Mgxx.Http
