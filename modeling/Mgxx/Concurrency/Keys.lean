import Mgxx.Concurrency.Restriction
import Mgxx.Concurrency.Use

/-!
The keys of the two pending tables.  An inner map may be empty, so a key says
more than an entry: a connection that is closed leaves no key behind.
-/

namespace Mgxx.Http

open Mgxx.Library

namespace World

variable {mg : Mongoose} {w : World} {c d : ℕ}

def Keys (w : World) (d : ℕ) : Prop :=
  w.mPendingResponses.lookup d ≠ none ∨ w.mPendingStreams.lookup d ≠ none

def Keyed (w : World) : Prop := ∀ d, w.Keys d → (w.connections d).status = .live

def SameKey (w w' : World) (d : ℕ) : Prop :=
  w'.mPendingResponses.lookup d = w.mPendingResponses.lookup d ∧
    w'.mPendingStreams.lookup d = w.mPendingStreams.lookup d

theorem sameKey_serveStream (mg : Mongoose) (h : d ≠ c) (id : ℕ) (stream : Option StreamRef) :
    w.SameKey (w.serveStream mg c id stream) d := by
  refine ⟨congrArg (·.lookup d) (mPendingResponses_serveStream mg w c id stream), ?_⟩
  cases stream with
  | none => rfl
  | some s =>
      cases hstate : (w.streams s).mState with
      | close =>
          simp only [serveStream, hstate]
          rw [NestedMap.lookup_prune_of_ne h, NestedMap.lookup_eraseAt_of_ne h]
          rfl
      | start | hasData =>
          simp only [serveStream, hstate]
          rfl
      | flush | empty | completed | failed => simp only [serveStream, hstate]

theorem sameKey_handleWakeup (h : d ≠ c) (id : ℕ) : w.SameKey (w.handleWakeup mg c id) d := by
  apply handleWakeup_elim (P := fun w' => w.SameKey w' d)
  · intro stream _
    exact sameKey_serveStream mg h id stream
  · intro r _ _ _
    obtain ⟨hresponses, hstreams⟩ := sameKey_serveStream mg (w := w.handOff c id r) h id
      (w.responses r).mStream
    exact ⟨hresponses.trans (NestedMap.lookup_eraseAt_of_ne h _ _),
      hstreams.trans (NestedMap.lookup_set_of_ne h _ _ _)⟩
  · intro r _ _ _
    exact ⟨NestedMap.lookup_eraseAt_of_ne h _ _, rfl⟩
  · intro _ _
    exact ⟨rfl, rfl⟩

theorem sameKey_handlePoll (h : d ≠ c) : w.SameKey (w.handlePoll mg c) d := by
  rw [handlePoll_eq, foldl_fail]
  refine ⟨?_, rfl⟩
  show ((w.failedIds c).foldl (fun m id => m.eraseAt c id) w.mPendingResponses).lookup d = _
  generalize w.mPendingResponses = m
  induction w.failedIds c generalizing m with
  | nil => rfl
  | cons id ids ih => exact (ih _).trans (NestedMap.lookup_eraseAt_of_ne h _ _)

/-- An event touches the inner maps of its own connection only. -/
theorem sameKey_handle (mg : Mongoose) (e : LoopEvent) (h : d ≠ e.conn) :
    w.SameKey (w.handle mg e) d := by
  cases e with
  | accept c => exact ⟨rfl, rfl⟩
  | poll c => exact sameKey_handlePoll h
  | httpMessage c msg calls =>
      rcases handleHttpMessage_cases mg w c msg calls with hadd | ⟨conns, hconns, -⟩
      · rw [handle, hadd]
        exact ⟨NestedMap.lookup_set_of_ne h _ _ _, rfl⟩
      · rw [handle, hconns]
        exact ⟨rfl, rfl⟩
  | wakeup c id => exact sameKey_handleWakeup (w := w.take c id) h id
  | write c =>
      rw [handle, SameKey, toEndpoint_handleWrite]
      exact ⟨rfl, rfl⟩
  | close c =>
      rw [handle, handleClose_eq]
      exact ⟨AList.lookup_erase_ne h, AList.lookup_erase_ne h⟩
  | mongoose c send => exact ⟨rfl, rfl⟩

/-- A connection that is open and is not being closed stays open. -/
theorem status_handle_live {e : LoopEvent} (he : ∀ c, e ≠ .close c)
    (h : (w.connections d).status = .live) : ((w.handle mg e).connections d).status = .live := by
  cases e with
  | accept c => by_cases hd : d = c <;> simp [handle, accept, hd, modifyAt_of_ne, h]
  | poll c => simpa [handle] using h
  | httpMessage c msg calls => simpa [handle] using h
  | wakeup c id => simpa [handle, take] using h
  | write c => simpa [handle] using h
  | close c => exact absurd rfl (he c)
  | mongoose c send => by_cases hd : d = c <;> simpa [handle, setSend, hd, modifyAt_of_ne] using h

theorem keyed_handle (h : w.Keyed) {e : LoopEvent} (hraises : w.Raises e) :
    (w.handle mg e).Keyed := by
  intro d hd
  by_cases hconn : d = e.conn
  · subst hconn
    by_cases he : ∃ c, e = .close c
    · obtain ⟨c, rfl⟩ := he
      rw [handle, Keys, handleClose_eq] at hd
      simp [LoopEvent.conn, forget] at hd
    · cases e with
      | close c => exact absurd ⟨c, rfl⟩ he
      | accept c => simp [handle, accept, LoopEvent.conn]
      | wakeup c id => exact status_handle_live (by simp) hraises.1
      | poll c => exact status_handle_live (by simp) hraises
      | httpMessage c msg calls => exact status_handle_live (by simp) hraises
      | write c => exact status_handle_live (by simp) hraises.1
      | mongoose c send => exact status_handle_live (by simp) hraises
  · obtain ⟨hresponses, hstreams⟩ := sameKey_handle mg (w := w) e hconn
    rw [Keys, hresponses, hstreams] at hd
    rw [connections_handle_of_ne mg w hconn]
    exact h d hd

/-- A poll of a connection without a key does nothing. -/
theorem handlePoll_of_not_keys (h : ¬w.Keys c) : w.handlePoll mg c = w := by
  obtain ⟨hresponses, -⟩ := not_or.mp h
  rw [handlePoll, not_ne_iff.mp hresponses]

/-- Closing a connection without a key changes the connection only. -/
theorem handleClose_of_not_keys (h : ¬w.Keys c) : w.handleClose c =
    { w with connections := modifyAt w.connections c fun conn => { conn with fnData := none } } := by
  obtain ⟨hresponses, hstreams⟩ := not_or.mp h
  simp only [handleClose, not_ne_iff.mp hresponses, not_ne_iff.mp hstreams]

end World

namespace Config

variable {mg : Mongoose} {cfg cfg₀ : Config}

theorem keyed_of_reaches {ok : Config → Event → Prop} (hinit : cfg₀.Initial)
    (h : Reaches (step mg) ok cfg₀ cfg) : cfg.world.Keyed := by
  refine h.invariant (P := fun cfg => cfg.world.Keyed) ?_ ?_
  · rintro d (hd | hd)
    · exact absurd (by rw [hinit.mPendingResponses]; rfl) hd
    · exact absurd (by rw [hinit.mPendingStreams]; rfl) hd
  · intro cfg e cfg' hkeyed _ hstep
    rcases step_cases hstep with ⟨e, rfl, hraises, rfl⟩ | ⟨-, hconns, hendpoint⟩
    · exact World.keyed_handle hkeyed hraises
    · intro d hd
      rw [World.Keys, hendpoint] at hd
      rw [hconns]
      exact hkeyed d hd

end Config

end Mgxx.Http
