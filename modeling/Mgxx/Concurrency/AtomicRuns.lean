import Mgxx.Concurrency.Atomic

/-!
Runs of whole calls, request by request: what every step of the view of a
request keeps holds of the view in every state reached, as long as the
connection of the request is open.
-/

namespace Mgxx.Http

open Mgxx.Library

def View.AtomicEvent.Enabled (v : View) : View.AtomicEvent → Prop
  | .deliver => 0 < v.inFlight
  | .put s _ _ => some s ∈ v.shared.history.returned
  | .poll | .release _ | .headers _ | .call _ _ => True

namespace Config

variable {mg : Mongoose} {cfg cfg' cfg₀ cfg₁ : Config} {r : ℕ} {e : AtomicEvent}

theorem mRequestCounter_atomicStep {e : AtomicEvent} (hstep : cfg.atomicStep mg e = some cfg') :
    cfg'.world.mRequestCounter = cfg.world.mRequestCounter ∨
      ∃ e', e = .loop e' := by
  cases e with
  | loop e => exact Or.inr ⟨e, rfl⟩
  | headers r headers =>
      obtain rfl := atomicStep_headers hstep
      exact Or.inl rfl
  | wait s =>
      obtain rfl := atomicStep_wait hstep
      exact Or.inl rfl
  | call r call wake =>
      obtain ⟨-, rfl⟩ := atomicStep_call hstep
      exact Or.inl rfl
  | put s op wake =>
      obtain ⟨-, rfl⟩ := atomicStep_put hstep
      exact Or.inl rfl

theorem mRequestCounter_le_atomicStep (hstep : cfg.atomicStep mg e = some cfg') :
    cfg.world.mRequestCounter ≤ cfg'.world.mRequestCounter := by
  rcases mRequestCounter_atomicStep hstep with hsame | ⟨e', rfl⟩
  · exact Nat.le_of_eq hsame.symm
  · exact mRequestCounter_le_step (show cfg.step mg (.loop e') = some cfg' from hstep)

theorem enabled_of_about (howned : Owned cfg) (hstep : cfg.atomicStep mg e = some cfg')
    {ve : View.AtomicEvent} (habout : e.about mg cfg r = some ve) : ve.Enabled (cfg.view r) := by
  have hevent := atomicEvent_of_about habout
  cases ve with
  | put s op wake =>
      obtain ⟨rfl, rfl⟩ := hevent
      exact (atomicStep_put hstep).1
  | deliver =>
      obtain ⟨c, rfl⟩ := hevent
      obtain ⟨hraises, -⟩ := step_loop hstep
      have hconn : cfg.conn r = c := (howned.wakeup c r hraises.2).2
      exact List.count_pos_iff.mpr (hconn ▸ hraises.2)
  | poll | release _ | headers _ | call _ _ => trivial

/-- The induction rule for what is said of one request. -/
theorem view_invariant {ok : Config → AtomicEvent → Prop} {P : View → Prop} (hinit : cfg₀.Initial)
    (h₁ : Reaches (atomicStep mg) anyEvent cfg₀ cfg₁) (h : Reaches (atomicStep mg) ok cfg₁ cfg)
    (hstart : r < cfg₁.world.mRequestCounter → cfg₁.IsOpen r → P (cfg₁.view r))
    (hfresh : cfg₁.world.mRequestCounter ≤ r → ∀ c stream, P (fresh c r stream))
    (hkeeps : ∀ cfg e ve, Owned cfg → ok cfg e → e.about mg cfg r = some ve →
      ve.Enabled (cfg.view r) → P (cfg.view r) → P ((cfg.view r).atomicStep r ve))
    (hr : r < cfg.world.mRequestCounter) (hopen : cfg.IsOpen r) : P (cfg.view r) := by
  refine (h.invariant_of (J := fun cfg => Owned cfg ∧ cfg.Idle)
    (P := fun cfg => cfg₁.world.mRequestCounter ≤ cfg.world.mRequestCounter ∧
      (r < cfg.world.mRequestCounter → cfg.IsOpen r → P (cfg.view r)))
    (fun cfg' h' => ?_) ⟨le_rfl, hstart⟩ ?_).2 hr hopen
  · have h₂ := h₁.trans (h'.mono fun _ _ _ => trivial)
    exact ⟨.of_atomic hinit h₂, (reaches_of_atomic hinit h₂).2⟩
  · rintro cfg e cfg' ⟨howned, hidle⟩ ⟨hle, hview⟩ hok hstep
    refine ⟨hle.trans (mRequestCounter_le_atomicStep hstep), fun hr hopen => ?_⟩
    by_cases hold : r < cfg.world.mRequestCounter
    · obtain ⟨⟨es, hrun⟩, -⟩ := run_of_atomicStep hidle hstep
      have hopen' :=
        isOpen_of_reaches howned hold (reaches_of_run hrun (meets_anyEvent cfg es)) hopen
      rw [view_atomicStep mg hidle howned hold hstep hopen]
      cases habout : e.about mg cfg r with
      | none => exact hview hold hopen'
      | some ve =>
          exact hkeeps cfg e ve howned hok habout (enabled_of_about howned hstep habout)
            (hview hold hopen')
    · rcases mRequestCounter_atomicStep hstep with hsame | ⟨e', rfl⟩
      · exact absurd (hsame ▸ hr) hold
      · obtain ⟨c, stream, hnew⟩ :=
          view_new howned (show cfg.step mg (.loop e') = some cfg' from hstep)
            (Nat.not_lt.mp hold) hr
        rw [hnew]
        exact hfresh (hle.trans (Nat.not_lt.mp hold)) c stream

end Config

structure View.Unasked (v : View) : Prop where
  pending : v.pending = true
  table : v.table = none
  inFlight : v.inFlight = 0
  outputs : v.outputs = []
  returned : ∀ s, some s ∉ v.shared.history.returned
  puts : ∀ n, v.shared.history.puts n = []

namespace View

variable {v : View} {r : ℕ}

/-- What happens to a response between its first call and the delivery, as long as
no stream of it is written: its headers change, or a call is turned away. -/
theorem atomicStep_settled {ve : AtomicEvent} (htable : v.table = none)
    (hpending : v.shared.response.mState ≠ .pending)
    (hfailed : v.shared.response.mState ≠ .failed) (hdeliver : ve ≠ .deliver)
    (hput : ∀ s op wake, ve ≠ .put s op wake) :
    v.atomicStep r ve = v ∨ (∃ headers, v.atomicStep r ve = v.setHeaders headers) ∨
      ∃ call : Call, v.atomicStep r ve = v.commit 0 { shared := { v.shared with
        history := { v.shared.history with
          returned := v.shared.history.returned ++ call.refusal } } } := by
  cases ve with
  | deliver => exact absurd rfl hdeliver
  | put s op wake => exact absurd rfl (hput s op wake)
  | poll => exact Or.inl (poll_of_ne hfailed)
  | release blocked => exact Or.inl (release_of_none htable blocked)
  | headers headers => exact Or.inr (Or.inl ⟨headers, rfl⟩)
  | call call wake =>
      refine Or.inr (Or.inr ⟨call, ?_⟩)
      rw [View.atomicStep, v.shared.wholeCall_of_ne r hpending call wake,
        Shared.begin_of_ne hpending]

theorem Unasked.atomicStep {ve : AtomicEvent} (henabled : ve.Enabled v)
    (h : v.shared.response.mState = .pending → v.Unasked)
    (hstate : (v.atomicStep r ve).shared.response.mState = .pending) :
    (v.atomicStep r ve).Unasked := by
  cases ve with
  | headers headers => exact ⟨(h hstate).pending, (h hstate).table, (h hstate).inFlight,
      (h hstate).outputs, (h hstate).returned, (h hstate).puts⟩
  | release blocked =>
      cases htable : v.table with
      | none =>
          have hsame : v.atomicStep r (.release blocked) = v := release_of_none htable blocked
          rw [hsame] at hstate ⊢
          exact h hstate
      | some s =>
          simp only [View.atomicStep, View.release, htable] at hstate
          exact absurd ((h hstate).table.symm.trans htable) (by simp)
  | poll =>
      have hstate : v.shared.response.mState = .pending :=
        (congrArg (fun q => q.response.mState) (shared_poll v r)).symm.trans hstate
      have hpoll : v.atomicStep r .poll = v := poll_of_ne (by simp [hstate])
      rw [hpoll]
      exact h hstate
  | deliver =>
      have hflight : 0 < v.inFlight := henabled
      by_cases hpending : v.shared.response.mState = .pending
      · exact absurd (h hpending).inFlight (Nat.ne_of_gt hflight)
      · -- a delivery does not make the state pending
        rcases mState_wakeup v.take r with hsame | hcompleted
        · exact absurd (hsame.symm.trans hstate) hpending
        · exact absurd (hcompleted.symm.trans hstate) (by simp)
  | call call wake =>
      simp only [View.atomicStep, View.commit_shared] at hstate
      by_cases hpending : v.shared.response.mState = .pending
      · cases call <;> cases wake <;>
          simp [Shared.wholeCall, AsyncResponse.send, AsyncResponse.stream, hpending] at hstate
      · cases call <;>
          simp [Shared.wholeCall, AsyncResponse.send, AsyncResponse.stream, hpending] at hstate
  | put s op wake =>
      have hmem : some s ∈ v.shared.history.returned := henabled
      exact absurd hmem ((h hstate).returned s)

end View

namespace Config

variable {mg : Mongoose} {cfg cfg' cfg₀ : Config} {r : ℕ}

/-- A response whose state is `pending` has not been called. -/
theorem unasked_of_reaches (hinit : cfg₀.Initial) (h : Reaches (atomicStep mg) anyEvent cfg₀ cfg)
    (hr : r < cfg.world.mRequestCounter) (hopen : cfg.IsOpen r)
    (hstate : (cfg.world.responses r).mState = .pending) : (cfg.view r).Unasked := by
  refine view_invariant (P := fun v => v.shared.response.mState = .pending → v.Unasked) hinit
    (.refl cfg₀) h ?_ ?_ ?_ hr hopen hstate
  · exact fun hr => absurd hr (hinit.not_lt r)
  · exact fun _ c stream _ => ⟨rfl, rfl, rfl, rfl, by simp [fresh], fun n => rfl⟩
  · exact fun cfg e ve _ _ _ henabled hv hstate => View.Unasked.atomicStep henabled hv hstate

/-- The call that settles a response, as a step of its view. -/
theorem unasked_of_call (hinit : cfg₀.Initial) (h : Reaches (atomicStep mg) anyEvent cfg₀ cfg)
    (hstate : (cfg.world.responses r).mState = .pending) {call : Call} {wake : Wake}
    (hcall : cfg.atomicStep mg (.call r call wake) = some cfg') (hopen : cfg'.IsOpen r) :
    (cfg.view r).Unasked ∧ cfg'.view r = (cfg.view r).atomicStep r (.call call wake) := by
  obtain ⟨hreach, hidle⟩ := reaches_of_atomic hinit h
  have howned := Owned.of_reaches hinit hreach
  have hr : r < cfg.world.mRequestCounter := by
    by_contra hr
    simp [atomicStep, hr] at hcall
  obtain ⟨⟨es, hrun⟩, -⟩ := run_of_atomicStep hidle hcall
  have hopen' := isOpen_of_reaches howned hr (reaches_of_run hrun (meets_anyEvent cfg es)) hopen
  refine ⟨unasked_of_reaches hinit h hr hopen' hstate, ?_⟩
  rw [view_atomicStep mg hidle howned hr hcall hopen]
  simp only [AtomicEvent.about, if_true]

end Config

end Mgxx.Http
