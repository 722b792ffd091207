import Mathlib.Data.List.Flatten
import Mgxx.Properties.Completion

/-!
The send buffer of a client that does not read, while the client of another connection of
the endpoint sends requests and reads the answers.  `handle_write` releases the producers
of every connection, so that the buffer grows without bound.
-/

namespace Mgxx.Http

open Mgxx.Library

namespace View

variable {v : View} {r limit : ℕ} {s : StreamRef} {preamble : Bytes}

end View

namespace World

variable (mg : Mongoose) (w : World)

/-- No event changes the routes. -/
theorem routes_handle (e : LoopEvent) : (w.handle mg e).mListeners = w.mListeners ∧
    (w.handle mg e).mAssets = w.mAssets ∧ (w.handle mg e).mFallback = w.mFallback := by
  cases e with
  | accept c | mongoose c send => exact ⟨rfl, rfl, rfl⟩
  | write c =>
      rw [handle, toEndpoint_handleWrite]
      exact ⟨rfl, rfl, rfl⟩
  | poll c =>
      rw [handle, handlePoll_eq, foldl_fail]
      exact ⟨rfl, rfl, rfl⟩
  | close c =>
      rw [handle, handleClose_eq]
      exact ⟨rfl, rfl, rfl⟩
  | httpMessage c msg calls =>
      rcases handleHttpMessage_cases mg w c msg calls with hadd | ⟨conns, hconns, -⟩
      · rw [handle, hadd]
        exact ⟨rfl, rfl, rfl⟩
      · rw [handle, hconns]
        exact ⟨rfl, rfl, rfl⟩
  | wakeup c id =>
      have hserve (w' : World) (stream : Option StreamRef) :
          (w'.serveStream mg c id stream).mListeners = w'.mListeners ∧
            (w'.serveStream mg c id stream).mAssets = w'.mAssets ∧
            (w'.serveStream mg c id stream).mFallback = w'.mFallback := by
        cases stream with
        | none => exact ⟨rfl, rfl, rfl⟩
        | some s => cases h : (w'.streams s).mState <;> simp [serveStream, h, updateStream, write]
      apply handleWakeup_elim (P := fun w' => w'.mListeners = w.mListeners ∧
        w'.mAssets = w.mAssets ∧ w'.mFallback = w.mFallback)
      · exact fun stream _ => hserve (w.take c id) stream
      · exact fun r _ _ _ => hserve ((w.take c id).handOff c id r) _
      · exact fun _ _ _ _ => ⟨rfl, rfl, rfl⟩
      · exact fun _ _ => ⟨rfl, rfl, rfl⟩

theorem dispatch_handle (e : LoopEvent) (msg : HttpMessage) :
    dispatch mg (w.handle mg e).toEndpoint msg = dispatch mg w.toEndpoint msg := by
  obtain ⟨hlisteners, hassets, hfallback⟩ := w.routes_handle mg e
  simp only [dispatch, hlisteners, hassets, hfallback]

end World

namespace Config

variable {mg : Mongoose} {cfg cfg' cfg₀ cfg₁ : Config} {r c d t : ℕ} {s : StreamRef}
  {msg : HttpMessage}

/-- The worker goes on as it should, and the event loop delivers its wake-ups and handles the
events of connection `d`. -/
def Unread (r d : ℕ) (cfg : Config) (e : Event) : Prop :=
  cfg.Conforming r e ∧ ∀ e', e = .loop e' → e' = .wakeup (cfg.conn r) r ∨ e'.conn = d

/-- Since `start`, connection `c` of the request has only been written to, and the endpoint can
still answer `msg` on connection `d` by itself. -/
structure Beside (mg : Mongoose) (start : World) (r c d : ℕ) (msg : HttpMessage) (cfg : Config) :
    Prop where
  conn : cfg.conn r = c
  live : (cfg.world.connections d).status = .live
  producer : (cfg.world.connections d).fnData.bind RemoteContext.mStream = none
  answer : World.dispatch mg cfg.world.toEndpoint msg = .notFound
  appends : ∃ out, (start.connections c).Appends mg (cfg.world.connections c) out

/-- An event of connection `d` that the request does not notice. -/
theorem Beside.loop {start : World} (h : cfg.Beside mg start r c d msg) (hd : d ≠ c)
    (hdrivable : cfg.Drivable r t) {e : LoopEvent} (he : e.conn = d)
    (habout : Event.about mg cfg r (.loop e) = none) (hraises : cfg.world.Raises e)
    (hlive : ((cfg.world.handle mg e).connections d).status = .live)
    (hproducer : ((cfg.world.handle mg e).connections d).fnData =
      (cfg.world.connections d).fnData) : ∃ cfg', cfg.step mg (.loop e) = some cfg' ∧
        cfg'.world = cfg.world.handle mg e ∧ cfg'.Drivable r t ∧
        cfg'.Beside mg start r c d msg ∧ cfg'.view r = cfg.view r := by
  have hloop : cfg.world.loopStep mg e = some _ := World.loopStep_eq_some.mpr ⟨hraises, rfl⟩
  have hstep : cfg.step mg (.loop e) = some { cfg with
      world := cfg.world.handle mg e, history := record cfg.history e } := by
    simp only [step, hloop, Option.map_some]
  have hconn := conn_step hdrivable.owned hdrivable.request hstep
  have hsame := World.connections_handle_of_ne mg cfg.world (e := e) (d := c) (he ▸ hd.symm)
  have hopen : ({ cfg with world := cfg.world.handle mg e, history := record cfg.history e } :
      Config).IsOpen r := by
    rw [IsOpen, hconn, h.conn]
    exact hsame ▸ h.conn ▸ hdrivable.isOpen
  have hview := view_step mg hdrivable.owned hdrivable.request hstep hopen
  rw [habout] at hview
  refine ⟨_, hstep, rfl, ⟨hdrivable.owned.step hstep,
    Nat.lt_of_lt_of_le hdrivable.request (mRequestCounter_le_step hstep), hopen, hdrivable.alone,
    ?_⟩, ⟨hconn.trans h.conn, hlive, hproducer ▸ h.producer,
      (World.dispatch_handle mg cfg.world e msg).trans h.answer, hsame ▸ h.appends⟩, hview⟩
  rw [hconn, h.conn]
  exact hsame ▸ h.conn ▸ hdrivable.fnData

/-- The client of connection `d` sends a request and reads the answer, and the write event
comes. -/
theorem Beside.exists_of_release {start : World} (h : cfg.Beside mg start r c d msg) (hd : d ≠ c)
    (hio : 0 < mg.ioSize) (hreply : Http.notFound.bytes mg ≠ []) (hdrivable : cfg.Drivable r t)
    {v' : View} (hview : (cfg.view r).step r (.release false) = some v') :
    ∃ cfg', Reaches (step mg) (Unread r d) cfg cfg' ∧ cfg'.Drivable r t ∧
      cfg'.Beside mg start r c d msg ∧ cfg'.view r = v' := by
  have hmessage : cfg.world.handle mg (.httpMessage d msg []) =
      cfg.world.write mg d .handler Http.notFound := by
    simp only [World.handle, World.handleHttpMessage, h.answer]
  obtain ⟨cfg₁, hstep₁, hworld₁, hdrivable₁, h₁, hview₁⟩ := h.loop hd hdrivable
    (e := .httpMessage d msg []) rfl rfl h.live (by simpa [hmessage] using h.live)
    (by simp [hmessage])
  obtain ⟨cfg₂, hstep₂, hworld₂, hdrivable₂, h₂, hview₂⟩ := h₁.loop hd hdrivable₁
    (e := .mongoose d []) rfl rfl h₁.live (by simpa [World.handle, World.setSend] using h₁.live)
    (by simp [World.handle, World.setSend])
  have hsend : (cfg₂.world.connections d).send = [] ∧ (cfg₂.world.connections d).sent = true := by
    rw [hworld₂, hworld₁, hmessage]
    simp [World.handle, World.setSend, World.write, Connection.write, List.length_pos_iff, hreply]
  rw [← hview₁, ← hview₂] at hview
  obtain ⟨cfg₃, hstep₃, hconnections, hdrivable₃, hview₃⟩ := drivable_write mg hdrivable₂
    ⟨h₂.live, hsend.2⟩ h₂.producer (by rwa [hsend.1]) hview
  have hok (cfg : Config) (e : LoopEvent) (he : e.conn = d) : cfg.Unread r d (.loop e) :=
    ⟨trivial, fun e' he' => Or.inr (Event.loop.inj he' ▸ he)⟩
  have hother : cfg₃.world.connections c = cfg₂.world.connections c := by
    rw [hconnections, World.connections_clearSent, modifyAt_of_ne hd.symm]
  refine ⟨cfg₃, (((Reaches.refl cfg).next (hok _ _ rfl) hstep₁).next (hok _ _ rfl) hstep₂).next
    (hok _ _ rfl) hstep₃, hdrivable₃, ⟨?_, ?_, ?_, ?_, ?_⟩, hview₃⟩
  · exact (conn_step hdrivable₂.owned hdrivable₂.request hstep₃).trans h₂.conn
  · rw [hconnections, World.status_clearSent]
    exact h₂.live
  · rw [hconnections, World.fnData_clearSent]
    exact h₂.producer
  · obtain ⟨-, rfl⟩ := step_loop hstep₃
    exact (World.dispatch_handle mg cfg₂.world (.write d) msg).trans h₂.answer
  · exact hother ▸ h₂.appends

end Config

end Mgxx.Http
