import Mgxx.Concurrency.Attendance
import Mgxx.Concurrency.Driving
import Mgxx.Concurrency.Use

/-!
What brings the view of a request on, done by the program: one event for each step of
the view, or two where the client reads.
-/

namespace Mgxx.Http

open Mgxx.Library

namespace Config

/-- The request is served on an open connection that carries no synchronous stream, and
thread `t` works for no other request. -/
structure Drivable (cfg : Config) (r t : ℕ) : Prop where
  owned : Owned cfg
  request : r < cfg.world.mRequestCounter
  isOpen : cfg.IsOpen r
  alone : ∀ r', (cfg.threads t).request = some r' → r' = r
  fnData : (cfg.world.connections (cfg.conn r)).fnData.bind RemoteContext.mStream = none

def Serving (r : ℕ) (cfg : Config) (e : Event) : Prop :=
  cfg.Conforming r e ∧ ∀ e', e = .loop e' → e' = .wakeup (cfg.conn r) r

variable {mg : Mongoose} {cfg cfg' : Config} {r t : ℕ}

/-- One event of the program that brings the view on. -/
theorem exists_of_event {ok : Config → Event → Prop} (h : cfg.Drivable r t) {e : Event}
    {ve : View.Event} {v' : View} (hstep : cfg.step mg e = some cfg')
    (habout : e.about mg cfg r = some ve) (hview : (cfg.view r).step r ve = some v') (hok : ok cfg e)
    (hopen : cfg'.IsOpen r) (halone : ∀ r', (cfg'.threads t).request = some r' → r' = r)
    (hfnData : (cfg'.world.connections (cfg.conn r)).fnData =
      (cfg.world.connections (cfg.conn r)).fnData) :
    ∃ cfg', Reaches (step mg) ok cfg cfg' ∧ cfg'.Drivable r t ∧ cfg'.view r = v' := by
  have hnext := view_step mg h.owned h.request hstep hopen
  rw [habout] at hnext
  refine ⟨cfg', (Reaches.refl _).next hok hstep, ⟨h.owned.step hstep,
    Nat.lt_of_lt_of_le h.request (mRequestCounter_le_step hstep), hopen, halone, ?_⟩,
    Option.some.inj (hnext.symm.trans hview)⟩
  rw [conn_step h.owned h.request hstep, hfnData]
  exact h.fnData

theorem exists_of_worker (h : cfg.Drivable r t) {e : Event} {ve : View.Event} {v' : View}
    (hloop : ∀ e', e ≠ .loop e') (hstep : cfg.step mg e = some cfg')
    (habout : e.about mg cfg r = some ve) (hview : (cfg.view r).step r ve = some v')
    (hok : cfg.Conforming r e) (halone : ∀ r', (cfg'.threads t).request = some r' → r' = r) :
    ∃ cfg', Reaches (step mg) (Serving r) cfg cfg' ∧ cfg'.Drivable r t ∧ cfg'.view r = v' := by
  obtain ⟨hconns, -⟩ := step_of_worker hstep hloop
  refine exists_of_event h hstep habout hview ⟨hok, fun e' he => absurd he (hloop e')⟩ ?_ halone
    (by rw [hconns])
  rw [IsOpen, conn_step h.owned h.request hstep, hconns]
  exact h.isOpen

theorem threads_of_view {t' : ℕ} {pc : Pc} (hpc : (cfg.view r).threads t' = pc) (hne : pc ≠ .idle) :
    cfg.threads t' = pc := by
  rcases threads_view cfg r t' with hidle | hsame
  · exact absurd (hpc.symm.trans hidle) hne
  · exact hsame.symm.trans hpc

/-- A step of another thread, or an access to the objects of the request. -/
theorem alone_of_commit (h : cfg.Drivable r t) {t' : ℕ} {access : Access}
    (hlocal : Local cfg r access) :
    ∀ r', ((cfg.commit t' r access).threads t).request = some r' → r' = r := by
  intro r' hr'
  rw [threads_commit] at hr'
  split_ifs at hr'
  · exact hlocal.request r' hr'
  · exact h.alone r' hr'

theorem exists_of_wait (h : cfg.Drivable r t) {s : StreamRef} {v' : View}
    (hok : (cfg.view r).Conforming r (.wait t s))
    (hview : (cfg.view r).step r (.wait t s) = some v') :
    ∃ cfg', Reaches (step mg) (Serving r) cfg cfg' ∧ cfg'.Drivable r t ∧ cfg'.view r = v' := by
  obtain ⟨hidle, hreturned, granted, hwait, -⟩ := View.step_wait hview
  obtain ⟨hresponse, -⟩ := h.owned.returned r s hreturned
  subst hresponse
  have hidle' : cfg.threads t = .idle := by
    cases hrequest : (cfg.threads t).request with
    | none => exact Pc.eq_idle_of_request hrequest
    | some r' =>
        obtain rfl := h.alone r' hrequest
        exact (threads_view_of_request hrequest).symm.trans hidle
  have hstep : cfg.step mg (.wait t s) = cfg.waited t s := if_pos ⟨hidle', hreturned⟩
  have hwait' : (cfg.world.streams s).wait = some granted := hwait
  rw [waited, hwait', Option.map_some] at hstep
  refine exists_of_worker h (by simp) hstep (if_pos rfl) hview (fun _ t' hstream => ?_)
    fun r' hr' => ?_
  · refine hok t' ?_
    rw [threads_view_of_request (Pc.request_of_stream hstream)]
    exact hstream
  · split_ifs at hr'
    · have hr' : some s.response = some r' := by simpa [Pc.request] using hr'
      exact (Option.some.inj hr').symm
    · exact h.alone r' hr'

theorem exists_of_put (h : cfg.Drivable r t) {t' : ℕ} {s : StreamRef} {op : Put} {v' : View}
    (hok : (cfg.view r).Conforming r (.put t' s op))
    (hview : (cfg.view r).step r (.put t' s op) = some v') :
    ∃ cfg', Reaches (step mg) (Serving r) cfg cfg' ∧ cfg'.Drivable r t ∧ cfg'.view r = v' := by
  obtain ⟨-, hreturned, -⟩ := View.step_put hview
  obtain ⟨hresponse, hmade⟩ := h.owned.returned r s hreturned
  subst hresponse
  have hgranted : cfg.threads t' = .granted s := threads_of_view hok (by simp)
  have hstep : cfg.step mg (.put t' s op) = some (cfg.commit t' s.response
      ((cfg.shared s.response).put s op)) := if_pos ⟨Or.inr hgranted, hreturned⟩
  exact exists_of_worker h (by simp) hstep (if_pos rfl) hview (fun _ => hgranted)
    (alone_of_commit h (local_of_mild (Owned.mild_put hmade op)))

theorem exists_of_advance (h : cfg.Drivable r t) {t' : ℕ} {answer : Bool} {v' : View}
    (hview : (cfg.view r).step r (.advance t' answer) = some v') :
    ∃ cfg', Reaches (step mg) (Serving r) cfg cfg' ∧ cfg'.Drivable r t ∧ cfg'.view r = v' := by
  by_cases hrequest : (cfg.threads t').request = some r
  · have hstep : cfg.step mg (.advance t' answer) = some (cfg.commit t' r
        ((cfg.shared r).advance answer (cfg.threads t'))) := by simp only [step, hrequest]
    exact exists_of_worker h (by simp) hstep (if_pos hrequest) hview trivial
      (alone_of_commit h (local_advance h.owned hrequest answer))
  · -- the thread is not at work on the request
    have hidle : (cfg.view r).threads t' = .idle := if_neg hrequest
    refine ⟨cfg, .refl cfg, h, ?_⟩
    rw [View.step, View.advance_of_idle hidle] at hview
    exact Option.some.inj hview

theorem exists_of_deliver (h : cfg.Drivable r t) {v' : View}
    (hview : (cfg.view r).step r .deliver = some v') :
    ∃ cfg', Reaches (step mg) (Serving r) cfg cfg' ∧ cfg'.Drivable r t ∧ cfg'.view r = v' := by
  obtain ⟨hflight, -⟩ := View.step_deliver hview
  have hraises : cfg.world.Raises (.wakeup (cfg.conn r) r) :=
    ⟨h.isOpen, List.count_pos_iff.mp hflight⟩
  have hloop : cfg.world.loopStep mg (.wakeup (cfg.conn r) r) = some _ :=
    World.loopStep_eq_some.mpr ⟨hraises, rfl⟩
  have hstep : cfg.step mg (.loop (.wakeup (cfg.conn r) r)) = some
      { cfg with
        world := cfg.world.handle mg (.wakeup (cfg.conn r) r)
        history := record cfg.history (.wakeup (cfg.conn r) r) } := by
    simp only [step, hloop, Option.map_some]
  refine exists_of_event h hstep (if_pos rfl) hview ⟨trivial, fun e' he => ?_⟩ ?_ h.alone ?_
  · exact (Event.loop.inj he).symm
  · rw [IsOpen, conn_step h.owned h.request hstep]
    have hopen : (cfg.world.connections (cfg.conn r)).status = .live := h.isOpen
    simpa [World.handle, World.take] using hopen
  · simp [World.handle, World.take]

/-- The client has read everything; a write event is due if there was anything to read. -/
theorem drivable_drain (mg : Mongoose) (h : cfg.Drivable r t) : ∃ cfg', cfg.step mg
      (.loop (.mongoose (cfg.conn r) [])) = some cfg' ∧ cfg'.Drivable r t ∧
      cfg'.view r = cfg.view r ∧ (cfg'.world.connections (cfg.conn r)).send = [] ∧
      ((cfg.world.connections (cfg.conn r)).Busy →
        (cfg'.world.connections (cfg.conn r)).sent = true) := by
  have hraises : cfg.world.Raises (.mongoose (cfg.conn r) []) := h.isOpen
  have hloop : cfg.world.loopStep mg (.mongoose (cfg.conn r) []) = some _ :=
    World.loopStep_eq_some.mpr ⟨hraises, rfl⟩
  have hstep : cfg.step mg (.loop (.mongoose (cfg.conn r) [])) = some
      { cfg with world := cfg.world.setSend (cfg.conn r) [] } := by
    simp only [step, hloop, Option.map_some]
    rfl
  have hopen : ({ cfg with world := cfg.world.setSend (cfg.conn r) [] } : Config).IsOpen r := by
    have hopen : (cfg.world.connections (cfg.conn r)).status = .live := h.isOpen
    simpa [IsOpen, conn, World.setSend] using hopen
  refine ⟨_, hstep, ⟨h.owned.step hstep, h.request, hopen, h.alone, ?_⟩,
    view_step mg h.owned h.request hstep hopen, ?_, fun hbusy => ?_⟩
  · simpa [conn, World.setSend] using h.fnData
  · simp [World.setSend]
  · rcases hbusy with hsend | hsent
    · simp [World.setSend, List.length_pos_iff.mpr hsend]
    · simp [World.setSend, hsent]

/-- A write event that finds room and no callback releases the producers, and does nothing else
to the connections. -/
theorem drivable_write (mg : Mongoose) (h : cfg.Drivable r t) {d : ℕ}
    (hraises : cfg.world.Raises (.write d))
    (hfnData : (cfg.world.connections d).fnData.bind RemoteContext.mStream = none)
    (hroom : (cfg.world.connections d).send.length < mg.ioSize) {v' : View}
    (hview : (cfg.view r).step r (.release false) = some v') :
    ∃ cfg', cfg.step mg (.loop (.write d)) = some cfg' ∧
      cfg'.world.connections = (cfg.world.clearSent d).connections ∧ cfg'.Drivable r t ∧
      cfg'.view r = v' := by
  have hpump : (cfg.world.connections d).pumpStream mg = cfg.world.connections d := by
    simp only [Connection.pumpStream, hfnData]
  have hfree : cfg.world.blocked mg d = false := by
    simp only [World.blocked, World.pumpStream, modifyAt_self, hpump]
    exact decide_eq_false (Nat.not_le.mpr hroom)
  have hloop : cfg.world.loopStep mg (.write d) = some _ :=
    World.loopStep_eq_some.mpr ⟨hraises, rfl⟩
  have hstep : cfg.step mg (.loop (.write d)) = some
      { cfg with world := cfg.world.handle mg (.write d) } := by
    simp only [step, hloop, Option.map_some]
    rfl
  have hconns : (cfg.world.handle mg (.write d)).connections =
      (cfg.world.clearSent d).connections := by
    rw [World.connections_handle_write, World.connections_clearSent]
    funext d'
    by_cases hd : d' = d
    · rw [hd, modifyAt_self, modifyAt_self, hpump]
    · rw [modifyAt_of_ne hd, modifyAt_of_ne hd]
  have hconn : ({ cfg with world := cfg.world.handle mg (.write d) } : Config).conn r = cfg.conn r :=
    conn_step h.owned h.request hstep
  have hopen : ({ cfg with world := cfg.world.handle mg (.write d) } : Config).IsOpen r := by
    rw [IsOpen, hconn, hconns, World.status_clearSent]
    exact h.isOpen
  have hnext := view_step mg h.owned h.request hstep hopen
  simp only [Event.about, hfree] at hnext
  refine ⟨_, hstep, hconns, ⟨h.owned.step hstep,
    Nat.lt_of_lt_of_le h.request (mRequestCounter_le_step hstep), hopen, h.alone, ?_⟩,
    Option.some.inj (hnext.symm.trans hview)⟩
  rw [hconn, hconns, World.fnData_clearSent]
  exact h.fnData

/-- What brings the view on is brought about in the program, where the producers can be
released.  What else is kept in between is `J`. -/
theorem exists_of_leads (ok : Config → Event → Prop) (J : Config → Prop) (h : cfg.Drivable r t)
    (hJ : J cfg)
    (hserving : ∀ cfg e cfg', J cfg → Owned cfg → r < cfg.world.mRequestCounter →
      cfg.Serving r e → cfg.step mg e = some cfg' → ok cfg e ∧ J cfg')
    (hrelease : ∀ (cfg : Config) v', cfg.Drivable r t → J cfg →
      (cfg.view r).Drives t (.release false) → (cfg.view r).step r (.release false) = some v' →
      ∃ cfg', Reaches (step mg) ok cfg cfg' ∧ cfg'.Drivable r t ∧ J cfg' ∧ cfg'.view r = v')
    {v' : View} (hleads : View.Leads r t (cfg.view r) v') :
    ∃ cfg', Reaches (step mg) ok cfg cfg' ∧ cfg'.Drivable r t ∧ J cfg' ∧ cfg'.view r = v' := by
  refine hleads.invariant (P := fun v => ∃ cfg', Reaches (step mg) ok cfg cfg' ∧
    cfg'.Drivable r t ∧ J cfg' ∧ cfg'.view r = v) ⟨cfg, .refl cfg, h, hJ, rfl⟩ ?_
  rintro v ve v' ⟨cfg₁, hreaches₁, hdrivable, hJ₁, rfl⟩ ⟨hok, hdrives⟩ hstep
  have hserve (hnext : ∃ cfg₂, Reaches (Config.step mg) (Serving r) cfg₁ cfg₂ ∧
      cfg₂.Drivable r t ∧ cfg₂.view r = v') : ∃ cfg₂, Reaches (Config.step mg) ok cfg₁ cfg₂ ∧
        cfg₂.Drivable r t ∧ J cfg₂ ∧ cfg₂.view r = v' := by
    obtain ⟨cfg₂, hreaches₂, hdrivable₂, hview⟩ := hnext
    obtain ⟨hreaches₂, hJ₂⟩ : Reaches (Config.step mg) ok cfg₁ cfg₂ ∧ J cfg₂ := by
      refine hreaches₂.invariant_of (J := fun cfg => Owned cfg ∧ r < cfg.world.mRequestCounter)
        (P := fun cfg => Reaches (Config.step mg) ok cfg₁ cfg ∧ J cfg) (fun cfg hcfg => ?_)
        ⟨.refl cfg₁, hJ₁⟩ ?_
      · exact hcfg.invariant (P := fun cfg => Owned cfg ∧ r < cfg.world.mRequestCounter)
          ⟨hdrivable.owned, hdrivable.request⟩ fun _ _ _ hP _ hstep =>
            ⟨hP.1.step hstep, Nat.lt_of_lt_of_le hP.2 (mRequestCounter_le_step hstep)⟩
      · rintro cfg e cfg' ⟨howned, hr⟩ ⟨hreaches, hJ⟩ hok hstep
        obtain ⟨hok', hJ'⟩ := hserving cfg e cfg' hJ howned hr hok hstep
        exact ⟨hreaches.next hok' hstep, hJ'⟩
    exact ⟨cfg₂, hreaches₂, hdrivable₂, hJ₂, hview⟩
  have hnext : ∃ cfg₂, Reaches (Config.step mg) ok cfg₁ cfg₂ ∧
      cfg₂.Drivable r t ∧ J cfg₂ ∧ cfg₂.view r = v' := by
    cases ve with
    | deliver => exact hserve (exists_of_deliver hdrivable hstep)
    | release blocked =>
        cases blocked with
        | true => exact hdrives.elim
        | false => exact hrelease cfg₁ v' hdrivable hJ₁ hdrives hstep
    | wait t' s =>
        obtain rfl : t' = t := hdrives
        exact hserve (exists_of_wait hdrivable hok hstep)
    | put t' s op => exact hserve (exists_of_put hdrivable hok hstep)
    | advance t' answer => exact hserve (exists_of_advance hdrivable hstep)
    | poll | headers _ | begin _ _ => exact hdrives.elim
  obtain ⟨cfg₂, hreaches₂, hdrivable₂, hJ₂, hview⟩ := hnext
  exact ⟨cfg₂, hreaches₁.trans hreaches₂, hdrivable₂, hJ₂, hview⟩

/-- The client reads everything, and the write event comes. -/
theorem exists_of_release (h : cfg.Drivable r t) (hio : 0 < mg.ioSize)
    (hbusy : (cfg.world.connections (cfg.conn r)).Busy) {v' : View}
    (hview : (cfg.view r).step r (.release false) = some v') :
    ∃ cfg', Reaches (step mg) (Conforming r) cfg cfg' ∧ cfg'.Drivable r t ∧ cfg'.view r = v' := by
  obtain ⟨cfg₁, hdrain, h₁, hsame, hsend, hsent⟩ := drivable_drain mg h
  have hconn : cfg₁.conn r = cfg.conn r := conn_step h.owned h.request hdrain
  rw [← hsame] at hview
  rw [← hconn] at hsend hsent
  obtain ⟨cfg₂, hwrite, -, h₂, hview₂⟩ :=
    drivable_write mg h₁ ⟨h₁.isOpen, hsent (by rwa [hconn])⟩ h₁.fnData (by rwa [hsend]) hview
  have hreaches : Reaches (step mg) (Conforming r) cfg cfg₁ :=
    (Reaches.refl cfg).next (e := .loop (.mongoose (cfg.conn r) [])) trivial hdrain
  exact ⟨cfg₂, hreaches.next (e := .loop (.write (cfg₁.conn r))) trivial hwrite, h₂, hview₂⟩

/-- A client that reads is all it takes, where a stream that waits for the flush has left it
something to read. -/
theorem exists_of_leads_reading (h : cfg.Drivable r t) (hio : 0 < mg.ioSize)
    (hbusy : ∀ cfg', Reaches (step mg) (Conforming r) cfg cfg' → cfg'.IsOpen r →
      ∀ s, (cfg'.view r).table = some s → ((cfg'.view r).shared.stream s.number).mState = .flush →
        (cfg'.world.connections (cfg'.conn r)).Busy) {v' : View}
    (hleads : View.Leads r t (cfg.view r) v') :
    ∃ cfg', Reaches (step mg) (Conforming r) cfg cfg' ∧ cfg'.Drivable r t ∧ cfg'.view r = v' := by
  have hrelease (cfg₁ : Config) (v' : View) (hdrivable : cfg₁.Drivable r t)
      (hreaches : Reaches (step mg) (Conforming r) cfg cfg₁)
      (hdrives : (cfg₁.view r).Drives t (.release false))
      (hview : (cfg₁.view r).step r (.release false) = some v') :
      ∃ cfg₂, Reaches (step mg) (Conforming r) cfg₁ cfg₂ ∧ cfg₂.Drivable r t ∧
        Reaches (step mg) (Conforming r) cfg cfg₂ ∧ cfg₂.view r = v' := by
    obtain ⟨s, htable, hflush⟩ := hdrives
    obtain ⟨cfg₂, hreaches₂, hdrivable₂, hview₂⟩ := exists_of_release hdrivable hio
      (hbusy cfg₁ hreaches hdrivable.isOpen s htable hflush) hview
    exact ⟨cfg₂, hreaches₂, hdrivable₂, hreaches.trans hreaches₂, hview₂⟩
  obtain ⟨cfg', hreaches, hdrivable, -, hview⟩ := exists_of_leads (Conforming r)
    (fun cfg' => Reaches (step mg) (Conforming r) cfg cfg') h (.refl cfg)
    (fun _ _ _ hreaches _ _ hserving hstep => ⟨hserving.1, hreaches.next hserving.1 hstep⟩)
    hrelease hleads
  exact ⟨cfg', hreaches, hdrivable, hview⟩

end Config

end Mgxx.Http
