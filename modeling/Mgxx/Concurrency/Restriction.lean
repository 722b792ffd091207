import Mgxx.Concurrency.WorkerOwnership

/-!
What a handler and a worker look at.  A handler reads and writes the connection
of its event, the endpoint and its objects, and takes off the one wake-up it is
for; a worker posts wake-ups for the connection of its response.  So a step that
concerns an owned connection does the same when everything that is not owned is
left out.
-/

namespace Mgxx.Http

open Mgxx.Library

/-- The connections that are owned; the others look unused. -/
def restrictTo (own : ℕ → Bool) (conns : ℕ → Connection) : ℕ → Connection := fun c =>
  if own c then conns c else {}

section RestrictTo

variable {own : ℕ → Bool} {c : ℕ} {conns : ℕ → Connection}

theorem restrictTo_self (hc : own c = true) : restrictTo own conns c = conns c := if_pos hc

theorem restrictTo_of_not (hc : own c = false) : restrictTo own conns c = {} := by
  simp [restrictTo, hc]

theorem restrictTo_modifyAt (hc : own c = true) (f : Connection → Connection) :
    restrictTo own (modifyAt conns c f) = modifyAt (restrictTo own conns) c f := by
  funext d
  simp only [restrictTo, modifyAt_apply]
  by_cases hd : d = c
  · simp [hd, hc]
  · simp [hd]

variable (mg : Mongoose)

/-- A call of a response does the same, if its connection is owned. -/
theorem call_restrictTo {res : Response} (hres : ∀ c, res.mConn = some c → own c = true)
    (call : ResponseCall) : res.call mg (restrictTo own conns) call =
      (restrictTo own (res.call mg conns call).1, (res.call mg conns call).2) := by
  cases call with
  | setHeader name value => rfl
  | removeHeader name => rfl
  | clearHeaders => rfl
  | send code body =>
      cases hconn : res.mConn with
      | none => simp [Response.call, Response.send, hconn]
      | some c => simp [Response.call, Response.send, hconn, restrictTo_modifyAt (hres c hconn)]
  | stream code encoding results =>
      cases hconn : res.mConn with
      | none => simp [Response.call, Response.stream, hconn]
      | some c => simp [Response.call, Response.stream, hconn, restrictTo_modifyAt (hres c hconn)]

theorem calls_restrictTo {res : Response} (hres : res.mConn = some c ∨ res.mConn = none)
    (hc : own c = true) (calls : List ResponseCall) :
    (res.calls mg (restrictTo own conns) calls).1 = restrictTo own (res.calls mg conns calls).1 := by
  induction calls generalizing conns res with
  | nil => rfl
  | cons call calls ih =>
      have hown : ∀ d, res.mConn = some d → own d = true := by
        rintro d hd
        rcases hres with hres | hres
        · exact Option.some.inj (hres.symm.trans hd) ▸ hc
        · exact absurd (hres.symm.trans hd) (by simp)
      rw [Response.calls, Response.calls, call_restrictTo mg hown]
      exact ih (Response.call_actsOnly mg conns hres call).2

end RestrictTo

namespace World

/-- The world without the connections that are not owned, and without their wake-ups. -/
def restrict (own : ℕ → Bool) (w : World) : World :=
  { w with
    connections := restrictTo own w.connections
    wakeups := w.wakeups.filter fun x => own x.1 }

section Restrict

variable {own : ℕ → Bool} {c : ℕ} (mg : Mongoose) (w : World)

@[simp] theorem toEndpoint_restrict : (w.restrict own).toEndpoint = w.toEndpoint := rfl
@[simp] theorem responses_restrict : (w.restrict own).responses = w.responses := rfl
@[simp] theorem streams_restrict : (w.restrict own).streams = w.streams := rfl

theorem connections_restrict_self (hc : own c = true) :
    (w.restrict own).connections c = w.connections c := restrictTo_self hc

theorem restrict_write (hc : own c = true) (source : Source) (o : Write) :
    (w.restrict own).write mg c source o = (w.write mg c source o).restrict own := by
  simp only [write, restrict, restrictTo_modifyAt hc]

theorem restrict_handlePoll (hc : own c = true) :
    (w.restrict own).handlePoll mg c = (w.handlePoll mg c).restrict own := by
  have hentry (w : World) (entry : Σ _ : ℕ, ℕ) :
      pollEntry mg c (w.restrict own) entry = (pollEntry mg c w entry).restrict own := by
    by_cases hfailed : (w.responses entry.2).mState = .failed
    · simp only [pollEntry, responses_restrict, if_pos hfailed, restrict_write mg w hc]
      rfl
    · exact (if_neg hfailed).trans (congrArg (restrict own) (if_neg hfailed).symm)
  simp only [handlePoll, toEndpoint_restrict]
  cases w.mPendingResponses.lookup c with
  | none => rfl
  | some responses => exact List.foldl_hom (restrict own) hentry

theorem restrict_serveStream (hc : own c = true) (id : ℕ) (stream : Option StreamRef) :
    (w.restrict own).serveStream mg c id stream = (w.serveStream mg c id stream).restrict own := by
  cases stream with
  | none => rfl
  | some s =>
      cases hstate : (w.streams s).mState <;>
        simp only [serveStream, streams_restrict, hstate, restrict_write mg w hc] <;> rfl

theorem restrict_handleStream (hc : own c = true) (id : ℕ) : (w.restrict own).handleStream mg c id =
    ((w.handleStream mg c id).1.restrict own, (w.handleStream mg c id).2) := by
  simp only [handleStream, toEndpoint_restrict]
  cases w.mPendingStreams.lookup c with
  | none => rfl
  | some streams =>
      cases hid : streams.lookup id with
      | none => simp only [hid]
      | some stream => simp only [hid, restrict_serveStream mg w hc]

theorem restrict_handleResponse (hc : own c = true) (id : ℕ) :
    (w.restrict own).handleResponse mg c id =
      ((w.handleResponse mg c id).1.restrict own, (w.handleResponse mg c id).2) := by
  simp only [handleResponse, toEndpoint_restrict]
  cases w.mPendingResponses.lookup c with
  | none => simp only [restrict_write mg w hc]
  | some responses =>
      cases hid : responses.lookup id with
      | none => simp only [hid, restrict_write mg w hc]
      | some r =>
          by_cases hstate : (w.responses r).mState = .streaming
          · simp only [hid, if_pos hstate]
            exact (if_pos hstate).trans (restrict_handleStream mg (w.handOff c id r) hc id)
          · have hreply : (w.restrict own).reply mg c id r = (w.reply mg c id r).restrict own := by
              simp only [reply, responses_restrict, restrict_write mg w hc]
              rfl
            simp only [hid, if_neg hstate]
            exact (if_neg hstate).trans (congrArg (·, true) hreply)

theorem restrict_handleWakeup (hc : own c = true) (id : ℕ) :
    (w.restrict own).handleWakeup mg c id = (w.handleWakeup mg c id).restrict own := by
  simp only [handleWakeup, restrict_handleStream mg w hc]
  cases hstream : w.handleStream mg c id with
  | mk w' found =>
      cases found with
      | true => rfl
      | false =>
          simp only [restrict_handleResponse mg w' hc]
          cases hresponse : w'.handleResponse mg c id with
          | mk w'' found =>
              cases found with
              | true => rfl
              | false => exact restrict_write mg w'' hc _ _

theorem restrict_handleWrite (hc : own c = true) :
    (w.restrict own).handleWrite mg c = (w.handleWrite mg c).restrict own := by
  have hpump : (w.restrict own).pumpStream mg c = (w.pumpStream mg c).restrict own := by
    simp only [pumpStream, restrict, restrictTo_modifyAt hc]
  have hblocked : (w.restrict own).blocked mg c = w.blocked mg c := by
    rw [blocked, hpump, connections_restrict_self _ hc, blocked]
  rw [handleWrite_eq, handleWrite_eq, hpump, hblocked]
  rfl

theorem restrict_handleClose (hc : own c = true) :
    (w.restrict own).handleClose c = (w.handleClose c).restrict own := by
  rw [handleClose_eq, handleClose_eq]
  simp only [restrict, restrictTo_modifyAt hc]
  rfl

theorem restrict_handleHttpMessage (hc : own c = true) (msg : HttpMessage)
    (calls : List ResponseCall) : (w.restrict own).handleHttpMessage mg c msg calls =
      (w.handleHttpMessage mg c msg calls).restrict own := by
  have hinvoke (listener : Listener) :
      (w.restrict own).invoke mg c listener calls = (w.invoke mg c listener calls).restrict own := by
    cases hasync : listener.mIsAsync with
    | true =>
        simp only [invoke, hasync, if_true]
        rfl
    | false =>
        simp only [invoke, hasync, Bool.false_eq_true, if_false, restrict]
        rw [calls_restrictTo mg (Or.inl rfl) hc]
  simp only [handleHttpMessage, toEndpoint_restrict]
  cases dispatch mg w.toEndpoint msg with
  | listener path listener groups => exact hinvoke listener
  | asset path asset => exact restrict_write mg w hc _ _
  | fallback listener => exact hinvoke listener
  | notFound => exact restrict_write mg w hc _ _

variable {w} in
/-- A handler does the same for an owned connection. -/
theorem restrict_handle {e : LoopEvent} (hc : own e.conn = true) :
    (w.restrict own).handle mg e = (w.handle mg e).restrict own := by
  cases e with
  | accept c => simp only [handle, accept, restrict, restrictTo_modifyAt (c := c) hc]
  | poll c => exact restrict_handlePoll mg w hc
  | httpMessage c msg calls => exact restrict_handleHttpMessage mg w hc msg calls
  | wakeup c id =>
      have htake : (w.restrict own).take c id = (w.take c id).restrict own := by
        simp only [take, restrict]
        rw [List.erase_filter]
      rw [handle, htake]
      exact restrict_handleWakeup mg (w.take c id) hc id
  | write c =>
      have hclear : (w.restrict own).clearSent c = (w.clearSent c).restrict own := by
        simp only [clearSent, restrict, restrictTo_modifyAt (c := c) hc]
      rw [handle, hclear]
      exact restrict_handleWrite mg (w.clearSent c) hc
  | close c =>
      rw [handle, restrict_handleClose w (c := c) hc]
      simp only [handle, forget, restrict, restrictTo_modifyAt (c := c) hc]
  | mongoose c send => simp only [handle, setSend, restrict, restrictTo_modifyAt (c := c) hc]

/-- Whether mongoose raises an event is no matter of the other connections. -/
theorem raises_restrict {e : LoopEvent} (hc : own e.conn = true) :
    (w.restrict own).Raises e ↔ w.Raises e := by
  cases e with
  | wakeup c id =>
      have hc : own c = true := hc
      simp [Raises, restrict, restrictTo_self hc, hc]
  | accept c => simp only [Raises, connections_restrict_self w (c := c) hc]
  | poll c => simp only [Raises, connections_restrict_self w (c := c) hc]
  | httpMessage c msg calls => simp only [Raises, connections_restrict_self w (c := c) hc]
  | write c => simp only [Raises, connections_restrict_self w (c := c) hc]
  | close c => simp only [Raises, connections_restrict_self w (c := c) hc]
  | mongoose c send => simp only [Raises, connections_restrict_self w (c := c) hc]

end Restrict

end World

namespace Config

def restrict (own : ℕ → Bool) (cfg : Config) : Config :=
  { cfg with world := cfg.world.restrict own }

section Restrict

variable {own : ℕ → Bool} {mg : Mongoose} {cfg cfg' : Config} {e : Event}

theorem own_of_status (cfg : Config) {c : ℕ}
    (h : ((cfg.restrict own).world.connections c).status ≠ .unused) : own c = true := by
  cases hc : own c with
  | true => rfl
  | false =>
      have hunused : (cfg.restrict own).world.connections c = {} := restrictTo_of_not hc
      exact absurd (congrArg Connection.status hunused) h

theorem restrict_commit {t r : ℕ} {access : Access} (h : ∀ x ∈ access.posted, own x.1 = true) :
    (cfg.restrict own).commit t r access = (cfg.commit t r access).restrict own := by
  have hfilter : (access.posted.filter fun x => own x.1) = access.posted :=
    List.filter_eq_self.mpr h
  simp only [commit, restrict, World.restrict, List.filter_append, hfilter]

theorem restrict_loop {e : LoopEvent} (hc : own e.conn = true)
    (hstep : cfg.step mg (.loop e) = some cfg') :
    (cfg.restrict own).step mg (.loop e) = some (cfg'.restrict own) := by
  obtain ⟨hraises, rfl⟩ := step_loop hstep
  have hw : (cfg.world.restrict own).loopStep mg e = some ((cfg.world.handle mg e).restrict own) :=
    World.loopStep_eq_some.mpr ⟨(World.raises_restrict cfg.world hc).mpr hraises,
      World.restrict_handle mg hc⟩
  simp only [step, restrict, hw, Option.map_some]

/-- An access that a thread makes without the other connections posts for owned ones only. -/
theorem own_of_posted (h : Owned (cfg.restrict own)) {t r : ℕ} {access : Access}
    (hstep : (cfg.restrict own).step mg e = some ((cfg.restrict own).commit t r access)) :
    ∀ x ∈ access.posted, own x.1 = true := by
  rintro ⟨c, id⟩ hx
  have hafter := h.step hstep
  obtain ⟨hlt, hconn⟩ := hafter.wakeup c id (List.mem_append_right _ hx)
  have hstatus := (hafter.identity id hlt).2
  rw [hconn] at hstatus
  exact own_of_status cfg hstatus

/-- A thread does the same without the other connections, and it posts wake-ups
for owned connections only. -/
theorem restrict_worker (h : Owned (cfg.restrict own)) (he : ∀ e', e ≠ .loop e')
    (hstep : cfg.step mg e = some cfg') :
    (cfg.restrict own).step mg e = some (cfg'.restrict own) ∧
      ∃ posted, cfg'.world.wakeups = cfg.world.wakeups ++ posted ∧
        ∀ x ∈ posted, own x.1 = true := by
  have hcommit {t r : ℕ} {access : Access}
      (hrestricted : (cfg.restrict own).step mg e = some ((cfg.restrict own).commit t r access)) :
      (cfg.restrict own).step mg e = some ((cfg.commit t r access).restrict own) ∧
        ∃ posted, (cfg.commit t r access).world.wakeups = cfg.world.wakeups ++ posted ∧
          ∀ x ∈ posted, own x.1 = true := by
    have hposted := own_of_posted h hrestricted
    exact ⟨hrestricted.trans (congrArg some (restrict_commit hposted)), access.posted, rfl, hposted⟩
  cases e with
  | loop e => exact absurd rfl (he e)
  | headers r headers =>
      have hr : r < cfg.world.mRequestCounter := by
        by_contra hr
        exact absurd ((if_neg hr).symm.trans hstep) (by simp)
      obtain rfl := step_headers hstep
      exact ⟨if_pos hr, [], by simp [World.updateResponse], by simp⟩
  | begin t r call =>
      obtain ⟨hidle, hr, rfl⟩ := step_begin hstep
      exact hcommit (if_pos ⟨hidle, hr⟩)
  | wait t s =>
      obtain ⟨hidle, hreturned, granted, hwait, rfl⟩ := step_wait hstep
      have hrestricted : (cfg.restrict own).step mg (.wait t s) =
          (cfg.restrict own).waited t s := if_pos ⟨hidle, hreturned⟩
      have hwait' : ((cfg.restrict own).world.streams s).wait = some granted := hwait
      rw [hrestricted, waited, hwait']
      cases granted with
      | true => exact ⟨rfl, [], by simp, by simp⟩
      | false => exact ⟨rfl, [], by simp, by simp⟩
  | put t s op =>
      obtain ⟨hfree, hreturned, rfl⟩ := step_put hstep
      exact hcommit (if_pos ⟨hfree, hreturned⟩)
  | advance t answer =>
      rcases step_advance hstep with ⟨hnone, rfl⟩ | ⟨r, hreq, rfl⟩
      · have hnone' : ((cfg'.restrict own).threads t).request = none := hnone
        exact ⟨by simp only [step, hnone'], [], by simp, by simp⟩
      · have hreq' : ((cfg.restrict own).threads t).request = some r := hreq
        refine hcommit ?_
        simp only [step, hreq']
        rfl

end Restrict

end Config

end Mgxx.Http
