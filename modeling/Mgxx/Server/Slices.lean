import Mgxx.Server.Wiring

/-!
One endpoint among many.  What an endpoint has to do with is its own tables and
objects, the connections it has accepted, the wake-ups for these, and the threads
that work for it.  That part of a server is a program of the kind with a single
endpoint: every step of the server is a step of at most one of these programs, and
leaves the others as they are.
-/

namespace Mgxx

open Http Library

namespace Http

variable {mg : Mongoose} {w : World} {c d : ℕ}

theorem Connection.isSome_fnData_pumpStream (conn : Connection) :
    (conn.pumpStream mg).fnData.isSome = conn.fnData.isSome := by
  unfold Connection.pumpStream
  split
  · rfl
  · rename_i producer hproducer
    obtain ⟨context, hcontext, -⟩ := Option.bind_eq_some_iff.mp hproducer
    split_ifs
    · rfl
    · split <;> simp [hcontext, Connection.setStream, Connection.write]

theorem Response.isSome_fnData_calls (conns : ℕ → Connection) (res : Response)
    (calls : List ResponseCall) :
    ((res.calls mg conns calls).1 d).fnData.isSome = (conns d).fnData.isSome := by
  induction calls generalizing conns res with
  | nil => rfl
  | cons call calls ih =>
      rw [Response.calls, ih]
      cases call with
      | setHeader name value => rfl
      | removeHeader name => rfl
      | clearHeaders => rfl
      | send code body =>
          cases hconn : res.mConn with
          | none => simp [Response.call, Response.send, hconn]
          | some c => by_cases hd : d = c <;>
              simp [Response.call, Response.send, hconn, hd, modifyAt_of_ne]
      | stream code encoding results =>
          cases hconn : res.mConn with
          | none => simp [Response.call, Response.stream, hconn]
          | some c => by_cases hd : d = c <;>
              simp [Response.call, Response.stream, hconn, hd, modifyAt_of_ne, Connection.setStream]

namespace World

/-- A handler neither makes a context nor lets go of one, unless the connection is
accepted or closed. -/
theorem isSome_fnData_handle {e : LoopEvent} (haccept : ∀ c, e ≠ .accept c)
    (hclose : ∀ c, e ≠ .close c) :
    ((w.handle mg e).connections d).fnData.isSome = (w.connections d).fnData.isSome := by
  cases e with
  | accept c => exact absurd rfl (haccept c)
  | close c => exact absurd rfl (hclose c)
  | poll c => rw [handle, fnData_handlePoll]
  | httpMessage c msg calls =>
      rw [handle]
      have hinvoke (listener : Listener) :
          ((w.invoke mg c listener calls).connections d).fnData.isSome =
            (w.connections d).fnData.isSome := by
        unfold invoke
        split
        · rfl
        · exact Response.isSome_fnData_calls ..
      unfold handleHttpMessage
      cases dispatch mg w.toEndpoint msg with
      | listener path listener groups => exact hinvoke listener
      | asset path asset => rw [fnData_write]
      | fallback listener => exact hinvoke listener
      | notFound => rw [fnData_write]
  | wakeup c id =>
      apply handleWakeup_elim (w := w.take c id)
        (P := fun w' => (w'.connections d).fnData.isSome = (w.connections d).fnData.isSome)
      · intro stream _
        rw [fnData_serveStream]
        rfl
      · intro r _ _ _
        rw [fnData_serveStream]
        rfl
      · intro r _ _ _
        rw [fnData_reply]
        rfl
      · intro _ _
        rw [fnData_write, fnData_write]
        rfl
  | write c =>
      rw [connections_handle_write, modifyAt_apply]
      split_ifs with hd
      · exact hd ▸ Connection.isSome_fnData_pumpStream _
      · rfl
  | mongoose c send =>
      by_cases hd : d = c <;> simp [handle, setSend, hd, modifyAt_of_ne]

/-- A handler posts no wake-up, and mongoose takes off the one it delivers. -/
theorem wakeups_handle (e : LoopEvent) : (w.handle mg e).wakeups = match e with
    | .wakeup c id => w.wakeups.erase (c, id)
    | _ => w.wakeups := by
  cases e with
  | accept c => rfl
  | poll c => rw [handle, wakeups_handlePoll]
  | httpMessage c msg calls =>
      rcases handleHttpMessage_cases mg w c msg calls with hadd | ⟨conns, hconns, -⟩
      · rw [handle, hadd]
        rfl
      · rw [handle, hconns]
  | wakeup c id =>
      apply handleWakeup_elim (w := w.take c id) (P := fun w' => w'.wakeups = w.wakeups.erase (c, id))
      · intro stream _
        rw [wakeups_serveStream]
        rfl
      · intro r _ _ _
        rw [wakeups_serveStream]
        rfl
      · intro r _ _ _
        rfl
      · intro _ _
        rfl
  | write c => rw [handle, wakeups_handleWrite, wakeups_clearSent]
  | close c =>
      rw [handle, forget]
      simp only [wakeups_handleClose]
  | mongoose c send => rfl

theorem mem_wakeups_handle {e : LoopEvent} {x : ℕ × ℕ} (h : x ∈ (w.handle mg e).wakeups) :
    x ∈ w.wakeups := by
  rw [wakeups_handle] at h
  split at h
  · exact List.mem_of_mem_erase h
  · exact h

/-- The wake-ups of the other connections stay. -/
theorem filter_wakeups_handle {e : LoopEvent} {own : ℕ → Bool} (h : own e.conn = false) :
    ((w.handle mg e).wakeups.filter fun x => own x.1) = w.wakeups.filter fun x => own x.1 := by
  rw [wakeups_handle]
  split
  · rename_i c id
    have hc : own c = false := h
    rw [← List.erase_filter, List.erase_of_not_mem]
    simp [hc]
  · rfl

end World

end Http

def ServerEvent.part : ServerEvent → Option Event
  | .listen .. | .tlsHs .. => none
  | .accept _ c _ => some (.loop (.accept c))
  | .loop e => some (.loop e)
  | .worker _ e => some e

namespace ServerState

def owns (s : ServerState) (k c : ℕ) : Bool := (s.connections c).owner = some k

/-- The part of the server that endpoint `k` has to do with, as a program of its own. -/
def slice (s : ServerState) (k : ℕ) (site : Site) : Config := (s.config k site).restrict (s.owns k)

/-- The endpoint an event is for.  A listening connection gives its endpoint nothing to do. -/
def concerns (s : ServerState) : ServerEvent → Option ℕ
  | .listen .. | .tlsHs .. => none
  | .accept l _ _ => s.target l
  | .loop e => (s.connections e.conn).owner
  | .worker k _ => some k

variable {net : NetText} {mg : Mongoose} {s s' : ServerState} {c k j : ℕ}
  {site site' : Site}

theorem owns_iff : s.owns k c = true ↔ (s.connections c).owner = some k := by simp [owns]

theorem owns_eq_false (h : (s.connections c).owner ≠ some k) : s.owns k c = false := by
  simp [owns, h]

/-- Two states with the same connections, wake-ups and threads for an endpoint. -/
theorem slice_congr (howner : ∀ d, (s'.connections d).owner = some k ↔
      (s.connections d).owner = some k)
    (hview : ∀ d, (s.connections d).owner = some k → s'.view d = s.view d)
    (hwakeups : (s'.wakeups.filter fun x => s.owns k x.1) = s.wakeups.filter fun x => s.owns k x.1)
    (hthreads : ∀ t, s'.threadsAt k t = s.threadsAt k t) : s'.slice k site = s.slice k site := by
  have howns : s'.owns k = s.owns k := by
    funext d
    simp only [owns, howner d]
  have hconns : restrictTo (s.owns k) s'.view = restrictTo (s.owns k) s.view := by
    funext d
    simp only [restrictTo]
    split_ifs with hd
    · exact hview d (owns_iff.mp hd)
    · rfl
  have hthreads' : s'.threadsAt k = s.threadsAt k := funext hthreads
  simp only [slice, config, Config.restrict, World.restrict, howns, hconns, hwakeups, hthreads']

/-- The endpoint of a program that is put back shows what the program is. -/
theorem config_ofConfig (k : ℕ) (cfg : Config) (hview : s'.view = cfg.world.connections)
    (hwakeups : s'.wakeups = cfg.world.wakeups) (hthreads : s'.threadsAt k = cfg.threads) :
    s'.config k (Site.ofConfig cfg) = cfg := by
  simp only [config, hview, hwakeups, hthreads]
  rfl

/-! ### Views -/

/-- Another connection has another context. -/
theorem contextOf_settle_of_ne (h : Wired net s) {d : ℕ} (hd : d ≠ c) (cfg : Config) :
    (s.settle k c cfg).contextOf d = s.contextOf d := by
  unfold contextOf
  rw [fnData_settle]
  cases hdata : (s.connections d).fnData with
  | null => rfl
  | endpoint k => rfl
  | context p =>
      show (s.settle k c cfg).contexts p = s.contexts p
      rw [contexts_settle, if_neg]
      exact fun hc => hd (h.unique d c p hdata hc)

theorem view_settle_of_ne (h : Wired net s) {d : ℕ} (hd : d ≠ c) (cfg : Config) :
    (s.settle k c cfg).view d = s.view d := by
  simp only [view, contextOf_settle_of_ne h hd, connections_settle_of_ne s k c d cfg hd]

/-- An accepted connection shows what the handler has left, if it has left a context. -/
theorem view_settle_self {cfg : Config} {p : ℕ} {context : Context}
    (hdata : (s.connections c).fnData = .context p) (hcontext : s.contexts p = some context)
    (hsome : (cfg.world.connections c).fnData.isSome = true) :
    (s.settle k c cfg).view c = cfg.world.connections c := by
  obtain ⟨remote, hremote⟩ := Option.isSome_iff_exists.mp hsome
  have hleft : ((s.settle k c cfg).contextOf c).map Context.toRemoteContext = some remote := by
    simp [contextOf, hdata, contexts_settle, hcontext, hremote]
  simp only [view, hleft, ← hremote]
  simp [settle]

/-- What is left of an accepted connection that has been closed. -/
theorem view_deleteContext (h : Wired net s) {cfg : Config} {p : ℕ}
    (hdata : (s.connections c).fnData = .context p)
    (hnone : (cfg.world.connections c).fnData = none)
    (hmark : (s.connections c).data = some 'R')
    (hdelete : (s.settle k c cfg).deleteContext c = some s') (d : ℕ) :
    s'.view d = if d = c then cfg.world.connections c else s.view d := by
  have hmark' : ((s.settle k c cfg).connections c).data = some 'R' := by rw [data_settle, hmark]
  have hdata' : ((s.settle k c cfg).connections c).fnData = .context p := by
    rw [fnData_settle, hdata]
  simp only [deleteContext, hmark', hdata', ne_eq, not_true_eq_false, if_false,
    Option.map_eq_some_iff] at hdelete
  obtain ⟨-, -, rfl⟩ := hdelete
  split_ifs with hd
  · subst hd
    simp [view, contextOf, ← hnone, settle]
  · rw [← view_settle_of_ne (k := k) h hd cfg]
    have hcontext : ({ s.settle k c cfg with
        connections := modifyAt (s.settle k c cfg).connections c fun conn =>
          { conn with fnData := .null, data := none }
        contexts := Function.update (s.settle k c cfg).contexts p none } : ServerState).contextOf d =
          (s.settle k c cfg).contextOf d := by
      simp only [contextOf, modifyAt_of_ne hd]
      cases hq : ((s.settle k c cfg).connections d).fnData with
      | null => rfl
      | endpoint k => rfl
      | context q =>
          refine Function.update_of_ne ?_ ..
          rintro rfl
          rw [fnData_settle] at hq
          exact hd (h.unique d c q hq hdata)
    simp only [view, hcontext, modifyAt_of_ne hd]

/-! ### The handlers -/

theorem deleteContext_cases (h : s.deleteContext c = some s') : s' = s ∨ ∃ p,
    s' = { s with
      connections := modifyAt s.connections c fun conn => { conn with fnData := .null, data := none }
      contexts := Function.update s.contexts p none } := by
  unfold deleteContext at h
  split_ifs at h
  · exact Or.inl (Option.some.inj h).symm
  · split at h
    · rename_i p _
      obtain ⟨-, -, rfl⟩ := Option.map_eq_some_iff.mp h
      exact Or.inr ⟨p, rfl⟩
    · exact absurd h (by simp)
    · exact absurd h (by simp)

/-- Deleting a context touches the pointer of one connection, and that context. -/
theorem deleteContext_fields (h : s.deleteContext c = some s') : s'.mEndpoints = s.mEndpoints ∧
    s'.wakeups = s.wakeups ∧ s'.threads = s.threads ∧
      (∀ d, (s'.connections d).owner = (s.connections d).owner) ∧
      (∀ d, (s'.connections d).status = (s.connections d).status) ∧
      ∀ d ≠ c, s'.connections d = s.connections d := by
  rcases deleteContext_cases h with rfl | ⟨p, rfl⟩
  · exact ⟨rfl, rfl, rfl, fun _ => rfl, fun _ => rfl, fun _ _ => rfl⟩
  · refine ⟨rfl, rfl, rfl, fun d => ?_, fun d => ?_, fun d hd => by simp [modifyAt_of_ne hd]⟩
    · by_cases hd : d = c <;> simp [hd, modifyAt_of_ne]
    · by_cases hd : d = c <;> simp [hd, modifyAt_of_ne]

theorem handle_cases {e : LoopEvent} (hsite : s.mEndpoints[k]? = some site)
    (h : s.handle mg k e = some s') :
    e.isClose = false ∧ s' = s.settle k e.conn (s.handled mg k site e) ∨
      e.isClose = true ∧
        (s.settle k e.conn (s.handled mg k site e)).deleteContext e.conn = some s' := by
  simp only [handle, hsite, Option.bind_eq_bind, Option.bind_some] at h
  split_ifs at h with hguard hclose
  · exact Or.inr ⟨hclose, h⟩
  · exact Or.inl ⟨by simpa using hclose, (Option.some.inj h).symm⟩

/-- What a handler leaves besides its connection. -/
theorem handle_fields {e : LoopEvent} (hsite : s.mEndpoints[k]? = some site)
    (h : s.handle mg k e = some s') :
    s'.mEndpoints = s.mEndpoints.set k (Site.ofConfig (s.handled mg k site e)) ∧
      s'.wakeups = (s.handled mg k site e).world.wakeups ∧ s'.threads = s.threads ∧
      ∀ d, (s'.connections d).owner = (s.connections d).owner := by
  rcases handle_cases hsite h with ⟨-, rfl⟩ | ⟨-, hdelete⟩
  · exact ⟨rfl, rfl, rfl, fun d => owner_settle ..⟩
  · obtain ⟨hendpoints, hwakeups, hthreads, howner, -⟩ := deleteContext_fields hdelete
    exact ⟨hendpoints, hwakeups, hthreads, fun d => (howner d).trans (owner_settle ..)⟩

/-- After an event of an accepted connection, every connection shows what the
handler of its endpoint has left. -/
theorem view_handle (hw : Wired net s) {e : LoopEvent} (henabled : s.Enabled (.loop e))
    (hpeer : (s.connections e.conn).isListening = false) (hsite : s.mEndpoints[k]? = some site)
    (hhandle : s.handle mg k e = some s') :
    s'.view = (s.handled mg k site e).world.connections := by
  obtain ⟨hlive, -⟩ := enabled_loop henabled
  obtain ⟨-, hmark, p, context, hdata, hcontext, -⟩ := hw.peer e.conn hlive hpeer
  have hother (d : ℕ) (hd : d ≠ e.conn) :
      (s.handled mg k site e).world.connections d = s.view d :=
    World.connections_handle_of_ne mg (s.config k site).world hd
  have hview : (s.view e.conn).fnData.isSome = true := by
    simp [view, contextOf, hdata, hcontext]
  funext d
  rcases handle_cases hsite hhandle with ⟨hopen, rfl⟩ | ⟨hclose, hdelete⟩
  · by_cases hd : d = e.conn
    · subst hd
      refine view_settle_self hdata hcontext ?_
      refine (World.isSome_fnData_handle ?_ ?_).trans hview
      · rintro c rfl
        exact henabled
      · rintro c rfl
        exact absurd hopen (by simp [LoopEvent.isClose])
    · rw [view_settle_of_ne hw hd, hother d hd]
  · obtain ⟨c, rfl⟩ : ∃ c, e = .close c := by cases e <;> simp_all [LoopEvent.isClose]
    have hnone : ((s.handled mg k site (.close c)).world.connections c).fnData = none := by
      simp [handled, World.handle, World.forget, World.handleClose_eq]
    rw [view_deleteContext hw hdata hnone hmark hdelete d]
    split_ifs with hd
    · rw [hd]
    · exact (hother d hd).symm

/-- The handlers of an endpoint do not reach the part of another one. -/
theorem slice_handle_of_ne (hw : Wired net s) {e : LoopEvent} (henabled : s.Enabled (.loop e))
    (hpeer : (s.connections e.conn).isListening = false)
    (howner : (s.connections e.conn).owner ≠ some j) (hsite : s.mEndpoints[k]? = some site)
    (hhandle : s.handle mg k e = some s') (site' : Site) : s'.slice j site' = s.slice j site' := by
  obtain ⟨-, hwakeups, hthreads, howners⟩ := handle_fields hsite hhandle
  refine slice_congr (fun d => by rw [howners d]) ?_ ?_ ?_
  · intro d hd
    rw [view_handle hw henabled hpeer hsite hhandle]
    refine World.connections_handle_of_ne mg (s.config k site).world ?_
    rintro rfl
    exact howner hd
  · rw [hwakeups]
    exact World.filter_wakeups_handle (owns_eq_false howner)
  · intro t
    simp only [threadsAt, hthreads]

/-- The part of the endpoint that accepted the connection takes a turn of its own event loop. -/
theorem slice_handle_self (hw : Wired net s) {e : LoopEvent} (henabled : s.Enabled (.loop e))
    (hpeer : (s.connections e.conn).isListening = false)
    (howner : (s.connections e.conn).owner = some k) (hsite : s.mEndpoints[k]? = some site)
    (hhandle : s.handle mg k e = some s') :
    (s.slice k site).step mg (.loop e) =
      some (s'.slice k (Site.ofConfig (s.handled mg k site e))) := by
  obtain ⟨-, hwakeups, hthreads, howners⟩ := handle_fields hsite hhandle
  have hconfig : s'.config k (Site.ofConfig (s.handled mg k site e)) = s.handled mg k site e := by
    refine config_ofConfig k _ (view_handle hw henabled hpeer hsite hhandle) hwakeups ?_
    funext t
    simp only [threadsAt, hthreads]
    rfl
  have howns : s'.owns k = s.owns k := by
    funext d
    simp only [owns, howners d]
  have hraises : (s.config k site).world.Raises e := by
    obtain ⟨hlive, -⟩ := enabled_loop henabled
    cases e with
    | accept c => exact False.elim henabled
    | wakeup c id => exact henabled
    | poll c => exact hlive
    | httpMessage c msg calls => exact hlive
    | write c => exact ⟨hlive, henabled.2.2⟩
    | close c => exact hlive
    | mongoose c send => exact hlive
  rw [slice, slice, hconfig, howns]
  refine Config.restrict_loop (owns_iff.mpr howner) ?_
  have hloop : (s.config k site).world.loopStep mg e =
      some ((s.config k site).world.handle mg e) := World.loopStep_eq_some.mpr ⟨hraises, rfl⟩
  simp only [Config.step, hloop, Option.map_some]
  rfl

/-- Nothing is filed under a listening connection, so that its events do nothing
to the endpoint. -/
theorem handled_of_listening (mg : Mongoose) {e : LoopEvent} (henabled : s.Enabled (.loop e))
    (hlistening : (s.connections e.conn).isListening = true)
    (hkeys : ¬(s.config k site).world.Keys e.conn)
    (hwakeups : ∀ x ∈ s.wakeups, x.1 ≠ e.conn) :
    Site.ofConfig (s.handled mg k site e) = site ∧
      (s.handled mg k site e).world.wakeups = s.wakeups := by
  obtain ⟨-, hpeer⟩ := enabled_loop henabled
  cases e with
  | accept c => exact False.elim henabled
  | wakeup c id => exact absurd rfl (hwakeups (c, id) henabled.2)
  | poll c =>
      rw [handled, World.handle, World.handlePoll_of_not_keys (c := c) hkeys]
      exact ⟨rfl, rfl⟩
  | close c =>
      rw [handled, World.handle, World.handleClose_of_not_keys (c := c) hkeys]
      exact ⟨rfl, rfl⟩
  | httpMessage c msg calls => exact absurd (hpeer rfl) (by simp [hlistening])
  | write c => exact absurd (hpeer rfl) (by simp [hlistening])
  | mongoose c send => exact absurd (hpeer rfl) (by simp [hlistening])

/-- An event of a listening connection leaves the parts of all endpoints as they are. -/
theorem slice_handle_of_listening (hw : Wired net s) {e : LoopEvent}
    (henabled : s.Enabled (.loop e)) (hlistening : (s.connections e.conn).isListening = true)
    (hkeys : ¬(s.config k site).world.Keys e.conn)
    (hwakeups : ∀ x ∈ s.wakeups, x.1 ≠ e.conn) (hsite : s.mEndpoints[k]? = some site)
    (hhandle : s.handle mg k e = some s') :
    s'.mEndpoints = s.mEndpoints ∧ ∀ j site', s'.slice j site' = s.slice j site' := by
  obtain ⟨hendpoints, hleft, hthreads, howners⟩ := handle_fields hsite hhandle
  obtain ⟨hsame, hkept⟩ :=
    handled_of_listening mg henabled hlistening hkeys hwakeups
  obtain ⟨hnone, -, hmark, -⟩ := hw.listening e.conn hlistening
  have hs' : s' = s.settle k e.conn (s.handled mg k site e) := by
    rcases handle_cases hsite hhandle with ⟨-, rfl⟩ | ⟨-, hdelete⟩
    · rfl
    · have hmark' : ((s.settle k e.conn (s.handled mg k site e)).connections e.conn).data ≠
          some 'R' := by
        rw [data_settle, hmark]
        decide
      exact (Option.some.inj ((if_pos hmark').symm.trans hdelete)).symm
  refine ⟨?_, fun j site' => ?_⟩
  · obtain ⟨hlt, rfl⟩ := List.getElem?_eq_some_iff.mp hsite
    rw [hendpoints, hsame]
    exact List.set_getElem_self hlt
  · refine slice_congr (fun d => by rw [howners d]) ?_ (by rw [hleft, hkept]) ?_
    · intro d hd
      rw [hs']
      refine view_settle_of_ne hw ?_ _
      rintro rfl
      exact absurd (hnone.symm.trans hd) (by simp)
    · intro t
      simp only [threadsAt, hthreads]

/-! ### The other events -/

theorem view_of_unused (h : s.connections c = {}) : s.view c = {} := by
  simp [view, contextOf, h]

/-- A new listening connection belongs to no endpoint's part. -/
theorem slice_listen (hw : Wired net s) (hunused : (s.connections c).status = .unused)
    (routes : Endpoint) (j : ℕ) (site : Site) :
    (s.listen c routes).slice j site = s.slice j site := by
  have hnone := hw.unused c hunused
  have howner (d : ℕ) : ((s.listen c routes).connections d).owner = (s.connections d).owner := by
    by_cases hd : d = c
    · simp [listen, hd, hnone]
    · simp [listen, Function.update_of_ne hd]
  refine slice_congr (fun d => by rw [howner d]) ?_ rfl fun _ => rfl
  intro d hd
  have hdc : d ≠ c := by
    rintro rfl
    rw [hnone] at hd
    exact absurd hd (by simp)
  simp only [view, contextOf, listen, Function.update_of_ne hdc]

/-- The part of a new endpoint is a program that has met no request. -/
theorem slice_start (hw : Wired net s)
    (hthreads : ∀ t, (s.threads t).pc = .idle ∨ (s.threads t).site < s.mEndpoints.length)
    (routes : Endpoint) :
    s.slice s.mEndpoints.length (.start routes) = Config.start routes := by
  have howns : s.owns s.mEndpoints.length = fun _ => false := by
    funext d
    refine owns_eq_false fun hd => ?_
    exact absurd (hw.owner d _ hd) (Nat.lt_irrefl _)
  have hidle : s.threadsAt s.mEndpoints.length = fun _ => .idle := by
    funext t
    unfold threadsAt
    split_ifs with ht
    · exact (hthreads t).resolve_right (ht ▸ Nat.lt_irrefl _)
    · rfl
  have hconns : restrictTo (fun _ => false) s.view = fun _ => {} := by
    funext d
    rfl
  simp only [slice, config, Config.restrict, World.restrict, howns, hidle, hconns,
    List.filter_false, Config.start, Site.start]

/-- The peer's certificate is no matter of the handlers. -/
theorem slice_setupContext {cert : Option TlsCertInfo} (h : s.setupContext c cert = some s')
    (j : ℕ) (site : Site) :
    s'.mEndpoints = s.mEndpoints ∧ s'.slice j site = s.slice j site := by
  unfold setupContext at h
  split at h
  · rename_i p hp
    obtain ⟨context, hcontext, rfl⟩ := Option.map_eq_some_iff.mp h
    refine ⟨rfl, slice_congr (fun _ => Iff.rfl) (fun d _ => ?_) rfl fun _ => rfl⟩
    simp only [view, contextOf]
    cases hd : (s.connections d).fnData with
    | null => rfl
    | endpoint k => rfl
    | context q =>
        by_cases hqp : q = p
        · subst hqp
          simp [hcontext]
        · simp [Function.update_of_ne hqp]
  · exact absurd h (by simp)
  · exact absurd h (by simp)

/-- A connection that is accepted is new to the part of its endpoint, and to no other. -/
theorem slice_accept (mg : Mongoose) (site : Site) (hw : Wired net s)
    (hunused : (s.connections c).status = .unused) (hwakeups : ∀ x ∈ s.wakeups, x.1 ≠ c)
    (l : ℕ) (rem : MgAddr) :
    (s.slice k site).step mg (.loop (.accept c)) =
      some (((s.connect l c rem).promoteContext net k c).slice k site) ∧
    ∀ j ≠ k, ∀ site', ((s.connect l c rem).promoteContext net k c).slice j site' =
      s.slice j site' := by
  have hnone := hw.unused c hunused
  have hself := connections_promote_self s k c net l rem
  have hother (d : ℕ) (hd : d ≠ c) := connections_promote_of_ne s k c d net l rem hd
  have hcontexts := contexts_promote s k c net l rem
  have hwakeups' : ((s.connect l c rem).promoteContext net k c).wakeups = s.wakeups := rfl
  have hthreads (j : ℕ) : ((s.connect l c rem).promoteContext net k c).threadsAt j =
      s.threadsAt j := rfl
  generalize (s.connect l c rem).promoteContext net k c = s' at *
  have hview (d : ℕ) (hd : d ≠ c) : s'.view d = s.view d := by
    simp only [view, contextOf, hother d hd, hcontexts]
    cases hdata : (s.connections d).fnData with
    | null => rfl
    | endpoint k => rfl
    | context p => simp [Function.update_of_ne (Nat.ne_of_lt (hw.bounded d p hdata))]
  have hviewSelf : s'.view c = { status := .live, fnData := some {} } := by
    simp [view, contextOf, hself, hcontexts]
  have howns (d : ℕ) (hd : d ≠ c) (j : ℕ) : s'.owns j d = s.owns j d := by
    simp only [owns, hother d hd]
  refine ⟨?_, fun j hj site' => ?_⟩
  · -- before it is accepted, the connection shows as unused in the part as well
    have hslice : s.slice k site = (s.config k site).restrict (s'.owns k) := by
      have hconns : restrictTo (s.owns k) s.view = restrictTo (s'.owns k) s.view := by
        funext d
        by_cases hd : d = c
        · rw [hd, restrictTo_of_not (owns_eq_false (by simp [hnone])), restrictTo_self
            (owns_iff.mpr (by simp [hself])), view_of_unused hnone]
        · simp only [restrictTo, howns d hd]
      have hfilter : (s.wakeups.filter fun x => s.owns k x.1) =
          s.wakeups.filter fun x => s'.owns k x.1 :=
        List.filter_congr fun x hx => by rw [howns x.1 (hwakeups x hx)]
      simp only [slice, config, Config.restrict, World.restrict, hconns, hfilter]
    have hstep : (s.config k site).step mg (.loop (.accept c)) = some (s'.config k site) := by
      have hloop : (s.config k site).world.loopStep mg (.accept c) =
          some ((s.config k site).world.accept c) := World.loopStep_eq_some.mpr ⟨hunused, rfl⟩
      have hconns : s'.view = ((s.config k site).world.accept c).connections := by
        funext d
        by_cases hd : d = c
        · rw [hd, hviewSelf]
          simp [World.accept, config, view_of_unused hnone]
        · rw [hview d hd]
          simp [World.accept, config, modifyAt_of_ne hd]
      have hconfig := config_ofConfig k
        { s.config k site with world := (s.config k site).world.accept c } hconns hwakeups'
        (hthreads k)
      simp only [Config.step, hloop, Option.map_some]
      exact congrArg some hconfig.symm
    rw [hslice]
    exact Config.restrict_loop (e := .accept c) (owns_iff.mpr (by simp [hself, LoopEvent.conn])) hstep
  · refine slice_congr (fun d => ?_) (fun d hd => ?_) (by rw [hwakeups']) fun t => by rw [hthreads]
    · by_cases hd : d = c
      · subst hd
        simp [hself, hnone, Ne.symm hj]
      · rw [hother d hd]
    · refine hview d ?_
      rintro rfl
      rw [hnone] at hd
      exact absurd hd (by simp)

/-- A worker takes a step in the part of the endpoint it works for, and in no other. -/
theorem slice_worker {e : Event} (henabled : s.Enabled (.worker k e))
    (hexec : s.exec net mg (.worker k e) = some s')
    (howned : ∀ site, s.mEndpoints[k]? = some site → Owned (s.slice k site)) :
    ∃ site cfg, s.mEndpoints[k]? = some site ∧
      s'.mEndpoints = s.mEndpoints.set k (Site.ofConfig cfg) ∧
      (s.slice k site).step mg e = some (s'.slice k (Site.ofConfig cfg)) ∧
      (∀ j ≠ k, ∀ site', s'.slice j site' = s.slice j site') ∧
      s'.connections = s.connections ∧
      (∀ x ∈ s'.wakeups, x ∈ s.wakeups ∨ (s.connections x.1).owner = some k) ∧
      ∀ t, (s'.threads t).site = k ∨ s'.threads t = s.threads t := by
  obtain ⟨site, hsite, cfg, hcfg, rfl⟩ := exec_worker hexec
  have he : ∀ e', e ≠ .loop e' := by
    rintro e' rfl
    exact henabled
  have hfree : ∀ t, e.thread = some t → s.Free k t := by
    intro t ht
    cases e <;> first | exact False.elim henabled | exact henabled t ht
  obtain ⟨hstep, posted, hposted, hown⟩ := Config.restrict_worker (howned site hsite) he hcfg
  obtain ⟨hconns, -⟩ := Config.step_of_worker hcfg he
  generalize hs' : ({ s with
    mEndpoints := s.mEndpoints.set k (Site.ofConfig cfg)
    wakeups := cfg.world.wakeups
    threads := fun t => if e.thread = some t then ⟨k, cfg.threads t⟩ else s.threads t } :
      ServerState) = s'
  have hview : s'.view = s.view := by rw [← hs']; rfl
  have howns (j : ℕ) : s'.owns j = s.owns j := by rw [← hs']; rfl
  have hwakeups : s'.wakeups = s.wakeups ++ posted := by rw [← hs']; exact hposted
  have hthread (t : ℕ) : s'.threads t =
      if e.thread = some t then ⟨k, cfg.threads t⟩ else s.threads t := by rw [← hs']
  refine ⟨site, cfg, hsite, by rw [← hs'], ?_, ?_, by rw [← hs'], ?_, ?_⟩
  · have hthreads : s'.threadsAt k = cfg.threads := by
      funext t
      by_cases ht : e.thread = some t
      · simp [threadsAt, hthread, ht]
      · simp only [threadsAt, hthread, if_neg ht]
        exact (Config.threads_step_of_ne hcfg ht).symm
    have hconfig : s'.config k (Site.ofConfig cfg) = cfg :=
      config_ofConfig k _ (hview.trans hconns.symm) (by rw [← hs']) hthreads
    rw [slice, slice, hconfig, howns]
    exact hstep
  · intro j hj site'
    refine slice_congr (fun d => by rw [← hs']) (fun d _ => by rw [hview]) ?_ ?_
    · rw [hwakeups, List.filter_append]
      have hnone : (posted.filter fun x => s.owns j x.1) = [] := by
        refine List.filter_eq_nil_iff.mpr fun x hx hxj => ?_
        exact hj (Option.some.inj ((owns_iff.mp hxj).symm.trans (owns_iff.mp (hown x hx))))
      rw [hnone, List.append_nil]
    · intro t
      by_cases ht : e.thread = some t
      · -- the thread was not working for the other endpoint, and is not now
        simp only [threadsAt, hthread, if_pos ht, if_neg (Ne.symm hj)]
        rcases hfree t ht with hsame | hidle
        · rw [if_neg (by rw [hsame]; exact Ne.symm hj)]
        · rw [hidle, ite_self]
      · simp only [threadsAt, hthread, if_neg ht]
  · intro x hx
    rw [hwakeups] at hx
    rcases List.mem_append.mp hx with hold | hnew
    · exact Or.inl hold
    · exact Or.inr (owns_iff.mp (hown x hnew))
  · intro t
    rw [hthread]
    split_ifs
    · exact Or.inl rfl
    · exact Or.inr rfl

end ServerState

end Mgxx
