import Mgxx.Concurrency.WorkerOwnership
import Mathlib.Tactic.Simps.Basic

/-!
One request at a time.  The view of a request is what the program's state says
about it on its own open connection: its entry in the two tables, its objects,
its wake-ups in flight, the threads at work on it, and what was written for it.
A step of the program leaves the view as it is or is one step of the view, so
that a property of one request is proved without the others.
-/

namespace Mgxx.Http

open Mgxx.Library

@[ext] structure View where
  /-- There is an entry in `m_pending_responses`. -/
  pending : Bool
  /-- The stream entered in `m_pending_streams`. -/
  table : Option StreamRef
  shared : Shared
  inFlight : ℕ
  /-- The threads at work on the request; the others count as idle. -/
  threads : ℕ → Pc
  outputs : List Output

namespace View

inductive Event
  | deliver
  | poll
  | release (blocked : Bool)
  | headers (h : Headers)
  | begin (t : ℕ) (call : Call)
  | wait (t : ℕ) (s : StreamRef)
  | put (t : ℕ) (s : StreamRef) (op : Put)
  | advance (t : ℕ) (answer : Bool)

def serve (v : View) (s : StreamRef) : View :=
  { v with
    table := if (v.shared.stream s.number).mState = .close then none else some s
    shared := v.shared.updateStream s.number AsyncStream.serve
    outputs := v.outputs ++
      (v.shared.stream s.number).serveOutput.map (Output.mk (.stream s)) }

def handOff (v : View) : View :=
  { v with
    pending := false
    table := v.shared.response.mStream
    shared := v.shared.updateResponse fun response => response.getStream.2 }

def reply (v : View) (r : ℕ) : View :=
  { v with
    pending := false
    shared := v.shared.updateResponse AsyncResponse.markCompleted
    outputs := v.outputs ++
      [⟨.response r, .reply v.shared.response.mPayload.code v.shared.response.mPayload.headers
        (.sized v.shared.response.mPayload.body.length v.shared.response.mPayload.body)⟩] }

def take (v : View) : View :=
  { v with
    inFlight := v.inFlight - 1
    shared := { v.shared with
      history := { v.shared.history with deliveries := v.shared.history.deliveries + 1 } } }

/-- What `handle_wakeup` does to the request it is for. -/
def wakeup (v : View) (r : ℕ) : View :=
  match v.table with
  | some s => v.serve s
  | none =>
      if v.pending then
        if v.shared.response.mState = .streaming then
          match v.shared.response.mStream with
          | some s => v.handOff.serve s
          | none => v
        else v.reply r
      else
        { v with outputs := v.outputs ++
            [⟨.notFound r, internalServerError⟩, ⟨.notFound r, internalServerError⟩] }

def deliver (v : View) (r : ℕ) : View := v.take.wakeup r

def poll (v : View) (r : ℕ) : View :=
  if v.pending ∧ v.shared.response.mState = .failed then
    { v with pending := false, outputs := v.outputs ++ [⟨.failed r, internalServerError⟩] }
  else v

def release (v : View) (blocked : Bool) : View :=
  match v.table with
  | none => v
  | some s => { v with shared := v.shared.updateStream s.number (AsyncStream.release blocked) }

def setHeaders (v : View) (headers : Headers) : View :=
  { v with shared := v.shared.updateResponse fun response => { response with mHeaders := headers } }

@[simps] def commit (v : View) (t : ℕ) (access : Access) : View :=
  { v with
    shared := access.shared
    inFlight := v.inFlight + access.posted.length
    threads := Function.update v.threads t access.pc }

def step (r : ℕ) (v : View) : Event → Option View
  | .deliver => if 0 < v.inFlight then some (v.deliver r) else none
  | .poll => some (v.poll r)
  | .release blocked => some (v.release blocked)
  | .headers h => some (v.setHeaders h)
  | .begin t call =>
      if v.threads t = .idle then some (v.commit t (v.shared.begin r call)) else none
  | .wait t s =>
      if v.threads t = .idle ∧ some s ∈ v.shared.history.returned then
        (v.shared.stream s.number).wait.map fun granted =>
          if granted then { v with threads := Function.update v.threads t (.granted s) } else v
      else none
  | .put t s op =>
      if (v.threads t = .idle ∨ v.threads t = .granted s) ∧
          some s ∈ v.shared.history.returned then
        some (v.commit t (v.shared.put s op))
      else none
  | .advance t answer => some (v.commit t (v.shared.advance answer (v.threads t)))

section Inversion

variable {v v' : View} {r t : ℕ} {s : StreamRef}

theorem step_deliver (hstep : v.step r .deliver = some v') :
    0 < v.inFlight ∧ v' = v.deliver r := by
  simp only [step, Option.ite_none_right_eq_some, Option.some.injEq] at hstep
  exact ⟨hstep.1, hstep.2.symm⟩

theorem deliver_of_table (htable : v.table = some s) : v.deliver r = v.take.serve s := by
  have htake : v.take.table = some s := htable
  simp only [deliver, wakeup, htake]

theorem deliver_of_held (hpending : v.pending = true) (htable : v.table = none)
    (hstate : v.shared.response.mState = .streaming)
    (hheld : v.shared.response.mStream = some s) :
    v.deliver r = v.take.handOff.serve s := by
  have htake : v.take.table = none ∧ v.take.pending = true ∧
      v.take.shared.response.mState = .streaming ∧ v.take.shared.response.mStream = some s :=
    ⟨htable, hpending, hstate, hheld⟩
  simp only [deliver, wakeup, htake.1, htake.2.1, htake.2.2.1, htake.2.2.2, if_true]

theorem step_begin {call : Call} (hstep : v.step r (.begin t call) = some v') :
    v.threads t = .idle ∧ v' = v.commit t (v.shared.begin r call) := by
  simp only [step, Option.ite_none_right_eq_some, Option.some.injEq] at hstep
  exact ⟨hstep.1, hstep.2.symm⟩

theorem step_wait (hstep : v.step r (.wait t s) = some v') :
    v.threads t = .idle ∧ some s ∈ v.shared.history.returned ∧
      ∃ granted, (v.shared.stream s.number).wait = some granted ∧
        v' = if granted then { v with threads := Function.update v.threads t (.granted s) }
          else v := by
  simp only [step, Option.ite_none_right_eq_some] at hstep
  obtain ⟨⟨hidle, hreturned⟩, hstep⟩ := hstep
  obtain ⟨granted, hwait, rfl⟩ := Option.map_eq_some_iff.mp hstep
  exact ⟨hidle, hreturned, granted, hwait, rfl⟩

theorem step_put {op : Put} (hstep : v.step r (.put t s op) = some v') :
    (v.threads t = .idle ∨ v.threads t = .granted s) ∧ some s ∈ v.shared.history.returned ∧
      v' = v.commit t (v.shared.put s op) := by
  simp only [step, Option.ite_none_right_eq_some, Option.some.injEq] at hstep
  exact ⟨hstep.1.1, hstep.1.2, hstep.2.symm⟩

end Inversion

end View

namespace Config

def conn (cfg : Config) (r : ℕ) : ℕ := (cfg.world.responses r).mConn

def view (cfg : Config) (r : ℕ) : View where
  pending := (cfg.world.mPendingResponses.find (cfg.conn r) r).isSome
  table := (cfg.world.mPendingStreams.find (cfg.conn r) r).join
  shared := cfg.shared r
  inFlight := cfg.world.wakeups.count (cfg.conn r, r)
  threads t := if (cfg.threads t).request = some r then cfg.threads t else .idle
  outputs := (cfg.world.connections (cfg.conn r)).log.filter fun o => o.source.request = some r

def IsOpen (cfg : Config) (r : ℕ) : Prop :=
  (cfg.world.connections (cfg.conn r)).status = .live

end Config

def Event.about (mg : Mongoose) (cfg : Config) (r : ℕ) : Event → Option View.Event
  | .loop (.wakeup _ id) => if id = r then some .deliver else none
  | .loop (.poll c) => if c = cfg.conn r then some .poll else none
  | .loop (.write c) => some (.release (cfg.world.blocked mg c))
  | .loop (.accept _) | .loop (.httpMessage _ _ _) | .loop (.close _)
  | .loop (.mongoose _ _) => none
  | .headers r' h => if r' = r then some (.headers h) else none
  | .begin t r' call => if r' = r then some (.begin t call) else none
  | .wait t s => if s.response = r then some (.wait t s) else none
  | .put t s op => if s.response = r then some (.put t s op) else none
  | .advance t answer =>
      if (cfg.threads t).request = some r then some (.advance t answer) else none

namespace Config

variable {mg : Mongoose} {cfg cfg' : Config} {r : ℕ}

/-! ### Handlers that leave the view of another request alone -/

variable (cfg r) in
theorem view_headers (r' : ℕ) (h : Headers) :
    ({ cfg with world := cfg.world.updateResponse r' fun response =>
      { response with mHeaders := h } } : Config).view r =
      if r' = r then (cfg.view r).setHeaders h else cfg.view r := by
  by_cases hr : r' = r
  · subst hr
    rw [if_pos rfl]
    ext1 <;> simp [view, View.setHeaders, conn, World.updateResponse, shared,
      Shared.updateResponse]
  · rw [if_neg hr]
    ext1 <;> simp [view, conn, World.updateResponse, shared, modifyAt_of_ne (Ne.symm hr)]

/-- New bytes, whatever they are, as long as they belong to no asynchronous request. -/
theorem view_reconnect {conns : ℕ → Connection}
    (hlog : ∃ out, (conns (cfg.conn r)).log = (cfg.world.connections (cfg.conn r)).log ++ out ∧
      ∀ o ∈ out, o.source.request = none) :
    ({ cfg with world := { cfg.world with connections := conns } } : Config).view r =
      cfg.view r := by
  obtain ⟨out, hout, hnone⟩ := hlog
  have hfilter : out.filter (fun o => o.source.request = some r) = [] := by
    rw [List.filter_eq_nil_iff]
    intro o ho
    simp [hnone o ho]
  have hconn : ({ cfg with world := { cfg.world with connections := conns } } : Config).conn r =
      cfg.conn r := rfl
  ext1 <;> simp only [view, hconn]
  · rfl
  · rw [hout, List.filter_append, hfilter, List.append_nil]

theorem view_addResponse (hr : r < cfg.world.mRequestCounter) (c : ℕ) :
    ({ cfg with world := cfg.world.addResponse c } : Config).view r = cfg.view r := by
  have hresponse : (cfg.world.addResponse c).responses r = cfg.world.responses r := by
    simp [World.addResponse, modifyAt_of_ne (Nat.ne_of_lt hr)]
  have hconn : ({ cfg with world := cfg.world.addResponse c } : Config).conn r = cfg.conn r :=
    congrArg AsyncResponse.mConn hresponse
  have hentry : (cfg.world.addResponse c).mPendingResponses.find (cfg.conn r) r =
      cfg.world.mPendingResponses.find (cfg.conn r) r := by
    rw [World.addResponse, NestedMap.find_set, if_neg fun h => Nat.ne_of_lt hr h.2]
  ext1 <;> simp only [view, hconn]
  · rw [hentry]
  · rfl
  · simp only [shared, hresponse]
    rfl
  · rfl
  · rfl

theorem view_httpMessage (hr : r < cfg.world.mRequestCounter) (c : ℕ) (msg : HttpMessage)
    (calls : List ResponseCall) :
    ({ cfg with world := cfg.world.handleHttpMessage mg c msg calls } : Config).view r =
      cfg.view r := by
  rcases World.handleHttpMessage_cases mg cfg.world c msg calls with hadd | ⟨conns, hconns, hacts⟩
  · rw [hadd, view_addResponse hr]
  · rw [hconns]
    apply view_reconnect
    by_cases hc : cfg.conn r = c
    · obtain ⟨out, hlog, hout⟩ := hacts.log
      exact ⟨out, hc ▸ hlog, fun o ho => by rw [hout o ho]; rfl⟩
    · exact ⟨[], by simp [hacts.others _ hc], by simp⟩

theorem view_close (howned : Owned cfg) {c : ℕ} (hc : cfg.conn r ≠ c) :
    ({ cfg with world := (cfg.world.handleClose c).forget c } : Config).view r = cfg.view r := by
  have hresponse : ((cfg.world.handleClose c).forget c).responses r = cfg.world.responses r := by
    change (cfg.world.handleClose c).responses r = _
    rw [World.responses_handleClose, if_neg]
    rw [World.mem_responsesOf]
    rintro ⟨id, hid⟩
    obtain ⟨rfl, -, hconn, -⟩ := howned.responseEntry c id r hid
    exact hc hconn
  have hstream (n : ℕ) : ((cfg.world.handleClose c).forget c).streams ⟨r, n⟩ =
      cfg.world.streams ⟨r, n⟩ := by
    change (cfg.world.handleClose c).streams ⟨r, n⟩ = _
    rw [World.streams_handleClose, if_neg]
    rw [World.mem_streamsOf]
    rintro ⟨id, hid⟩
    obtain ⟨⟨n', -, heq⟩, -, hconn, -⟩ := howned.streamEntry c id _ hid
    obtain ⟨rfl, -⟩ := StreamRef.mk.inj (Option.some.inj heq)
    exact hc hconn
  have hconn : ({ cfg with world := (cfg.world.handleClose c).forget c } : Config).conn r =
      cfg.conn r := congrArg AsyncResponse.mConn hresponse
  have hresponses := World.find_mPendingResponses_handleClose cfg.world c (cfg.conn r) r
  have hstreams := World.find_mPendingStreams_handleClose cfg.world c (cfg.conn r) r
  rw [if_neg hc] at hresponses hstreams
  ext1 <;> simp only [view, hconn]
  · exact congrArg Option.isSome hresponses
  · exact congrArg Option.join hstreams
  · simp only [shared, hresponse, hstream]
    exact congrArg (fun made => Shared.mk _ _ (made r) _) (World.made_handleClose cfg.world c)
  · exact congrArg (List.count _) (World.wakeups_handleClose cfg.world c)
  · simp [World.forget, modifyAt_of_ne hc]

/-! ### Polls -/

theorem filter_map_failed {ids : List ℕ} (hids : ids.Nodup) :
    (ids.map fun id => (⟨.failed id, internalServerError⟩ : Output)).filter
        (fun o => o.source.request = some r) =
      if r ∈ ids then [⟨.failed r, internalServerError⟩] else [] := by
  induction ids with
  | nil => simp
  | cons id ids ih =>
      obtain ⟨hnot, hids⟩ := List.nodup_cons.mp hids
      rw [List.map_cons, List.filter_cons, ih hids]
      by_cases hid : id = r
      · subst hid
        simp [Source.request, hnot]
      · simp [Source.request, hid, Ne.symm hid]

theorem mem_failedIds_iff (howned : Owned cfg) :
    r ∈ cfg.world.failedIds (cfg.conn r) ↔
      (cfg.view r).pending = true ∧ (cfg.view r).shared.response.mState = .failed := by
  rw [World.mem_failedIds]
  simp only [view, shared]
  constructor
  · rintro ⟨r', hentry, hfailed⟩
    obtain ⟨rfl, -⟩ := howned.responseEntry _ _ _ hentry
    exact ⟨by simp [hentry], hfailed⟩
  · rintro ⟨hpending, hfailed⟩
    obtain ⟨r', hentry⟩ := Option.isSome_iff_exists.mp hpending
    obtain ⟨rfl, -⟩ := howned.responseEntry _ _ _ hentry
    exact ⟨r', hentry, hfailed⟩

variable (mg r) in
theorem view_poll (howned : Owned cfg) (c : ℕ) :
    ({ cfg with world := cfg.world.handlePoll mg c } : Config).view r =
      if c = cfg.conn r then (cfg.view r).poll r else cfg.view r := by
  have hconn : ({ cfg with world := cfg.world.handlePoll mg c } : Config).conn r = cfg.conn r := by
    simp [conn]
  have hentry := World.find_mPendingResponses_handlePoll mg cfg.world c (cfg.conn r) r
  have hlog := World.log_handlePoll mg cfg.world c (cfg.conn r)
  have hshared : ({ cfg with world := cfg.world.handlePoll mg c } : Config).shared r =
      cfg.shared r := by simp [shared]
  split_ifs with hc
  · subst hc
    have hmem := mem_failedIds_iff (r := r) howned
    rw [if_pos rfl] at hlog
    unfold View.poll
    split_ifs with hfailed
    · rw [if_pos ⟨rfl, hmem.mpr hfailed⟩] at hentry
      ext1 <;> simp only [view, hconn, hentry, hshared, World.mPendingStreams_handlePoll,
        World.wakeups_handlePoll, hlog, List.filter_append]
      · rfl
      · rw [filter_map_failed (World.nodup_failedIds ..), if_pos (hmem.mpr hfailed)]
    · rw [if_neg fun h => hfailed (hmem.mp h.2)] at hentry
      ext1 <;> simp only [view, hconn, hentry, hshared, World.mPendingStreams_handlePoll,
        World.wakeups_handlePoll, hlog, List.filter_append]
      rw [filter_map_failed (World.nodup_failedIds ..), if_neg fun h => hfailed (hmem.mp h),
        List.append_nil]
  · rw [if_neg fun h => hc h.1.symm] at hentry
    rw [if_neg (Ne.symm hc), List.append_nil] at hlog
    ext1 <;> simp only [view, hconn, hentry, hshared, World.mPendingStreams_handlePoll,
      World.wakeups_handlePoll, hlog]

/-! ### Write events -/

theorem table_eq_some {s : StreamRef} :
    (cfg.view r).table = some s ↔
      cfg.world.mPendingStreams.find (cfg.conn r) r = some (some s) := by
  simp only [view, Option.join_eq_some_iff]

theorem table_response (howned : Owned cfg) {s : StreamRef} (hs : (cfg.view r).table = some s) :
    s.response = r := by
  obtain ⟨⟨n, -, hn⟩, -⟩ := howned.streamEntry _ _ _ (table_eq_some.mp hs)
  rw [Option.some.inj hn]

theorem mem_tableStreams_iff (howned : Owned cfg) (n : ℕ) :
    ⟨r, n⟩ ∈ cfg.world.tableStreams ↔ (cfg.view r).table = some ⟨r, n⟩ := by
  rw [World.mem_tableStreams, table_eq_some]
  constructor
  · rintro ⟨d, id, hs⟩
    obtain ⟨⟨n', -, heq⟩, -, hconn, -⟩ := howned.streamEntry d id _ hs
    obtain ⟨rfl, -⟩ := StreamRef.mk.inj (Option.some.inj heq)
    rw [conn, hconn, hs]
  · exact fun hs => ⟨_, _, hs⟩

theorem view_handleWrite (howned : Owned cfg) (c : ℕ) :
    ({ cfg with world := cfg.world.handleWrite mg c } : Config).view r =
      (cfg.view r).release (cfg.world.blocked mg c) := by
  have hconn : ({ cfg with world := cfg.world.handleWrite mg c } : Config).conn r =
      cfg.conn r := by simp [conn]
  have hstream (n : ℕ) : (cfg.world.handleWrite mg c).streams ⟨r, n⟩ =
      if (cfg.view r).table = some ⟨r, n⟩ then
        (cfg.world.streams ⟨r, n⟩).release (cfg.world.blocked mg c)
      else cfg.world.streams ⟨r, n⟩ := by
    rw [World.streams_handleWrite]
    simp only [mem_tableStreams_iff howned]
  obtain ⟨out, hlog, hout⟩ := World.log_handleWrite mg cfg.world c (cfg.conn r)
  have hfilter : out.filter (fun o => o.source.request = some r) = [] := by
    rw [List.filter_eq_nil_iff]
    intro o ho
    simp [hout o ho, Source.request]
  have hshared : ({ cfg with world := cfg.world.handleWrite mg c } : Config).shared r =
      ((cfg.view r).release (cfg.world.blocked mg c)).shared := by
    unfold View.release
    cases htable : (cfg.view r).table with
    | none =>
        simp only [htable, reduceCtorEq, if_false] at hstream
        simp only [shared, hstream, view, World.responses_handleWrite, World.made_handleWrite]
    | some s =>
        have hs := table_response howned htable
        subst hs
        have hupdate : (fun n => (cfg.world.handleWrite mg c).streams ⟨s.response, n⟩) =
            Function.update (fun n => cfg.world.streams ⟨s.response, n⟩) s.number
              ((cfg.world.streams s).release (cfg.world.blocked mg c)) := by
          funext n
          rw [hstream, htable, Function.update_apply]
          by_cases hn : n = s.number
          · subst hn
            simp
          · have hne : s ≠ ⟨s.response, n⟩ := fun heq => hn (congrArg StreamRef.number heq).symm
            simp [hne, hn]
        simp only [shared, hupdate, World.responses_handleWrite, World.made_handleWrite, view,
          Shared.updateStream]
  have hrest : (cfg.view r).release (cfg.world.blocked mg c) =
      { cfg.view r with shared := ((cfg.view r).release (cfg.world.blocked mg c)).shared } := by
    unfold View.release
    split <;> rfl
  rw [hrest, ← hshared]
  ext1 <;> simp only [view, hconn, World.toEndpoint_handleWrite, World.wakeups_handleWrite]
  rw [hlog, List.filter_append, hfilter, List.append_nil]

theorem view_write (howned : Owned cfg) (c : ℕ) :
    ({ cfg with world := (cfg.world.clearSent c).handleWrite mg c } : Config).view r =
      (cfg.view r).release (cfg.world.blocked mg c) := by
  have hclear : ({ cfg with world := cfg.world.clearSent c } : Config).view r = cfg.view r := by
    refine view_reconnect ⟨[], ?_, by simp⟩
    exact (World.log_clearSent cfg.world c (cfg.conn r)).trans (List.append_nil _).symm
  calc ({ cfg with world := (cfg.world.clearSent c).handleWrite mg c } : Config).view r
      = (({ cfg with world := cfg.world.clearSent c } : Config).view r).release
          ((cfg.world.clearSent c).blocked mg c) := view_handleWrite (howned.clearSent c) c
    _ = (cfg.view r).release (cfg.world.blocked mg c) := by rw [hclear, World.blocked_clearSent]

/-! ### Wake-ups -/

theorem view_take (howned : Owned cfg) {c id : ℕ} (hmem : (c, id) ∈ cfg.world.wakeups) :
    ({ cfg with world := cfg.world.take c id,
                history := record cfg.history (.wakeup c id) } : Config).view r =
      if id = r then (cfg.view r).take else cfg.view r := by
  obtain ⟨-, hconn⟩ := howned.wakeup c id hmem
  split_ifs with hid
  · subst hid
    ext1 <;> simp only [view, View.take, conn, World.take]
    · simp [shared, record]
    · rw [← hconn, List.count_erase_self]
  · have hne : (cfg.conn r, r) ≠ (c, id) := fun heq => hid (Prod.mk.inj heq).2.symm
    ext1 <;> simp only [view, conn, World.take]
    · simp [shared, record, modifyAt_of_ne (Ne.symm hid)]
    · exact List.count_erase_of_ne hne

theorem filter_serveOutput (s : StreamRef) (stream : AsyncStream) :
    (stream.serveOutput.map (Output.mk (.stream s))).filter
        (fun o => o.source.request = some r) =
      if s.response = r then stream.serveOutput.map (Output.mk (.stream s)) else [] := by
  split_ifs with hs
  · rw [List.filter_eq_self]
    intro o ho
    obtain ⟨_, -, rfl⟩ := List.mem_map.mp ho
    simp [Source.request, hs]
  · rw [List.filter_eq_nil_iff]
    intro o ho
    obtain ⟨_, -, rfl⟩ := List.mem_map.mp ho
    simp [Source.request, hs]

theorem view_serve (howned : Owned cfg) {c id : ℕ} {s : StreamRef}
    (hs : cfg.world.mPendingStreams.find c id = some (some s)) :
    ({ cfg with world := cfg.world.serveStream mg c id (some s) } : Config).view r =
      if id = r then (cfg.view r).serve s else cfg.view r := by
  obtain ⟨⟨n, -, hn⟩, -, hc, -⟩ := howned.streamEntry c id _ hs
  obtain rfl := Option.some.inj hn
  have hconn :
      ({ cfg with world := cfg.world.serveStream mg c id (some ⟨id, n⟩) } : Config).conn r =
        cfg.conn r := by simp [conn]
  have hentry := World.find_mPendingStreams_serveStream mg cfg.world c id ⟨id, n⟩ (cfg.conn r) r
  have hlog := World.log_serveStream mg cfg.world c (cfg.conn r) id ⟨id, n⟩
  have hstreams := World.streams_serveStream mg cfg.world c id ⟨id, n⟩
  have hshared : ({ cfg with world := cfg.world.serveStream mg c id (some ⟨id, n⟩) } :
      Config).shared r =
      if id = r then (cfg.shared r).updateStream n AsyncStream.serve else cfg.shared r := by
    split_ifs with hid
    · subst hid
      simp only [shared, hstreams, World.responses_serveStream, World.made_serveStream,
        Shared.updateStream, Shared.mk.injEq, true_and, and_true]
      funext m
      rw [modifyAt_apply, Function.update_apply]
      by_cases hm : m = n <;> simp [hm]
    · simp only [shared, hstreams, World.responses_serveStream, World.made_serveStream,
        Shared.mk.injEq, true_and, and_true]
      funext m
      exact modifyAt_of_ne (fun heq => hid (StreamRef.mk.inj heq).1.symm) ..
  split_ifs with hid
  · subst hid
    rw [if_pos rfl] at hshared
    have hc' : cfg.conn id = c := hc
    rw [hc'] at hentry hlog hconn
    rw [if_pos rfl] at hlog
    ext1 <;> simp only [view, View.serve, hconn, hshared, World.mPendingResponses_serveStream,
      World.wakeups_serveStream, hentry, hlog, hc']
    · simp only [shared]
      by_cases hclose : (cfg.world.streams ⟨id, n⟩).mState = .close <;> simp [hclose, hs]
    · rw [List.filter_append, filter_serveOutput, if_pos rfl]
      rfl
  · rw [if_neg hid] at hshared
    rw [if_neg fun h => hid h.2.2.symm] at hentry
    ext1 <;> simp only [view, hconn, hshared, World.mPendingResponses_serveStream,
      World.wakeups_serveStream, hentry, hlog]
    rw [List.filter_append]
    split_ifs
    · rw [filter_serveOutput, if_neg hid, List.append_nil]
    · exact List.append_nil _

theorem view_handOff (howned : Owned cfg) {c id : ℕ}
    (hentry : cfg.world.mPendingResponses.find c id = some id) :
    ({ cfg with world := cfg.world.handOff c id id } : Config).view r =
      if id = r then (cfg.view r).handOff else cfg.view r := by
  obtain ⟨-, -, hc, -⟩ := howned.responseEntry c id id hentry
  have hresponse := World.responses_handOff cfg.world c id id r
  have hresponses := World.find_mPendingResponses_handOff cfg.world c id id (cfg.conn r) r
  have hstreams := World.find_mPendingStreams_handOff cfg.world c id id (cfg.conn r) r
  split_ifs with hid
  · subst hid
    have hc' : cfg.conn id = c := hc
    have hconn : ({ cfg with world := cfg.world.handOff c id id } : Config).conn id = c := by
      simp [conn, hresponse, hc]
    rw [hc'] at hresponses hstreams
    ext1 <;> simp only [view, View.handOff, hconn, hresponses, hstreams, hc',
      World.wakeups_handOff, World.connections_handOff]
    · simp
    · simp [shared]
    · simp [shared, hresponse, Shared.updateResponse]
  · rw [if_neg (Ne.symm hid)] at hresponse
    rw [if_neg fun h => hid h.2.symm] at hresponses hstreams
    have hconn : ({ cfg with world := cfg.world.handOff c id id } : Config).conn r =
        cfg.conn r := by simp [conn, hresponse]
    ext1 <;> simp only [view, hconn, hresponses, hstreams, World.wakeups_handOff,
      World.connections_handOff]
    simp [shared, hresponse]

theorem view_reply (howned : Owned cfg) {c id : ℕ}
    (hentry : cfg.world.mPendingResponses.find c id = some id) :
    ({ cfg with world := cfg.world.reply mg c id id } : Config).view r =
      if id = r then (cfg.view r).reply r else cfg.view r := by
  obtain ⟨-, -, hc, -⟩ := howned.responseEntry c id id hentry
  have hresponse := World.responses_reply mg cfg.world c id id r
  have hresponses := World.find_mPendingResponses_reply mg cfg.world c id id (cfg.conn r) r
  have hlog := World.log_reply mg cfg.world c (cfg.conn r) id id
  split_ifs with hid
  · subst hid
    have hc' : cfg.conn id = c := hc
    have hconn : ({ cfg with world := cfg.world.reply mg c id id } : Config).conn id = c := by
      simp [conn, hresponse, AsyncResponse.markCompleted, hc]
    rw [hc'] at hresponses hlog
    ext1 <;> simp only [view, View.reply, hconn, hresponses, hlog, hc', World.wakeups_reply,
      World.mPendingStreams_reply]
    · simp
    · simp [shared, hresponse, Shared.updateResponse]
    · rw [List.filter_append]
      simp [World.replyOutput, Source.request, shared]
  · rw [if_neg (Ne.symm hid)] at hresponse
    rw [if_neg fun h => hid h.2.symm] at hresponses
    have hconn : ({ cfg with world := cfg.world.reply mg c id id } : Config).conn r =
        cfg.conn r := by simp [conn, hresponse]
    ext1 <;> simp only [view, hconn, hresponses, hlog, World.wakeups_reply,
      World.mPendingStreams_reply]
    · simp [shared, hresponse]
    · rw [List.filter_append]
      split_ifs <;> simp [World.replyOutput, Source.request, hid]

variable (mg r) in
theorem view_notFound {c id : ℕ} (hc : cfg.conn id = c) (o : Write) :
    ({ cfg with world := cfg.world.write mg c (.notFound id) o } : Config).view r =
      if id = r then { cfg.view r with outputs := (cfg.view r).outputs ++ [⟨.notFound r, o⟩] }
      else cfg.view r := by
  have hlog := World.log_write mg cfg.world c (cfg.conn r) (.notFound id) o
  have hconn : ({ cfg with world := cfg.world.write mg c (.notFound id) o } : Config).conn r =
      cfg.conn r := rfl
  split_ifs with hid
  · subst hid
    ext1 <;> simp only [view, hconn, hlog, World.toEndpoint_write, World.wakeups_write]
    · rfl
    · rw [List.filter_append, if_pos hc]
      simp [Source.request]
  · ext1 <;> simp only [view, hconn, hlog, World.toEndpoint_write, World.wakeups_write]
    · rfl
    · rw [List.filter_append]
      split_ifs <;> simp [Source.request, hid]

variable (mg r) in
theorem view_handleWakeup (howned : Owned cfg) {c id : ℕ}
    (hid : id < cfg.world.mRequestCounter) (hc : cfg.conn id = c) :
    ({ cfg with world := cfg.world.handleWakeup mg c id } : Config).view r =
      if id = r then (cfg.view r).wakeup r else cfg.view r := by
  cases hs : cfg.world.mPendingStreams.find c id with
  | some p =>
      obtain ⟨⟨n, -, rfl⟩, -⟩ := howned.streamEntry c id p hs
      rw [World.handleWakeup_of_stream hs, view_serve howned hs]
      split_ifs with heq
      · subst heq
        have htable : (cfg.view id).table = some ⟨id, n⟩ := table_eq_some.mpr (hc ▸ hs)
        simp only [View.wakeup, htable]
      · rfl
  | none =>
      have htable : (cfg.view id).table = none := by simp [view, hc, hs]
      cases hentry : cfg.world.mPendingResponses.find c id with
      | none =>
          have hpending : (cfg.view id).pending = false := by simp [view, hc, hentry]
          have hc' : (Config.mk (cfg.world.write mg c (.notFound id) internalServerError)
            cfg.threads cfg.history).conn id = c := hc
          have hfirst := view_notFound mg r hc internalServerError
          have hsecond := view_notFound mg r hc' internalServerError
          rw [World.handleWakeup_of_none hs hentry]
          refine hsecond.trans ?_
          rw [hfirst]
          split_ifs with heq
          · subst heq
            simp [View.wakeup, htable, hpending]
          · rfl
      | some r' =>
          obtain ⟨rfl, -⟩ := howned.responseEntry c id r' hentry
          have hpending : (cfg.view r').pending = true := by simp [view, hc, hentry]
          by_cases hstate : (cfg.world.responses r').mState = .streaming
          · obtain ⟨s, hheld⟩ := Option.ne_none_iff_exists'.mp
              (howned.streaming c r' (by simp [hentry]) hstate)
            have hnext : (cfg.world.handOff c r' r').mPendingStreams.find c r' = some (some s) := by
              simp [World.find_mPendingStreams_handOff, hheld]
            rw [World.handleWakeup_of_streaming hs hentry hstate, hheld]
            refine (view_serve (howned.handOff hentry hstate) hnext).trans ?_
            rw [view_handOff howned hentry]
            split_ifs with heq
            · subst heq
              have hstate' : (cfg.view r').shared.response.mState = .streaming := hstate
              have hheld' : (cfg.view r').shared.response.mStream = some s := hheld
              simp only [View.wakeup, htable, hpending, if_true, hstate', hheld']
            · rfl
          · rw [World.handleWakeup_of_response hs hentry hstate, view_reply howned hentry]
            split_ifs with heq
            · subst heq
              have hstate' : (cfg.view r').shared.response.mState ≠ .streaming := hstate
              simp only [View.wakeup, htable, hpending, if_true, hstate', if_false]
            · rfl

/-! ### Accesses -/

/-- An access that keeps to the request it is committed for. -/
structure Local (cfg : Config) (r : ℕ) (access : Access) : Prop where
  mConn : access.shared.response.mConn = cfg.conn r
  request : ∀ r', access.pc.request = some r' → r' = r
  posted : ∀ x ∈ access.posted, x = (cfg.conn r, r)

theorem local_of_mild {access : Access} (h : Owned.Mild cfg r access) : Local cfg r access :=
  ⟨h.mConn, h.request, h.posted⟩

theorem local_advance (howned : Owned cfg) {t : ℕ} (hr : (cfg.threads t).request = some r)
    (answer : Bool) : Local cfg r ((cfg.shared r).advance answer (cfg.threads t)) := by
  by_cases hopen : ∃ code encoding,
      cfg.threads t = .streamChecked r code encoding ∧ answer = true
  · obtain ⟨code, encoding, hpc, rfl⟩ := hopen
    rw [hpc]
    refine ⟨rfl, fun r' hr' => (Option.some.inj hr').symm, ?_⟩
    simp [Shared.advance]
  · refine local_of_mild (howned.mild_advance hr answer fun code encoding hpc => ?_)
    cases answer with
    | false => rfl
    | true => exact absurd ⟨code, encoding, hpc, rfl⟩ hopen

theorem Pc.eq_idle_of_request {pc : Pc} (h : pc.request = none) : pc = .idle := by
  cases pc <;> simp [Pc.request] at h ⊢

variable (cfg r) in
theorem shared_commit (t r' : ℕ) (access : Access) :
    (cfg.commit t r' access).shared r = if r = r' then access.shared else cfg.shared r := by
  simp only [shared, responses_commit, streams_commit, made_commit, history_commit]
  split_ifs <;> rfl

theorem view_commit {t r' : ℕ} {access : Access} (ha : Local cfg r' access)
    (hbefore : ∀ r'', (cfg.threads t).request = some r'' → r'' = r') :
    (cfg.commit t r' access).view r =
      if r' = r then (cfg.view r).commit t access else cfg.view r := by
  have hshared := shared_commit cfg r t r' access
  split_ifs with hr
  · subst hr
    rw [if_pos rfl] at hshared
    have hconn : (cfg.commit t r' access).conn r' = cfg.conn r' :=
      (congrArg (fun q => q.response.mConn) hshared).trans ha.mConn
    ext1 <;> simp only [view, View.commit, hconn, hshared, toEndpoint_commit,
      connections_commit, wakeups_commit]
    · rw [List.count_append, List.count_eq_length.mpr fun x hx => (ha.posted x hx).symm]
    · funext t'
      rw [threads_commit, Function.update_apply]
      by_cases ht : t' = t
      · rw [if_pos ht, if_pos ht, ite_eq_left_iff]
        intro hne
        refine (Pc.eq_idle_of_request ?_).symm
        by_contra hsome
        obtain ⟨r'', hr''⟩ := Option.ne_none_iff_exists'.mp hsome
        exact hne (ha.request r'' hr'' ▸ hr'')
      · rw [if_neg ht, if_neg ht]
  · rw [if_neg (Ne.symm hr)] at hshared
    have hconn : (cfg.commit t r' access).conn r = cfg.conn r :=
      congrArg (fun q => q.response.mConn) hshared
    have hcount : access.posted.count (cfg.conn r, r) = 0 := by
      rw [List.count_eq_zero]
      exact fun hmem => hr (Prod.mk.inj (ha.posted _ hmem)).2.symm
    ext1 <;> simp only [view, hconn, hshared, toEndpoint_commit, connections_commit,
      wakeups_commit]
    · rw [List.count_append, hcount, Nat.add_zero]
    · funext t'
      rw [threads_commit]
      split_ifs with ht h₁ h₂ h₂
      · exact absurd (ha.request r h₁).symm hr
      · exact absurd (ha.request r h₁).symm hr
      · exact absurd (hbefore r (ht ▸ h₂)).symm hr
      all_goals rfl

theorem view_waited {t : ℕ} {s : StreamRef} (hidle : cfg.threads t = .idle) (granted : Bool) :
    Config.view (if granted then
        { cfg with threads := Function.update cfg.threads t (.granted s) } else cfg) r =
      if s.response = r then
        if granted then
          { cfg.view r with threads := Function.update (cfg.view r).threads t (.granted s) }
        else cfg.view r
      else cfg.view r := by
  cases granted with
  | false => simp
  | true =>
      simp only [if_true]
      split_ifs with hs
      · ext1 <;> try rfl
        funext t'
        simp only [view, Function.update_apply]
        split_ifs with ht h h
        · rfl
        · exact absurd (congrArg some hs) h
        · rfl
        · rfl
      · ext1 <;> try rfl
        funext t'
        simp only [view, Function.update_apply]
        by_cases ht : t' = t
        · simp only [if_pos ht]
          have hs' : (Pc.granted s).request ≠ some r := fun h => hs (Option.some.inj h)
          rw [if_neg hs', ht, hidle]
          rfl
        · simp only [if_neg ht]

/-! ### Every step -/

/-- An event that is about the request under one condition. -/
theorem step_of_view {p : Prop} [Decidable p] {ve : View.Event} {v' : View}
    (hview : cfg'.view r = if p then v' else cfg.view r)
    (hstep : p → (cfg.view r).step r ve = some v') :
    match (if p then some ve else none) with
    | none => cfg'.view r = cfg.view r
    | some ve => (cfg.view r).step r ve = some (cfg'.view r) := by
  split_ifs at hview ⊢ with hp
  · rw [hview]
    exact hstep hp
  · exact hview

variable (mg) in
/-- A step of the program is, for each request whose connection it leaves open,
a step of the view, or it leaves the view as it is. -/
theorem view_step (howned : Owned cfg) (hr : r < cfg.world.mRequestCounter) {e : Event}
    (hstep : cfg.step mg e = some cfg') (hopen : cfg'.IsOpen r) :
    match e.about mg cfg r with
    | none => cfg'.view r = cfg.view r
    | some ve => (cfg.view r).step r ve = some (cfg'.view r) := by
  cases e with
  | loop e =>
      obtain ⟨hraises, rfl⟩ := step_loop hstep
      cases e with
      | accept c =>
          simp only [Event.about]
          apply view_reconnect
          refine ⟨[], ?_, by simp⟩
          by_cases hc : cfg.conn r = c <;> simp [hc, modifyAt_of_ne]
      | poll c => exact step_of_view (view_poll mg r howned c) fun _ => rfl
      | httpMessage c msg calls => exact view_httpMessage hr c msg calls
      | wakeup c id =>
          obtain ⟨hid, hc⟩ := howned.wakeup c id hraises.2
          have htake := view_take (r := r) howned hraises.2
          have howned' : Owned (Config.mk (cfg.world.take c id) cfg.threads
              (record cfg.history (.wakeup c id))) := howned.take hraises.2
          have hwakeup := view_handleWakeup mg r howned' hid hc
          refine step_of_view (hwakeup.trans
            (c := if id = r then (cfg.view r).deliver r else cfg.view r) ?_) fun heq => ?_
          · rw [htake]
            split_ifs <;> rfl
          · have hflight : 0 < (cfg.view r).inFlight := by
              rw [← heq]
              refine List.count_pos_iff.mpr ?_
              rw [conn, hc]
              exact hraises.2
            simp only [View.step, hflight, if_true]
      | write c => exact congrArg some (view_write howned c).symm
      | close c =>
          -- the connection of the request is another one, since it is open afterwards
          refine view_close howned fun hc => ?_
          have hstatus := World.status_forget (cfg.world.handleClose c) c
            ((cfg.world.handleClose c).responses r).mConn
          have hc' : (cfg.world.responses r).mConn = c := hc
          rw [World.mConn_handleClose, if_pos hc'] at hstatus
          simp only [IsOpen, conn, World.handle, World.forget, World.mConn_handleClose] at hopen
          exact absurd (hstatus.symm.trans hopen) (by simp)
      | mongoose c send =>
          simp only [Event.about]
          apply view_reconnect
          refine ⟨[], ?_, by simp⟩
          by_cases hc : cfg.conn r = c <;> simp [hc, modifyAt_of_ne]
  | headers r' h =>
      obtain rfl := step_headers hstep
      exact step_of_view (view_headers cfg r r' h) fun _ => rfl
  | begin t r' call =>
      obtain ⟨hidle, -, rfl⟩ := step_begin hstep
      have hbefore : ∀ r'', (cfg.threads t).request = some r'' → r'' = r' := by
        simp [hidle, Pc.request]
      refine step_of_view (view_commit (local_of_mild (Owned.mild_begin r' call)) hbefore) ?_
      rintro rfl
      exact if_pos (by simp [view, hidle])
  | wait t s =>
      obtain ⟨hidle, hreturned, granted, hwait, rfl⟩ := step_wait hstep
      refine step_of_view (view_waited hidle granted) ?_
      rintro rfl
      have hidle' : (cfg.view s.response).threads t = .idle := by simp [view, hidle]
      have hwait' : ((cfg.view s.response).shared.stream s.number).wait = some granted := hwait
      simp only [View.step, hidle', true_and, hwait', Option.map_some]
      exact if_pos hreturned
  | put t s op =>
      obtain ⟨hpc, hreturned, rfl⟩ := step_put hstep
      have hbefore : ∀ r'', (cfg.threads t).request = some r'' → r'' = s.response := by
        rcases hpc with hpc | hpc <;> simp [hpc, Pc.request]
      refine step_of_view (view_commit (local_of_mild
        (Owned.mild_put (howned.returned s.response s hreturned).2 op)) hbefore) ?_
      rintro rfl
      have hpc' : (cfg.view s.response).threads t = .idle ∨
          (cfg.view s.response).threads t = .granted s := by
        rcases hpc with hpc | hpc
        · simp [view, hpc]
        · right
          simp [view, hpc, Pc.request]
      exact if_pos ⟨hpc', hreturned⟩
  | advance t answer =>
      rcases step_advance hstep with ⟨hreq, rfl⟩ | ⟨r', hreq, rfl⟩
      · simp [Event.about, hreq]
      · have hbefore : ∀ r'', (cfg.threads t).request = some r'' → r'' = r' := fun r'' h =>
          (Option.some.inj (hreq.symm.trans h)).symm
        simp only [Event.about, hreq, Option.some.injEq]
        refine step_of_view (view_commit (local_advance howned hreq answer) hbefore) ?_
        rintro rfl
        have hpc : (cfg.view r').threads t = cfg.threads t := by simp [view, hreq]
        simp only [View.step, hpc]
        rfl

end Config

end Mgxx.Http
