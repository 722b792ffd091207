import Mgxx.Properties.Tables
import Mgxx.Properties.Wakeups

/-!
Connections answer one message at a time.
-/

namespace Mgxx.Http

open Mgxx.Library

/-- The writes with which an answer ends: a reply, a chunk of length zero, and a
file that mongoose serves. -/
def Write.isFinal : Write → Bool
  | reply .. | serve _ => true
  | chunk data => data.isEmpty
  | send _ => false

def Connection.producer (conn : Connection) : Option StreamProducer :=
  conn.fnData.bind RemoteContext.mStream

def World.outstanding (w : World) (c : ℕ) : ℕ :=
  w.mPendingResponses.size c + w.mPendingStreams.size c +
    if (w.connections c).producer.isSome then 1 else 0

/-! ### What the handler of a message starts -/

namespace Response

variable {mg : Mongoose} {c : ℕ} {conns : ℕ → Connection} {res : Response}

/-- Without its connection, a response does nothing. -/
theorem calls_of_none (h : res.mConn = none) (cs : List ResponseCall) :
    (res.calls mg conns cs).1 = conns ∧ (res.calls mg conns cs).2.mConn = none := by
  induction cs generalizing res with
  | nil => exact ⟨rfl, h⟩
  | cons call cs ih =>
      have hcall : (res.call mg conns call).1 = conns ∧
          (res.call mg conns call).2.mConn = none := by
        cases call <;> simp [Response.call, Response.send, Response.stream, h]
      rw [calls, hcall.1]
      exact ih hcall.2

/-- As long as a response has its connection, it has not touched it. -/
theorem calls_of_mConn (h : res.mConn = some c) {cs : List ResponseCall}
    (h' : (res.calls mg conns cs).2.mConn = some c) : (res.calls mg conns cs).1 = conns := by
  induction cs generalizing res with
  | nil => rfl
  | cons call cs ih =>
      cases call with
      | setHeader name value =>
          refine ih ?_ h'
          exact h
      | removeHeader name =>
          refine ih ?_ h'
          exact h
      | clearHeaders =>
          refine ih ?_ h'
          exact h
      | send code body =>
          -- an answer takes the connection away from the response for good
          have hnone : (res.call mg conns (.send code body)).2.mConn = none := by
            simp [Response.call, Response.send, h]
          exact absurd ((calls_of_none hnone cs).2.symm.trans h') (by simp)
      | stream code encoding results =>
          have hnone : (res.call mg conns (.stream code encoding results)).2.mConn = none := by
            simp [Response.call, Response.stream, h]
          exact absurd ((calls_of_none hnone cs).2.symm.trans h') (by simp)

/-- What a handler leaves on its connection: nothing, one answer, or the
beginning of an answer and its producer, which yields what `results` allows. -/
structure Starts (results : (ℕ → Option Bytes) → Prop) (conn conn' : Connection) : Prop where
  log : ∃ out, conn'.log = conn.log ++ out ∧ (∀ o ∈ out, o.source = .handler) ∧
    ∀ p, conn'.producer = some p → results p.results ∧ ∀ o ∈ out, o.write.isFinal = false

variable {results : (ℕ → Option Bytes) → Prop}

/-- One answer, where nobody else is answering. -/
theorem starts_write {conn : Connection} (hnone : conn.producer = none) (o : Write) :
    Starts results conn (conn.write mg .handler o) := by
  refine ⟨[⟨.handler, o⟩], rfl, by simp, ?_⟩
  intro p hp
  exact absurd (hnone.symm.trans hp) (by simp)

theorem starts_calls (hnone : (conns c).producer = none) (hres : res.mConn = some c)
    {cs : List ResponseCall}
    (hcs : ∀ code encoding f, ResponseCall.stream code encoding f ∈ cs → results f) :
    Starts results (conns c) ((res.calls mg conns cs).1 c) := by
  induction cs generalizing res with
  | nil =>
      refine ⟨[], (List.append_nil _).symm, by simp, ?_⟩
      intro p hp
      exact absurd (hnone.symm.trans hp) (by simp)
  | cons call cs ih =>
      have hrest : ∀ code encoding f, ResponseCall.stream code encoding f ∈ cs → results f :=
        fun code encoding f hmem => hcs code encoding f (List.mem_cons_of_mem call hmem)
      cases call with
      | setHeader name value => exact ih (by exact hres) hrest
      | removeHeader name => exact ih (by exact hres) hrest
      | clearHeaders => exact ih (by exact hres) hrest
      | send code body =>
          -- the answer is complete, and what follows does nothing
          simp only [calls, Response.call, Response.send, hres]
          rw [(calls_of_none rfl cs).1, modifyAt_self]
          exact starts_write hnone _
      | stream code encoding f =>
          have hf : results f := hcs code encoding f (by simp)
          simp only [calls, Response.call, Response.stream, hres]
          rw [(calls_of_none rfl cs).1, modifyAt_self]
          refine ⟨[⟨.handler, .send _⟩], rfl, by simp, ?_⟩
          intro p hp
          cases hcontext : (conns c).fnData with
          | none => simp [Connection.producer, Connection.setStream, hcontext] at hp
          | some context =>
              simp only [Connection.producer, Connection.setStream, Connection.fnData_write,
                hcontext, Option.map_some, Option.bind_some, Option.some.injEq] at hp
              subst hp
              exact ⟨hf, by simp [Write.isFinal]⟩

end Response

/-- What a message brings to an open connection without a producer: a request
for the workers, or what a synchronous answer starts with. -/
theorem World.handleHttpMessage_starts {mg : Mongoose} {w : World} {c : ℕ}
    {results : (ℕ → Option Bytes) → Prop} (hnone : (w.connections c).producer = none)
    (msg : HttpMessage) {calls : List ResponseCall}
    (hcalls : ∀ code encoding f, ResponseCall.stream code encoding f ∈ calls → results f) :
    w.handleHttpMessage mg c msg calls = w.addResponse c ∨
      ∃ conns, w.handleHttpMessage mg c msg calls = { w with connections := conns } ∧
        Response.Starts results (w.connections c) (conns c) := by
  have hwrite (o : Write) : ∃ conns, w.write mg c .handler o = { w with connections := conns } ∧
      Response.Starts results (w.connections c) (conns c) :=
    ⟨_, rfl, by rw [modifyAt_self]; exact Response.starts_write hnone o⟩
  have hinvoke (listener : Listener) : w.invoke mg c listener calls = w.addResponse c ∨
      ∃ conns, w.invoke mg c listener calls = { w with connections := conns } ∧
        Response.Starts results (w.connections c) (conns c) := by
    unfold World.invoke
    split
    · exact Or.inl rfl
    · exact Or.inr ⟨_, rfl, Response.starts_calls hnone rfl hcalls⟩
  unfold World.handleHttpMessage
  cases World.dispatch mg w.toEndpoint msg with
  | listener path listener groups => exact hinvoke listener
  | asset path asset => exact Or.inr (hwrite _)
  | fallback listener => exact hinvoke listener
  | notFound => exact Or.inr (hwrite _)

/-! ### What the other events continue -/

/-- The work outstanding on connection `c` gets no more, and what is written
there belongs to it.  Where the producer yields no empty chunk, the last thing
it writes is the final one. -/
structure World.Continues (w w' : World) (c : ℕ) : Prop where
  occurs : ∀ id, w'.Occurs c id → w.Occurs c id
  producer : ∀ p', (w'.connections c).producer = some p' →
    ∃ p, (w.connections c).producer = some p ∧ p'.results = p.results
  log : ∃ out, (w'.connections c).log = (w.connections c).log ++ out ∧ ∀ o ∈ out,
    (∃ id, o.source.request = some id ∧ w.Occurs c id) ∨
      o.source = .producer ∧ ∃ p, (w.connections c).producer = some p ∧
        (o.write.isFinal = true → (∀ i, p.results i ≠ some []) →
          (w'.connections c).producer = none)

namespace World

variable {mg : Mongoose} {w w' : World} {c id : ℕ}

/-- Nothing changes on the connection. -/
theorem continues_of_eq (hconn : w'.connections c = w.connections c)
    (hoccurs : ∀ id, w'.Occurs c id → w.Occurs c id) : w.Continues w' c where
  occurs := hoccurs
  producer p' hp' := ⟨p', hconn ▸ hp', rfl⟩
  log := ⟨[], by rw [hconn, List.append_nil], by simp⟩

/-- Something is written for a request that is outstanding. -/
theorem continues_of_log {out : List Output}
    (hfnData : (w'.connections c).fnData = (w.connections c).fnData)
    (hlog : (w'.connections c).log = (w.connections c).log ++ out)
    (hout : ∀ o ∈ out, ∃ id, o.source.request = some id ∧ w.Occurs c id)
    (hoccurs : ∀ id, w'.Occurs c id → w.Occurs c id) : w.Continues w' c where
  occurs := hoccurs
  producer p' hp' := by
    rw [Connection.producer, hfnData] at hp'
    exact ⟨p', hp', rfl⟩
  log := ⟨out, hlog, fun o ho => Or.inl (hout o ho)⟩

theorem occurs_serveStream {stream : Option StreamRef} {c' id' : ℕ}
    (h : (w.serveStream mg c id stream).Occurs c' id') : w.Occurs c' id' := by
  rcases h with h | h
  · rw [mPendingResponses_serveStream] at h
    exact Or.inl h
  · cases stream with
    | none => exact Or.inr h
    | some s =>
        rw [find_mPendingStreams_serveStream] at h
        exact Or.inr (ite_ne_left_iff.mp h).2.symm

theorem occurs_handOff {r c' id' : ℕ} (hentry : w.mPendingResponses.find c id ≠ none)
    (h : (w.handOff c id r).Occurs c' id') : w.Occurs c' id' := by
  rcases h with h | h
  · rw [find_mPendingResponses_handOff] at h
    exact Or.inl (ite_ne_left_iff.mp h).2.symm
  · rw [find_mPendingStreams_handOff] at h
    split_ifs at h with hkey
    · exact Or.inl (by rwa [hkey.1, hkey.2])
    · exact Or.inr h

theorem occurs_handleWakeup {c' id' : ℕ} (h : (w.handleWakeup mg c id).Occurs c' id') :
    w.Occurs c' id' := by
  revert h
  refine handleWakeup_elim (P := fun w' => w'.Occurs c' id' → w.Occurs c' id') ?_ ?_ ?_ ?_
  · exact fun stream _ => occurs_serveStream
  · intro r _ hr _ h
    exact occurs_handOff (by simp [hr]) (occurs_serveStream h)
  · intro r _ _ _ h
    rcases h with h | h
    · rw [find_mPendingResponses_reply] at h
      exact Or.inl (ite_ne_left_iff.mp h).2.symm
    · exact Or.inr h
  · exact fun _ _ h => h

theorem occurs_handlePoll {c' id' : ℕ} (h : (w.handlePoll mg c).Occurs c' id') :
    w.Occurs c' id' := by
  rcases h with h | h
  · rw [find_mPendingResponses_handlePoll] at h
    exact Or.inl (ite_ne_left_iff.mp h).2.symm
  · rw [mPendingStreams_handlePoll] at h
    exact Or.inr h

theorem occurs_handleClose {c' id' : ℕ} (h : (w.handleClose c).Occurs c' id') :
    w.Occurs c' id' := by
  rcases h with h | h
  · rw [find_mPendingResponses_handleClose] at h
    exact Or.inl (ite_ne_left_iff.mp h).2.symm
  · rw [find_mPendingStreams_handleClose] at h
    exact Or.inr (ite_ne_left_iff.mp h).2.symm

/-- Only a message makes a new entry, on its own connection. -/
theorem occurs_handle {e : LoopEvent} (he : ∀ msg calls, e ≠ .httpMessage c msg calls)
    (h : (w.handle mg e).Occurs c id) : w.Occurs c id := by
  cases e with
  | accept c' => exact h
  | mongoose c' send => exact h
  | poll c' => exact occurs_handlePoll h
  | wakeup c' id' => exact occurs_handleWakeup (w := w.take c' id') h
  | close c' => exact occurs_handleClose h
  | write c' =>
      have hsame : (w.handle mg (.write c')).toEndpoint = w.toEndpoint := toEndpoint_handleWrite ..
      rwa [hsame] at h
  | httpMessage c' msg calls =>
      have hc : c ≠ c' := fun hc => he msg calls (hc ▸ rfl)
      rcases handleHttpMessage_cases mg w c' msg calls with hadd | ⟨conns, hconns, -⟩
      · rw [handle, hadd] at h
        rcases h with h | h
        · rw [addResponse, NestedMap.find_set, if_neg fun hkey => hc hkey.1] at h
          exact Or.inl h
        · exact Or.inr h
      · rw [handle, hconns] at h
        exact h

variable (mg w c id) in
theorem continues_serveStream (s : StreamRef) (hs : s.response = id) (hoccurs : w.Occurs c id) :
    w.Continues (w.serveStream mg c id (some s)) c := by
  refine continues_of_log (fnData_serveStream ..) (by rw [log_serveStream, if_pos rfl]) ?_
    fun _ => occurs_serveStream
  intro o ho
  obtain ⟨write, -, rfl⟩ := List.mem_map.mp ho
  exact ⟨id, congrArg some hs, hoccurs⟩

/-- A write event pumps the producer of its connection. -/
theorem continues_handleWrite : w.Continues (w.handleWrite mg c) c := by
  have hendpoint : (w.handleWrite mg c).toEndpoint = w.toEndpoint := toEndpoint_handleWrite ..
  have hoccurs : ∀ id, (w.handleWrite mg c).Occurs c id → w.Occurs c id := by
    intro id h
    rwa [hendpoint] at h
  have hconn : (w.handleWrite mg c).connections c = (w.connections c).pumpStream mg := by
    rw [connections_handleWrite, modifyAt_self]
  cases hp : (w.connections c).producer with
  | none =>
      refine continues_of_eq ?_ hoccurs
      rw [hconn, Connection.pumpStream]
      simp only [Connection.producer] at hp
      rw [hp]
  | some p =>
      have hbind : (w.connections c).fnData.bind RemoteContext.mStream = some p := hp
      -- the callback is asked only when there is room in the send buffer
      by_cases hfull : mg.ioSize ≤ (w.connections c).send.length
      · refine continues_of_eq ?_ hoccurs
        simp only [hconn, Connection.pumpStream, hbind, if_pos hfull]
      · obtain ⟨context, hcontext, -⟩ := Option.bind_eq_some_iff.mp hbind
        cases hresult : p.results p.calls with
        | none =>
            have hconn : (w.handleWrite mg c).connections c =
                { (w.connections c).write mg .producer (.chunk []) with
                  fnData := some { mStream := none } } := by
              simp only [hconn, Connection.pumpStream, hbind, if_neg hfull, StreamProducer.get,
                hresult]
            refine ⟨hoccurs, ?_, [⟨.producer, .chunk []⟩], by rw [hconn]; rfl, ?_⟩
            · intro p' hp'
              rw [hconn] at hp'
              exact absurd hp' (by simp [Connection.producer])
            · intro o ho
              obtain rfl := List.mem_singleton.mp ho
              exact Or.inr ⟨rfl, p, hp, fun _ _ => by rw [hconn]; rfl⟩
        | some chunk =>
            have hconn : (w.handleWrite mg c).connections c =
                ((w.connections c).write mg .producer (.chunk chunk)).setStream
                  { p with calls := p.calls + 1 } := by
              simp only [hconn, Connection.pumpStream, hbind, if_neg hfull, StreamProducer.get,
                hresult]
            refine ⟨hoccurs, ?_, [⟨.producer, .chunk chunk⟩], by rw [hconn]; rfl, ?_⟩
            · intro p' hp'
              simp only [hconn, Connection.producer, Connection.setStream,
                Connection.fnData_write, hcontext, Option.map_some, Option.bind_some,
                Option.some.injEq] at hp'
              exact ⟨p, hp, hp' ▸ rfl⟩
            · intro o ho
              obtain rfl := List.mem_singleton.mp ho
              refine Or.inr ⟨rfl, p, hp, fun hfinal hresults => ?_⟩
              have hnil : chunk = [] := List.isEmpty_iff.mp hfinal
              exact absurd (hnil ▸ hresult) (hresults p.calls)

/-- Whether a write event is due does not matter to this. -/
theorem Continues.of_clearSent (h : (w.clearSent c).Continues w' c) : w.Continues w' c := by
  have hsame : ((w.clearSent c).connections c).producer = (w.connections c).producer :=
    field_clearSent w c c fun _ => rfl
  obtain ⟨hoccurs, hproducer, hlog⟩ := h
  rw [hsame] at hproducer hlog
  rw [log_clearSent] at hlog
  exact ⟨hoccurs, hproducer, hlog⟩

/-- A wake-up for an entry continues what the entry stands for. -/
theorem continues_handleWakeup {cfg : Config} (howned : Owned cfg)
    (hentry : cfg.world.Occurs c id) : cfg.world.Continues (cfg.world.handleWakeup mg c id) c := by
  refine handleWakeup_elim (P := fun w' => cfg.world.Continues w' c) ?_ ?_ ?_ ?_
  · intro stream hstream
    obtain ⟨⟨n, -, rfl⟩, -⟩ := howned.streamEntry c id stream hstream
    exact continues_serveStream mg cfg.world c id ⟨id, n⟩ rfl hentry
  · intro r hnone hr hstate
    obtain ⟨rfl, hlt, -⟩ := howned.responseEntry c id r hr
    obtain ⟨s, hs⟩ := Option.ne_none_iff_exists'.mp
      (howned.streaming c r (by simp [hr]) hstate)
    obtain ⟨hresponse, -⟩ := howned.held r s hlt hs
    rw [hs]
    refine continues_of_log (fnData_serveStream ..)
      (by rw [log_serveStream, if_pos rfl, connections_handOff]) ?_
      fun _ h => occurs_handOff (by simp [hr]) (occurs_serveStream h)
    intro o ho
    obtain ⟨write, -, rfl⟩ := List.mem_map.mp ho
    exact ⟨r, congrArg some hresponse, hentry⟩
  · intro r hnone hr hstate
    obtain ⟨rfl, -⟩ := howned.responseEntry c id r hr
    have hreply : cfg.world.handleWakeup mg c r = cfg.world.reply mg c r r :=
      handleWakeup_of_response hnone hr hstate
    refine continues_of_log (fnData_reply ..) (by rw [log_reply, if_pos rfl]) ?_ ?_
    · intro o ho
      obtain rfl := List.mem_singleton.mp ho
      exact ⟨r, rfl, hentry⟩
    · rw [← hreply]
      exact fun _ => occurs_handleWakeup
  · intro hstream hresponse
    exact absurd hentry (by simp [Endpoint.Occurs, hstream, hresponse])

theorem continues_handlePoll : w.Continues (w.handlePoll mg c) c := by
  refine continues_of_log (fnData_handlePoll ..) (by rw [log_handlePoll, if_pos rfl]) ?_
    fun _ => occurs_handlePoll
  intro o ho
  obtain ⟨id, hid, rfl⟩ := List.mem_map.mp ho
  obtain ⟨r, hr, -⟩ := (mem_failedIds w c id).mp hid
  exact ⟨id, rfl, Or.inl (by simp [hr])⟩

end World

/-! ### Final writes leave no entry -/

theorem Shared.puts_begin (q : Shared) (r : ℕ) (call : Call) :
    (q.begin r call).shared.history.puts = q.history.puts := by
  cases call <;> simp only [Shared.begin] <;> split <;> rfl

theorem Shared.puts_advance (q : Shared) (answer : Bool) (pc : Pc) :
    (q.advance answer pc).shared.history.puts = q.history.puts := by
  cases pc with
  | idle | granted | streamStored | putWritten | putRefused | sendDecided => rfl
  | streamDecided r ok => cases ok <;> rfl
  | sendChecked | sendStored | streamChecked | streamOpened | putStored | putLocked =>
      cases answer <;> rfl

/-- The chunks and the end that the outputs of a stream stand for. -/
theorem isFinal_of_mem_written {s : StreamRef} {preamble : Bytes} {ops : List Put} {o : Output}
    (ho : o ∈ written s preamble ops) (hfinal : o.write.isFinal = true) :
    .close ∈ ops ∨ .send [] ∈ ops := by
  rcases List.mem_cons.mp ho with rfl | ho
  · simp [Write.isFinal] at hfinal
  · obtain ⟨op, hop, rfl⟩ := List.mem_map.mp ho
    cases op with
    | close => exact Or.inl hop
    | send body =>
        have hnil : body = [] := List.isEmpty_iff.mp hfinal
        exact Or.inr (hnil ▸ hop)

/-- Once the last of its answer is written, a request is in no table. -/
theorem Progress.Stage.unlisted {a : Allowed} {limit r : ℕ} {p : Progress}
    (h : Stage a limit r p) (hputs : ∀ n, .send [] ∉ p.puts n) {o : Output} (ho : o ∈ p.outputs)
    (hfinal : o.write.isFinal = true) : p.pending = false ∧ p.table = none := by
  have hnone {α : Prop} (houtputs : p.outputs = []) : α := by
    rw [houtputs] at ho
    exact absurd ho (by simp)
  rcases h.waiting_or_answered_or_streaming with ⟨n, -, hwaiting⟩ | ⟨hanswered, -⟩ |
    ⟨s, preamble, -, hstreaming⟩
  · exact hnone hwaiting.outputs
  · exact ⟨hanswered.pending, hanswered.table⟩
  · rcases hstreaming.handed_or_served_or_completed with ⟨-, -, houtputs⟩ |
      ⟨-, ops, hops, hclose, houtputs⟩ | ⟨hpending, htable, -⟩
    · exact hnone houtputs
    · -- what is written is a preamble and chunks, none of them final
      rw [houtputs] at ho
      rcases isFinal_of_mem_written ho hfinal with hmem | hmem
      · exact absurd hmem hclose
      · exact absurd (hops.subset hmem) (hputs s.number)
    · exact ⟨hpending, htable⟩

namespace Config

variable {mg : Mongoose} {cfg cfg' cfg₀ : Config} {c r : ℕ}

/-- What a producer has sent, it has sent with a call of `send` or `close`. -/
theorem mem_puts_step {e : Event} (hstep : cfg.step mg e = some cfg') {n : ℕ} {op : Put}
    (hop : op ∈ (cfg'.history r).puts n) :
    op ∈ (cfg.history r).puts n ∨ ∃ t s, e = .put t s op := by
  cases e with
  | loop e =>
      obtain ⟨-, rfl⟩ := step_loop hstep
      refine Or.inl ?_
      cases e with
      | wakeup c' id =>
          simp only [record, modifyAt_apply] at hop
          split_ifs at hop with hr
          · rwa [hr]
          · exact hop
      | accept | poll | httpMessage | write | close | mongoose => exact hop
  | headers r' h =>
      obtain rfl := step_headers hstep
      exact Or.inl hop
  | begin t r' call =>
      obtain ⟨-, -, rfl⟩ := step_begin hstep
      rw [history_commit] at hop
      split_ifs at hop with hr
      · rw [Shared.puts_begin] at hop
        exact Or.inl (hr ▸ hop)
      · exact Or.inl hop
  | wait t s =>
      obtain ⟨-, -, granted, -, rfl⟩ := step_wait hstep
      cases granted <;> exact Or.inl hop
  | put t s op' =>
      obtain ⟨-, -, rfl⟩ := step_put hstep
      rw [history_commit] at hop
      split_ifs at hop with hr
      · simp only [Shared.put, Function.update_apply] at hop
        split_ifs at hop with hn
        · rcases List.mem_append.mp hop with hold | hnew
          · exact Or.inl (by rw [hr, hn]; exact hold)
          · exact Or.inr ⟨t, s, by rw [List.mem_singleton.mp hnew]⟩
        · exact Or.inl (hr ▸ hop)
      · exact Or.inl hop
  | advance t answer =>
      rcases step_advance hstep with ⟨-, rfl⟩ | ⟨r', -, rfl⟩
      · exact Or.inl hop
      · rw [history_commit] at hop
        split_ifs at hop with hr
        · rw [Shared.puts_advance] at hop
          exact Or.inl (hr ▸ hop)
        · exact Or.inl hop

/-- Every response is used as it should be, and no producer yields an empty chunk. -/
def Orderly (cfg : Config) (e : Event) : Prop :=
  cfg.AllConforming e ∧ match e with
    | .loop (.httpMessage _ _ calls) => ∀ code encoding results,
        ResponseCall.stream code encoding results ∈ calls → ∀ i, results i ≠ some []
    | .put _ _ op => op ≠ .send []
    | .loop (.accept _) | .loop (.poll _) | .loop (.wakeup _ _) | .loop (.write _)
    | .loop (.close _) | .loop (.mongoose _ _) | .headers _ _ | .begin _ _ _ | .wait _ _
    | .advance _ _ => True

theorem not_mem_puts_of_reaches (hinit : cfg₀.Initial) (h : Reaches (step mg) Orderly cfg₀ cfg)
    (r n : ℕ) : .send [] ∉ (cfg.history r).puts n := by
  refine h.invariant (P := fun cfg => ∀ r n, Put.send [] ∉ (cfg.history r).puts n) ?_ ?_ r n
  · intro r n
    rw [hinit.history]
    exact List.not_mem_nil
  · intro cfg e cfg' hputs hok hstep r n hmem
    rcases mem_puts_step hstep hmem with hold | ⟨t, s, rfl⟩
    · exact hputs r n hold
    · exact hok.2 rfl

theorem occurs_of_wakeup {id : ℕ} (hinit : cfg₀.Initial)
    (h : Reaches (step mg) Orderly cfg₀ cfg) (hmem : (c, id) ∈ cfg.world.wakeups)
    (hlive : (cfg.world.connections c).status = .live) : cfg.world.Occurs c id := by
  have howned := Owned.of_reaches hinit h
  obtain ⟨hid, hconn⟩ := howned.wakeup c id hmem
  have hstage := stage_of_allConforming hinit (h.mono fun _ _ hok => hok.1) hid
    (by rwa [IsOpen, conn, hconn])
  rcases entry_of_wakeup howned hmem hstage with hentry | hentry
  · exact Or.inl hentry.1
  · exact Or.inr hentry.2

/-- A request whose answer is complete is in no table. -/
theorem not_occurs_of_final (hinit : cfg₀.Initial) (h : Reaches (step mg) Orderly cfg₀ cfg)
    (hlive : (cfg.world.connections c).status = .live) {o : Output}
    (ho : o ∈ (cfg.world.connections c).log) (hr : o.source.request = some r)
    (hfinal : o.write.isFinal = true) : ¬cfg.world.Occurs c r := by
  have hconforming : Reaches (step mg) AllConforming cfg₀ cfg := h.mono fun _ _ hok => hok.1
  have howned := Owned.of_reaches hinit h
  obtain ⟨hconn, houtput⟩ := output_mem_view howned ho hr
  obtain ⟨hlt, -⟩ := howned.output c o r ho hr
  have hstage := stage_of_allConforming hinit hconforming hlt (by rwa [IsOpen, hconn])
  obtain ⟨hpending, htable⟩ := hstage.unlisted (fun n => not_mem_puts_of_reaches hinit h r n)
    houtput hfinal
  have hpending : (cfg.world.mPendingResponses.find (cfg.conn r) r).isSome = false := hpending
  have hstream := find_mPendingStreams_of_table howned htable
  rw [hconn] at hpending hstream
  have hresponse : cfg.world.mPendingResponses.find c r = none := by simpa using hpending
  simp [Endpoint.Occurs, hstream, hresponse]

end Config

/-! ### Turns -/

namespace World

variable {w w' : World} {c start : ℕ} {q : Option ℕ}

structure Vacant (w : World) (c : ℕ) : Prop where
  occurs : ∀ id, ¬w.Occurs c id
  producer : (w.connections c).producer = none

/-- A message has been delivered when the log of the connection had length
`start`, and its answer alone is outstanding: an asynchronous one for request
`q`, or a synchronous one. -/
structure Turn (w : World) (c start : ℕ) (q : Option ℕ) : Prop where
  occurs : ∀ id, w.Occurs c id → q = some id
  producer : ∀ p, (w.connections c).producer = some p → q = none ∧
    (∀ i, p.results i ≠ some []) ∧
    ∀ o ∈ (w.connections c).log.drop start, o.write.isFinal = false
  start_le : start ≤ (w.connections c).log.length
  outputs : ∀ o ∈ (w.connections c).log.drop start, o.source.request = q
  before : ∀ r, q = some r → ∀ o ∈ (w.connections c).log.take start, o.source.request ≠ some r

theorem Vacant.continue (h : w.Vacant c) (hcont : w.Continues w' c) : w'.Vacant c where
  occurs id hid := h.occurs id (hcont.occurs id hid)
  producer := by
    cases hp' : (w'.connections c).producer with
    | none => rfl
    | some p' =>
        obtain ⟨p, hp, -⟩ := hcont.producer p' hp'
        exact absurd (h.producer.symm.trans hp) (by simp)

theorem Turn.continue (h : w.Turn c start q) (hcont : w.Continues w' c) : w'.Turn c start q := by
  obtain ⟨out, hlog, hout⟩ := hcont.log
  have hdrop : (w'.connections c).log.drop start = (w.connections c).log.drop start ++ out := by
    rw [hlog, List.drop_append_of_le_length h.start_le]
  have hproducer {p : StreamProducer} (hp : (w.connections c).producer = some p) := h.producer p hp
  constructor
  · exact fun id hid => h.occurs id (hcont.occurs id hid)
  · intro p' hp'
    obtain ⟨p, hp, hresults⟩ := hcont.producer p' hp'
    obtain ⟨hq, hnonempty, hopen⟩ := hproducer hp
    refine ⟨hq, by rwa [hresults], ?_⟩
    intro o ho
    rw [hdrop] at ho
    rcases List.mem_append.mp ho with ho | ho
    · exact hopen o ho
    · rcases hout o ho with ⟨id, -, hid⟩ | ⟨-, p₁, hp₁, hlast⟩
      · exact absurd ((h.occurs id hid).symm.trans hq) (by simp)
      · -- a final chunk would have been the last of the producer
        obtain rfl := Option.some.inj (hp.symm.trans hp₁)
        by_contra hfinal
        have hnone := hlast (by simpa using hfinal) hnonempty
        exact absurd (hnone.symm.trans hp') (by simp)
  · rw [hlog, List.length_append]
    exact Nat.le_add_right_of_le h.start_le
  · intro o ho
    rw [hdrop] at ho
    rcases List.mem_append.mp ho with ho | ho
    · exact h.outputs o ho
    · rcases hout o ho with ⟨id, hrequest, hid⟩ | ⟨hsource, p, hp, -⟩
      · exact hrequest.trans (h.occurs id hid).symm
      · rw [hsource, (hproducer hp).1]
        rfl
  · intro r hr o ho
    rw [hlog, List.take_append_of_le_length h.start_le] at ho
    exact h.before r hr o ho

theorem sizes_eq_zero (h : ∀ id, ¬w.Occurs c id) :
    w.mPendingResponses.size c = 0 ∧ w.mPendingStreams.size c = 0 :=
  ⟨NestedMap.size_eq_zero fun id => by_contra fun hid => h id (Or.inl hid),
    NestedMap.size_eq_zero fun id => by_contra fun hid => h id (Or.inr hid)⟩

/-- Whatever the tables hold for the connection, and its producer, are one answer. -/
theorem Turn.outstanding_le (h : w.Turn c start q)
    (hone : ∀ id, w.mPendingResponses.find c id ≠ none → w.mPendingStreams.find c id = none) :
    w.outstanding c ≤ 1 := by
  cases q with
  | none =>
      have hnone (id : ℕ) : ¬w.Occurs c id := fun hid => absurd (h.occurs id hid) (by simp)
      obtain ⟨hresponses, hstreams⟩ := sizes_eq_zero hnone
      unfold outstanding
      split <;> omega
  | some r =>
      have hproducer : (w.connections c).producer = none := by
        by_contra hsome
        obtain ⟨p, hp⟩ := Option.ne_none_iff_exists'.mp hsome
        exact absurd (h.producer p hp).1 (by simp)
      have hkey {id : ℕ} (hid : w.Occurs c id) : id = r :=
        (Option.some.inj (h.occurs id hid)).symm
      have hresponses : w.mPendingResponses.size c ≤ 1 :=
        NestedMap.size_le_one fun id hid => hkey (Or.inl hid)
      have hstreams : w.mPendingStreams.size c ≤ 1 :=
        NestedMap.size_le_one fun id hid => hkey (Or.inr hid)
      have hcount : w.outstanding c = w.mPendingResponses.size c + w.mPendingStreams.size c := by
        simp [outstanding, hproducer]
      -- the one id is in one of the tables at most
      by_cases hr : w.mPendingResponses.find c r = none
      · have hempty : w.mPendingResponses.size c = 0 := by
          refine NestedMap.size_eq_zero fun id => by_contra fun hid => ?_
          exact hid (hkey (Or.inl hid) ▸ hr)
        omega
      · have hempty : w.mPendingStreams.size c = 0 := by
          refine NestedMap.size_eq_zero fun id => by_contra fun hid => ?_
          exact hid (hkey (Or.inr hid) ▸ hone r hr)
        omega

theorem Vacant.outstanding_eq (h : w.Vacant c) : w.outstanding c = 0 := by
  obtain ⟨hresponses, hstreams⟩ := sizes_eq_zero h.occurs
  simp [outstanding, hresponses, hstreams, h.producer]

/-- After one of its events, a connection is in use. -/
theorem status_ne_unused {mg : Mongoose} {e : LoopEvent} (hraises : w.Raises e) :
    ((w.handle mg e).connections e.conn).status ≠ .unused := by
  cases e with
  | accept d => simp [handle, accept, LoopEvent.conn]
  | wakeup d id =>
      have hlive : (w.connections d).status = .live := hraises.1
      exact status_handle_ne_unused (by simp [LoopEvent.conn, hlive])
  | write d =>
      have hlive : (w.connections d).status = .live := hraises.1
      exact status_handle_ne_unused (by simp [LoopEvent.conn, hlive])
  | poll d | httpMessage d | close d | mongoose d =>
      have hlive : (w.connections d).status = .live := hraises
      exact status_handle_ne_unused (by simp [LoopEvent.conn, hlive])

/-- A new connection has no entries, since its number was not in use. -/
theorem vacant_accept {cfg : Config} (howned : Owned cfg)
    (hunused : (cfg.world.connections c).status = .unused) : (cfg.world.accept c).Vacant c where
  occurs := by
    rintro id (hid | hid)
    · obtain ⟨r, hr⟩ := Option.ne_none_iff_exists'.mp hid
      obtain ⟨-, -, -, hlive⟩ := howned.responseEntry c id r hr
      exact absurd (hunused.symm.trans hlive) (by simp)
    · obtain ⟨s, hs⟩ := Option.ne_none_iff_exists'.mp hid
      obtain ⟨-, -, -, hlive, -⟩ := howned.streamEntry c id s hs
      exact absurd (hunused.symm.trans hlive) (by simp)
  producer := by simp [accept, Connection.producer]

/-- The message that finds nothing outstanding begins a turn. -/
theorem turn_handleHttpMessage {mg : Mongoose} {cfg : Config} (howned : Owned cfg)
    (h : cfg.world.Vacant c) (msg : HttpMessage) {calls : List ResponseCall}
    (hcalls : ∀ code encoding results, ResponseCall.stream code encoding results ∈ calls →
      ∀ i, results i ≠ some []) :
    ∃ q, (cfg.world.handleHttpMessage mg c msg calls).Turn c
      (cfg.world.connections c).log.length q := by
  rcases @handleHttpMessage_starts mg cfg.world c (fun f => ∀ i, f i ≠ some []) h.producer
    msg calls hcalls with hadd | ⟨conns, hconns, out, hlog, hsource, hproducer⟩
  · -- an asynchronous listener: the request is the turn, and nothing is written yet
    rw [hadd]
    have hlog : ((cfg.world.addResponse c).connections c).log = (cfg.world.connections c).log := rfl
    refine ⟨some cfg.world.mRequestCounter, ?_, ?_, by rw [hlog], ?_, ?_⟩
    · intro id hid
      rcases hid with hid | hid
      · rw [addResponse, NestedMap.find_set] at hid
        split_ifs at hid with hkey
        · exact congrArg some hkey.2.symm
        · exact absurd (Or.inl hid) (h.occurs id)
      · exact absurd (Or.inr hid) (h.occurs id)
    · intro p hp
      exact absurd (h.producer.symm.trans hp) (by simp)
    · rw [hlog, List.drop_length]
      simp
    · -- nothing has been written for a request that is new
      intro r hr o ho hrequest
      rw [hlog, List.take_length] at ho
      obtain ⟨hlt, -⟩ := howned.output c o r ho hrequest
      obtain rfl := Option.some.inj hr
      omega
  · -- a synchronous answer, at least begun
    rw [hconns]
    refine ⟨none, ?_, ?_, ?_, ?_, by simp⟩
    · exact fun id hid => absurd hid (h.occurs id)
    · intro p hp
      refine ⟨rfl, (hproducer p hp).1, ?_⟩
      show ∀ o ∈ (conns c).log.drop _, _
      rw [hlog, List.drop_left]
      exact (hproducer p hp).2
    · show _ ≤ (conns c).log.length
      rw [hlog, List.length_append]
      omega
    · show ∀ o ∈ (conns c).log.drop _, _
      rw [hlog, List.drop_left]
      intro o ho
      rw [hsource o ho]
      rfl

end World

/-- The program together with where in the log of each connection its last
message was delivered.  Mongoose waits with a message until the answer to the
one before is finished. -/
structure Paced where
  cfg : Config
  marks : ℕ → Option ℕ

namespace Paced

def Ready (p : Paced) (c : ℕ) : Prop :=
  match p.marks c with
  | none => True
  | some start => ∃ o ∈ (p.cfg.world.connections c).log.drop start, o.write.isFinal = true

instance (p : Paced) (c : ℕ) : Decidable (p.Ready c) := by
  unfold Ready
  split <;> infer_instance

def Admits (p : Paced) : Event → Prop
  | .loop (.httpMessage c _ _) => p.Ready c
  | .loop (.accept _) | .loop (.poll _) | .loop (.wakeup _ _) | .loop (.write _)
  | .loop (.close _) | .loop (.mongoose _ _) | .headers _ _ | .begin _ _ _ | .wait _ _
  | .put _ _ _ | .advance _ _ => True

instance (p : Paced) (e : Event) : Decidable (p.Admits e) := by
  unfold Admits
  split <;> infer_instance

def mark (p : Paced) : Event → ℕ → Option ℕ
  | .loop (.httpMessage c _ _) =>
      Function.update p.marks c (some (p.cfg.world.connections c).log.length)
  | .loop (.accept _) | .loop (.poll _) | .loop (.wakeup _ _) | .loop (.write _)
  | .loop (.close _) | .loop (.mongoose _ _) | .headers _ _ | .begin _ _ _ | .wait _ _
  | .put _ _ _ | .advance _ _ => p.marks

def step (mg : Mongoose) (p : Paced) (e : Event) : Option Paced :=
  if p.Admits e then (p.cfg.step mg e).map fun cfg => { cfg := cfg, marks := p.mark e } else none

def start (cfg : Config) : Paced where
  cfg := cfg
  marks _ := none

def Orderly (p : Paced) (e : Event) : Prop := p.cfg.Orderly e

variable {mg : Mongoose} {p p' : Paced} {c : ℕ} {cfg₀ : Config}

theorem step_eq_some {e : Event} (h : p.step mg e = some p') :
    p.Admits e ∧ p.cfg.step mg e = some p'.cfg ∧ p'.marks = p.mark e := by
  simp only [step, Option.ite_none_right_eq_some] at h
  obtain ⟨hadmits, h⟩ := h
  obtain ⟨cfg, hstep, rfl⟩ := Option.map_eq_some_iff.mp h
  exact ⟨hadmits, hstep, rfl⟩

/-- A paced run is a run. -/
theorem reaches_cfg (h : Reaches (step mg) Orderly p p') :
    Reaches (Config.step mg) Config.Orderly p.cfg p'.cfg := by
  refine h.invariant (P := fun p' => Reaches (Config.step mg) Config.Orderly p.cfg p'.cfg)
    (.refl _) ?_
  intro p₁ e p₂ h hok hstep
  exact h.next hok (step_eq_some hstep).2.1

/-- The invariant: an open connection is vacant until its first message, and
takes turns from then on. -/
def Taking (p : Paced) (c : ℕ) : Prop :=
  match p.marks c with
  | none => p.cfg.world.Vacant c
  | some start => ∃ q, p.cfg.world.Turn c start q

theorem Taking.continue (h : p.Taking c) (hmark : p'.marks c = p.marks c)
    (hcont : p.cfg.world.Continues p'.cfg.world c) : p'.Taking c := by
  unfold Taking at h ⊢
  rw [hmark]
  split at h
  · exact h.continue hcont
  · obtain ⟨q, hturn⟩ := h
    exact ⟨q, hturn.continue hcont⟩

/-- When the next message may come, nothing is outstanding. -/
theorem Taking.vacant (h : p.Taking c) (hinit : cfg₀.Initial)
    (hreach : Reaches (Config.step mg) Config.Orderly cfg₀ p.cfg)
    (hlive : (p.cfg.world.connections c).status = .live) (hready : p.Ready c) :
    p.cfg.world.Vacant c := by
  unfold Taking at h
  unfold Ready at hready
  split at h
  · exact h
  · next start hmark =>
      obtain ⟨q, hturn⟩ := h
      rw [hmark] at hready
      obtain ⟨o, ho, hfinal⟩ := hready
      have hq : o.source.request = q := hturn.outputs o ho
      have hlog : o ∈ (p.cfg.world.connections c).log := List.mem_of_mem_drop ho
      -- the final write belongs to the turn, and so does whatever would be outstanding
      constructor
      · intro id hid
        have hid' := hturn.occurs id hid
        exact Config.not_occurs_of_final hinit hreach hlive hlog (hq.trans hid') hfinal hid
      · by_contra hsome
        obtain ⟨producer, hproducer⟩ := Option.ne_none_iff_exists'.mp hsome
        have hopen := (hturn.producer producer hproducer).2.2 o ho
        exact absurd (hopen.symm.trans hfinal) (by simp)

def Taken (p : Paced) : Prop := ∀ c,
  ((p.cfg.world.connections c).status = .unused →
    p.marks c = none ∧ (p.cfg.world.connections c).fnData = none) ∧
  ((p.cfg.world.connections c).status = .live → p.Taking c)

theorem taken_start (hinit : cfg₀.Initial) : (start cfg₀).Taken := by
  intro c
  have hconn : (start cfg₀).cfg.world.connections c = {} := hinit.connections c
  rw [hconn]
  exact ⟨fun _ => ⟨rfl, rfl⟩, fun hlive => absurd hlive (by simp)⟩

/-- An event of the connection itself that leaves it open. -/
theorem Taking.loop_self (h : p.Taking c) (howned : Owned p.cfg) {e : LoopEvent}
    (hc : e.conn = c) (hraises : p.cfg.world.Raises e)
    (hlive : (p.cfg.world.connections c).status = .live)
    (hlive' : ((p.cfg.world.handle mg e).connections c).status = .live)
    (hentry : ∀ id, e = .wakeup c id → p.cfg.world.Occurs c id)
    (hvacant : ∀ msg calls, e = .httpMessage c msg calls → p.cfg.world.Vacant c)
    (hcalls : ∀ msg calls, e = .httpMessage c msg calls → ∀ code encoding results,
      ResponseCall.stream code encoding results ∈ calls → ∀ i, results i ≠ some [])
    (hcfg : p'.cfg.world = p.cfg.world.handle mg e) (hmarks : p'.marks = p.mark (.loop e)) :
    p'.Taking c := by
  subst hc
  have hcontinue (hmark : p'.marks e.conn = p.marks e.conn)
      (hcont : p.cfg.world.Continues (p.cfg.world.handle mg e) e.conn) : p'.Taking e.conn :=
    h.continue hmark (hcfg ▸ hcont)
  cases e with
  | accept d =>
      have hunused : (p.cfg.world.connections d).status = .unused := hraises
      exact absurd (hlive.symm.trans hunused) (by simp)
  | poll d => exact hcontinue (congrFun hmarks d) World.continues_handlePoll
  | write d => exact hcontinue (congrFun hmarks d) World.continues_handleWrite.of_clearSent
  | close d =>
      rw [World.handle, LoopEvent.conn, World.status_forget, if_pos rfl] at hlive'
      exact absurd hlive' (by simp)
  | mongoose d send =>
      have hfnData : ((p.cfg.world.setSend d send).connections d).fnData =
          (p.cfg.world.connections d).fnData := by simp [World.setSend]
      have hlog : ((p.cfg.world.setSend d send).connections d).log =
          (p.cfg.world.connections d).log ++ [] := by simp [World.setSend]
      exact hcontinue (congrFun hmarks d)
        (World.continues_of_log hfnData hlog (by simp) fun _ hid => hid)
  | wakeup d id =>
      have hcont : (p.cfg.world.take d id).Continues
          ((p.cfg.world.take d id).handleWakeup mg d id) d :=
        World.continues_handleWakeup (howned.take hraises.2) (hentry id rfl)
      exact hcontinue (congrFun hmarks d) ⟨hcont.occurs, hcont.producer, hcont.log⟩
  | httpMessage d msg calls =>
      have hmark : p'.marks d = some (p.cfg.world.connections d).log.length := by
        rw [hmarks]
        exact Function.update_self ..
      show p'.Taking d
      unfold Taking
      rw [hmark, hcfg]
      exact World.turn_handleHttpMessage howned (hvacant msg calls rfl) msg (hcalls msg calls rfl)

/-- A step that leaves the connection alone. -/
theorem Taken.other (h : p.Taken) (hmark : p'.marks c = p.marks c)
    (hsame : p'.cfg.world.connections c = p.cfg.world.connections c)
    (hoccurs : ∀ id, p'.cfg.world.Occurs c id → p.cfg.world.Occurs c id) :
    ((p'.cfg.world.connections c).status = .unused →
      p'.marks c = none ∧ (p'.cfg.world.connections c).fnData = none) ∧
    ((p'.cfg.world.connections c).status = .live → p'.Taking c) := by
  obtain ⟨hunused, htaking⟩ := h c
  rw [hsame, hmark]
  exact ⟨hunused, fun hlive =>
    (htaking hlive).continue hmark (World.continues_of_eq hsame hoccurs)⟩

theorem mark_loop_of_ne {e : LoopEvent} (hc : c ≠ e.conn) : p.mark (.loop e) c = p.marks c := by
  cases e with
  | httpMessage d msg calls => exact Function.update_of_ne hc ..
  | accept | poll | wakeup | write | close | mongoose => rfl

theorem mark_of_worker {e : Event} (he : ∀ e', e ≠ .loop e') : p.mark e = p.marks := by
  cases e with
  | loop e => exact absurd rfl (he e)
  | headers | begin | wait | put | advance => rfl

theorem Taken.step (h : p.Taken) (hinit : cfg₀.Initial)
    (hreach : Reaches (Config.step mg) Config.Orderly cfg₀ p.cfg) {e : Event}
    (hok : p.Orderly e) (hstep : p.step mg e = some p') : p'.Taken := by
  have howned := Owned.of_reaches hinit hreach
  obtain ⟨hadmits, hcfg, hmarks⟩ := step_eq_some hstep
  intro c
  rcases Config.step_cases hcfg with ⟨e, rfl, hraises, hcfg'⟩ | ⟨hnot, hconnections, hendpoint⟩
  · have hworld : p'.cfg.world = p.cfg.world.handle mg e := congrArg Config.world hcfg'
    by_cases hc : c = e.conn
    · obtain ⟨hunused, htaking⟩ := h c
      refine ⟨fun hunused' => ?_, fun hlive' => ?_⟩
      · rw [hworld, hc] at hunused'
        exact absurd hunused' (World.status_ne_unused hraises)
      · have hlive₁ := hworld ▸ hlive'
        rcases World.status_handle hlive₁ with hlive | rfl
        · refine (htaking hlive).loop_self howned hc.symm hraises hlive hlive₁ ?_ ?_ ?_
            hworld hmarks
          · rintro id rfl
            exact Config.occurs_of_wakeup hinit hreach hraises.2 hlive
          · rintro msg calls rfl
            exact (htaking hlive).vacant hinit hreach hlive hadmits
          · rintro msg calls rfl
            exact hok.2
        · -- a new connection
          have hmark : p'.marks c = none := (congrFun hmarks c).trans (hunused hraises).1
          unfold Taking
          rw [hmark, hworld]
          exact World.vacant_accept howned hraises
    · refine h.other ((congrFun hmarks c).trans (mark_loop_of_ne hc)) ?_ fun id hid => ?_
      · rw [hworld]
        exact World.connections_handle_of_ne mg p.cfg.world hc
      · rw [hworld] at hid
        refine World.occurs_handle ?_ hid
        rintro msg calls rfl
        exact hc rfl
  · refine h.other (congrFun (hmarks.trans (mark_of_worker hnot)) c) (congrFun hconnections c) ?_
    intro id hid
    rwa [hendpoint] at hid

theorem taken_of_reaches (hinit : cfg₀.Initial)
    (h : Reaches (step mg) Orderly (start cfg₀) p) : p.Taken := by
  refine h.invariant_of (J := fun p => Reaches (Config.step mg) Config.Orderly cfg₀ p.cfg)
    ?_ (taken_start hinit) ?_
  · intro p' h'
    exact reaches_cfg h'
  · intro p e p' hreach htaken hok hstep
    exact htaken.step hinit hreach hok hstep

/-- On an open connection at most one answer is outstanding.  When the next
message may come there is none, so that its handler sets a producer only where
there is no other; and what has been written since the last message is one answer. -/
theorem one_outstanding (hinit : cfg₀.Initial) (h : Reaches (step mg) Orderly (start cfg₀) p)
    (hlive : (p.cfg.world.connections c).status = .live) :
    p.cfg.world.outstanding c ≤ 1 ∧
      (p.Ready c → p.cfg.world.outstanding c = 0 ∧
        ∀ calls, (Response.calls mg p.cfg.world.connections { mConn := some c } calls).2.mConn =
            some c →
          ((Response.calls mg p.cfg.world.connections { mConn := some c } calls).1 c).producer =
            none) ∧
      ∀ start, p.marks c = some start →
        ∃ q, (∀ o ∈ (p.cfg.world.connections c).log.drop start, o.source.request = q) ∧
          ∀ r, q = some r →
            ∀ o ∈ (p.cfg.world.connections c).log.take start, o.source.request ≠ some r := by
  have hreach : Reaches (Config.step mg) Config.Orderly cfg₀ p.cfg := reaches_cfg h
  have howned := Owned.of_reaches hinit hreach
  have htaking := (taken_of_reaches hinit h c).2 hlive
  refine ⟨?_, fun hready => ?_, fun start hmark => ?_⟩
  · unfold Taking at htaking
    split at htaking
    · rw [htaking.outstanding_eq]
      exact Nat.zero_le 1
    · obtain ⟨q, hturn⟩ := htaking
      refine hturn.outstanding_le fun id hid => ?_
      by_contra hsome
      obtain ⟨s, hs⟩ := Option.ne_none_iff_exists'.mp hsome
      exact hid (howned.find_mPendingResponses_of_stream hs c)
  · have hvacant := htaking.vacant hinit hreach hlive hready
    refine ⟨hvacant.outstanding_eq, fun calls hcalls => ?_⟩
    rw [Response.calls_of_mConn rfl hcalls]
    exact hvacant.producer
  · unfold Taking at htaking
    rw [hmark] at htaking
    obtain ⟨q, hturn⟩ := htaking
    exact ⟨q, hturn.outputs, hturn.before⟩

/-- The second request of a connection, after the first has been answered. -/
theorem one_outstanding_second : ∃ p,
    run (step .plain) (start (Config.start Config.asyncRoutes))
        (Config.firstRequest ++ [.begin 0 0 (.send 200 []), .advance 0 true, .advance 0 true,
          .advance 0 true, .loop (.wakeup 0 0), .loop (.httpMessage 0 ⟨[], []⟩ [])]) = some p ∧
      p.marks 0 = some 1 ∧ p.cfg.world.Occurs 0 1 ∧ p.cfg.world.outstanding 0 ≤ 1 := by
  have hmeets : Meets (step .plain) Orderly (start (Config.start Config.asyncRoutes))
      (Config.firstRequest ++ [.begin 0 0 (.send 200 []), .advance 0 true, .advance 0 true,
        .advance 0 true, .loop (.wakeup 0 0), .loop (.httpMessage 0 ⟨[], []⟩ [])]) :=
    ⟨⟨fun _ => trivial, trivial⟩, ⟨fun _ => trivial, nofun⟩, ⟨fun _ _ _ => nofun, trivial⟩,
      ⟨fun _ => trivial, trivial⟩, ⟨fun _ => trivial, trivial⟩, ⟨fun _ => trivial, trivial⟩,
      ⟨fun _ => trivial, trivial⟩, ⟨fun _ => trivial, nofun⟩, trivial⟩
  have hrun := reaches_of_run rfl hmeets
  exact ⟨_, rfl, rfl, Or.inl (by decide),
    (one_outstanding (c := 0) (Config.initial_start _) hrun rfl).1⟩

end Paced

end Mgxx.Http
