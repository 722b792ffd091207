import Mgxx.Concurrency.Threads

/-!
Who owns what, however the program is used.  Every entry of the two tables
names the request it is filed under, on that request's own open connection; a
request is never in both tables; the pointers in the stream table are not null;
and every wake-up carries the connection and the id of a request that exists.
-/

namespace Mgxx.Http

open Mgxx.Library

/-- The thread has stored `m_stream` and has yet to store `streaming`. -/
def Pc.Opened (pc : Pc) (r : ℕ) : Prop := pc = .streamOpened r ∨ pc = .streamDecided r true

structure Owned (cfg : Config) : Prop where
  responseEntry : ∀ c id r, cfg.world.mPendingResponses.find c id = some r →
    r = id ∧ id < cfg.world.mRequestCounter ∧ (cfg.world.responses id).mConn = c ∧
      (cfg.world.connections c).status = .live
  streamEntry : ∀ c id p, cfg.world.mPendingStreams.find c id = some p →
    (∃ n < cfg.world.made id, p = some ⟨id, n⟩) ∧ id < cfg.world.mRequestCounter ∧
      (cfg.world.responses id).mConn = c ∧ (cfg.world.connections c).status = .live ∧
      cfg.world.mPendingResponses.find c id = none
  /-- A stream in the table is not completed, and its response has let go of it. -/
  tabled : ∀ c id s, cfg.world.mPendingStreams.find c id = some (some s) →
    (cfg.world.streams s).mState ≠ .completed ∧ (cfg.world.responses id).mStream ≠ some s
  held : ∀ r s, r < cfg.world.mRequestCounter → (cfg.world.responses r).mStream = some s →
    s.response = r ∧ s.number < cfg.world.made r ∧ (cfg.world.streams s).mState ≠ .completed
  identity : ∀ r, r < cfg.world.mRequestCounter → (cfg.world.responses r).mId = r ∧
    (cfg.world.connections (cfg.world.responses r).mConn).status ≠ .unused
  streamIdentity : ∀ r n, n < cfg.world.made r →
    (cfg.world.streams ⟨r, n⟩).mConn = (cfg.world.responses r).mConn ∧
      (cfg.world.streams ⟨r, n⟩).mId = r
  streaming : ∀ c r, cfg.world.mPendingResponses.find c r ≠ none →
    (cfg.world.responses r).mState = .streaming → (cfg.world.responses r).mStream ≠ none
  opened : ∀ t c r, (cfg.threads t).Opened r → cfg.world.mPendingResponses.find c r ≠ none →
    (cfg.world.responses r).mStream ≠ none
  wakeup : ∀ c id, (c, id) ∈ cfg.world.wakeups →
    id < cfg.world.mRequestCounter ∧ (cfg.world.responses id).mConn = c
  thread : ∀ t r, (cfg.threads t).request = some r → r < cfg.world.mRequestCounter
  threadStream : ∀ t s, (cfg.threads t).stream = some s →
    s.number < cfg.world.made s.response
  returned : ∀ r s, some s ∈ (cfg.history r).returned → s.response = r ∧ s.number < cfg.world.made r
  unborn : ∀ r, cfg.world.mRequestCounter ≤ r → cfg.world.made r = 0 ∧ cfg.history r = {}
  output : ∀ d o r, o ∈ (cfg.world.connections d).log → o.source.request = some r →
    r < cfg.world.mRequestCounter ∧ (cfg.world.responses r).mConn = d
  /-- Nothing is written for a request before its response leaves the table. -/
  unwritten : ∀ c r o, cfg.world.mPendingResponses.find c r ≠ none →
    o ∈ (cfg.world.connections c).log → o.source.request ≠ some r

namespace Owned

variable {cfg : Config} {mg : Mongoose}

theorem initial (h : cfg.Initial) : Owned cfg := by
  obtain ⟨hcounter, hresponses, hstreams, hmade, hconns, hwakeups, hthreads, hhistory⟩ := h
  constructor <;> intros <;>
    simp_all [Pc.Opened, Pc.request, Pc.stream]

/-! ### The event loop -/

/-- A handler that files nothing: entries, objects and wake-ups stay as they
are or go away, and what is written belongs to requests that have left the
table of responses. -/
structure Shrinks (w w' : World) : Prop where
  mRequestCounter : w'.mRequestCounter = w.mRequestCounter
  made : w'.made = w.made
  responseEntry : ∀ c id r, w'.mPendingResponses.find c id = some r →
    w.mPendingResponses.find c id = some r ∧ (w'.connections c).status = .live
  streamEntry : ∀ c id p, w'.mPendingStreams.find c id = some p →
    w.mPendingStreams.find c id = some p ∧ (w'.connections c).status = .live
  status : ∀ c, (w.connections c).status ≠ .unused → (w'.connections c).status ≠ .unused
  mConn : ∀ r, (w'.responses r).mConn = (w.responses r).mConn
  mId : ∀ r, (w'.responses r).mId = (w.responses r).mId
  mStream : ∀ r, (w'.responses r).mStream = (w.responses r).mStream
  mState : ∀ r, (w'.responses r).mState = .streaming → (w.responses r).mState = .streaming
  streamIdentity : ∀ s, (w'.streams s).mConn = (w.streams s).mConn ∧
    (w'.streams s).mId = (w.streams s).mId
  /-- A stream that is completed leaves the table at once. -/
  completed : ∀ s, (w'.streams s).mState = .completed → (w.streams s).mState = .completed ∨
    ∃ c, w.mPendingStreams.find c s.response = some (some s) ∧
      w'.mPendingStreams.find c s.response = none
  wakeups : ∀ x ∈ w'.wakeups, x ∈ w.wakeups
  log : ∀ d o, o ∈ (w'.connections d).log → o ∈ (w.connections d).log ∨
    ∀ r, o.source.request = some r → r < w.mRequestCounter ∧ (w.responses r).mConn = d ∧
      w'.mPendingResponses.find d r = none

theorem shrink (h : Owned cfg) {w' : World} (hw : Shrinks cfg.world w') :
    Owned { cfg with world := w' } := by
  have hresponse : ∀ c r, w'.mPendingResponses.find c r ≠ none →
      cfg.world.mPendingResponses.find c r ≠ none := by
    intro c r hc hnone
    obtain ⟨r', hr'⟩ := Option.ne_none_iff_exists'.mp hc
    rw [(hw.responseEntry c r r' hr').1] at hnone
    exact absurd hnone (by simp)
  constructor <;> try simp only [hw.mRequestCounter, hw.made, hw.mConn, hw.mId, hw.mStream]
  case responseEntry =>
    intro c id r hr
    obtain ⟨hold, hlive⟩ := hw.responseEntry c id r hr
    obtain ⟨hid, hlt, hconn, -⟩ := h.responseEntry c id r hold
    exact ⟨hid, hlt, hconn, hlive⟩
  case streamEntry =>
    intro c id p hp
    obtain ⟨hold, hlive⟩ := hw.streamEntry c id p hp
    obtain ⟨hn, hlt, hconn, -, hnone⟩ := h.streamEntry c id p hold
    refine ⟨hn, hlt, hconn, hlive, ?_⟩
    by_contra hc
    exact hresponse c id hc hnone
  case tabled =>
    intro c id s hs
    have hold := (hw.streamEntry c id _ hs).1
    refine ⟨?_, (h.tabled c id s hold).2⟩
    intro hcompleted
    -- a stream is completed by the delivery that takes it out of the table
    rcases hw.completed s hcompleted with hbefore | ⟨c', hc', hnone⟩
    · exact (h.tabled c id s hold).1 hbefore
    · obtain ⟨⟨n, -, hs'⟩, -, hconn, -⟩ := h.streamEntry c id _ hold
      obtain ⟨-, -, hconn', -⟩ := h.streamEntry c' s.response _ hc'
      obtain rfl := Option.some.inj hs'
      rw [← hconn', hconn, hs] at hnone
      exact absurd hnone (by simp)
  case held =>
    intro r s hr hs
    obtain ⟨hresp, hnum, hstate⟩ := h.held r s hr hs
    refine ⟨hresp, hnum, ?_⟩
    intro hcompleted
    rcases hw.completed s hcompleted with hbefore | ⟨c, hc, -⟩
    · exact hstate hbefore
    · exact (h.tabled c s.response s hc).2 (hresp ▸ hs)
  case identity =>
    intro r hr
    exact ⟨(h.identity r hr).1, hw.status _ (h.identity r hr).2⟩
  case streamIdentity =>
    intro r n hn
    obtain ⟨hconn, hid⟩ := hw.streamIdentity ⟨r, n⟩
    rw [hconn, hid]
    exact h.streamIdentity r n hn
  case streaming =>
    intro c r hc hstate
    exact h.streaming c r (hresponse c r hc) (hw.mState r hstate)
  case opened =>
    intro t c r hpc hc
    exact h.opened t c r hpc (hresponse c r hc)
  case wakeup =>
    intro c id hmem
    exact h.wakeup c id (hw.wakeups _ hmem)
  case thread => exact h.thread
  case threadStream => exact h.threadStream
  case returned => exact h.returned
  case unborn => exact h.unborn
  case output =>
    intro d o r ho hr
    rcases hw.log d o ho with hold | hnew
    · exact h.output d o r hold hr
    · exact ⟨(hnew r hr).1, (hnew r hr).2.1⟩
  case unwritten =>
    intro c r o hc ho hr
    rcases hw.log c o ho with hold | hnew
    · exact h.unwritten c r o (hresponse c r hc) hold hr
    · exact hc (hnew r hr).2.2

theorem find_ne_none_of_if {α : Type} {p : Prop} [Decidable p] {o : Option α} {a : α}
    (h : (if p then none else o) = some a) : ¬p ∧ o = some a := by
  split at h
  · exact absurd h (by simp)
  · rename_i hp
    exact ⟨hp, h⟩

theorem mem_append_if {α : Type} {p : Prop} [Decidable p] {l out : List α} {a : α}
    (h : a ∈ l ++ if p then out else []) : a ∈ l ∨ p ∧ a ∈ out := by
  rcases List.mem_append.mp h with h | h
  · exact Or.inl h
  · split_ifs at h with hp
    · exact Or.inr ⟨hp, h⟩
    · simp at h

theorem poll (h : Owned cfg) (c : ℕ) :
    Owned { cfg with world := cfg.world.handlePoll mg c } := by
  apply h.shrink
  constructor <;> try simp only [World.mRequestCounter_handlePoll, World.made_handlePoll,
    World.responses_handlePoll, World.streams_handlePoll, World.wakeups_handlePoll,
    World.mPendingStreams_handlePoll, World.status_handlePoll,
    World.find_mPendingResponses_handlePoll]
  case responseEntry =>
    intro c' id r hr
    obtain ⟨-, hold⟩ := find_ne_none_of_if hr
    exact ⟨hold, (h.responseEntry c' id r hold).2.2.2⟩
  case streamEntry =>
    intro c' id p hp
    exact ⟨hp, (h.streamEntry c' id p hp).2.2.2.1⟩
  case log =>
    intro d o ho
    rw [World.log_handlePoll] at ho
    rcases mem_append_if ho with hold | ⟨rfl, hnew⟩
    · exact Or.inl hold
    · right
      intro r hr
      obtain ⟨id, hid, rfl⟩ := List.mem_map.mp hnew
      obtain rfl := Option.some.inj hr
      obtain ⟨r, hentry, -⟩ := (World.mem_failedIds cfg.world d id).mp hid
      obtain ⟨-, hlt, hconn, -⟩ := h.responseEntry d id r hentry
      exact ⟨hlt, hconn, if_pos ⟨rfl, hid⟩⟩
  all_goals simp +contextual

theorem serve (h : Owned cfg) {c id : ℕ} {s : StreamRef}
    (hs : cfg.world.mPendingStreams.find c id = some (some s)) :
    Owned { cfg with world := cfg.world.serveStream mg c id (some s) } := by
  obtain ⟨⟨n, -, hn⟩, hlt, hconn, -, hnone⟩ := h.streamEntry c id _ hs
  obtain rfl := Option.some.inj hn
  apply h.shrink
  constructor <;> try simp only [World.mRequestCounter_serveStream, World.made_serveStream,
    World.responses_serveStream, World.wakeups_serveStream, World.status_serveStream,
    World.mPendingResponses_serveStream, World.streams_serveStream,
    World.find_mPendingStreams_serveStream]
  case responseEntry =>
    intro c' id' r hr
    exact ⟨hr, (h.responseEntry c' id' r hr).2.2.2⟩
  case streamEntry =>
    intro c' id' p hp
    obtain ⟨-, hold⟩ := find_ne_none_of_if hp
    exact ⟨hold, (h.streamEntry c' id' p hold).2.2.2.1⟩
  case streamIdentity =>
    intro s
    rw [modifyAt_apply]
    split_ifs with heq
    · subst heq
      exact ⟨AsyncStream.mConn_serve _, AsyncStream.mId_serve _⟩
    · exact ⟨rfl, rfl⟩
  case completed =>
    intro s hstate
    rw [modifyAt_apply] at hstate
    split_ifs at hstate with heq
    · subst heq
      -- only the delivery of the end completes a stream
      by_cases hclose : (cfg.world.streams ⟨id, n⟩).mState = .close
      · exact Or.inr ⟨c, hs, if_pos ⟨hclose, rfl, rfl⟩⟩
      · left
        cases hst : (cfg.world.streams ⟨id, n⟩).mState <;>
          simp_all [AsyncStream.serve, AsyncStream.markFlush]
    · exact Or.inl hstate
  case log =>
    intro d o ho
    rw [World.log_serveStream] at ho
    rcases mem_append_if ho with hold | ⟨rfl, hnew⟩
    · exact Or.inl hold
    · right
      intro r hr
      obtain ⟨_, -, rfl⟩ := List.mem_map.mp hnew
      obtain rfl := Option.some.inj hr
      exact ⟨hlt, hconn, hnone⟩
  all_goals simp +contextual

theorem reply (h : Owned cfg) {c id : ℕ}
    (hr : cfg.world.mPendingResponses.find c id = some id) :
    Owned { cfg with world := cfg.world.reply mg c id id } := by
  obtain ⟨-, hlt, hconn, -⟩ := h.responseEntry c id id hr
  have hfield {β : Type} (field : AsyncResponse → β)
      (hkept : ∀ response : AsyncResponse, field response.markCompleted = field response) (r : ℕ) :
      field ((cfg.world.reply mg c id id).responses r) = field (cfg.world.responses r) :=
    field_modifyAt field hkept cfg.world.responses id r
  apply h.shrink
  constructor <;> try simp only [World.mRequestCounter_reply, World.made_reply, World.streams_reply,
    World.wakeups_reply, World.status_reply, World.mPendingStreams_reply,
    World.find_mPendingResponses_reply]
  case responseEntry =>
    intro c' id' r hr'
    obtain ⟨-, hold⟩ := find_ne_none_of_if hr'
    exact ⟨hold, (h.responseEntry c' id' r hold).2.2.2⟩
  case streamEntry =>
    intro c' id' p hp
    exact ⟨hp, (h.streamEntry c' id' p hp).2.2.2.1⟩
  case mConn => exact hfield AsyncResponse.mConn fun _ => rfl
  case mId => exact hfield AsyncResponse.mId fun _ => rfl
  case mStream => exact hfield AsyncResponse.mStream fun _ => rfl
  case mState =>
    intro r hst
    rw [World.responses_reply] at hst
    split_ifs at hst with heq
    · exact absurd hst (by simp [AsyncResponse.markCompleted])
    · exact hst
  case log =>
    intro d o ho
    rw [World.log_reply] at ho
    rcases mem_append_if ho with hold | ⟨rfl, hnew⟩
    · exact Or.inl hold
    · right
      intro r hr
      obtain rfl := List.mem_singleton.mp hnew
      obtain rfl := Option.some.inj hr
      exact ⟨hlt, hconn, if_pos ⟨rfl, rfl⟩⟩
  all_goals simp +contextual

/-- Writes for a request that has no entry. -/
theorem notFound (h : Owned cfg) {c id : ℕ} (hlt : id < cfg.world.mRequestCounter)
    (hconn : (cfg.world.responses id).mConn = c)
    (hnone : cfg.world.mPendingResponses.find c id = none) (o : Write) :
    Owned { cfg with world := cfg.world.write mg c (.notFound id) o } := by
  apply h.shrink
  constructor <;> try simp only [World.toEndpoint_write, World.responses_write, World.streams_write,
    World.made_write, World.wakeups_write, World.status_write]
  case responseEntry =>
    intro c' id' r hr
    exact ⟨hr, (h.responseEntry c' id' r hr).2.2.2⟩
  case streamEntry =>
    intro c' id' p hp
    exact ⟨hp, (h.streamEntry c' id' p hp).2.2.2.1⟩
  case log =>
    intro d o' ho
    rw [World.log_write] at ho
    rcases mem_append_if ho with hold | ⟨rfl, hnew⟩
    · exact Or.inl hold
    · right
      intro r hr
      obtain rfl := List.mem_singleton.mp hnew
      obtain rfl := Option.some.inj hr
      exact ⟨hlt, hconn, hnone⟩
  all_goals simp +contextual

/-- The hand-off moves the entry and the stream of a streaming response. -/
theorem handOff (h : Owned cfg) {c id : ℕ}
    (hr : cfg.world.mPendingResponses.find c id = some id)
    (hstate : (cfg.world.responses id).mState = .streaming) :
    Owned { cfg with world := cfg.world.handOff c id id } := by
  obtain ⟨-, hlt, hconn, hlive⟩ := h.responseEntry c id id hr
  have hne : cfg.world.mPendingResponses.find c id ≠ none := by simp [hr]
  obtain ⟨s, hs⟩ := Option.ne_none_iff_exists'.mp (h.streaming c id hne hstate)
  obtain ⟨hresp, hnum, hopen⟩ := h.held id s hlt hs
  have hresponse : ∀ r, (cfg.world.handOff c id id).responses r =
      if r = id then (cfg.world.responses id).getStream.2 else cfg.world.responses r :=
    World.responses_handOff cfg.world c id id
  have hmConn : ∀ r, ((cfg.world.handOff c id id).responses r).mConn =
      (cfg.world.responses r).mConn :=
    field_modifyAt (g := fun response => response.getStream.2) AsyncResponse.mConn (fun _ => rfl)
      cfg.world.responses id
  have hmId : ∀ r, ((cfg.world.handOff c id id).responses r).mId =
      (cfg.world.responses r).mId :=
    field_modifyAt (g := fun response => response.getStream.2) AsyncResponse.mId (fun _ => rfl)
      cfg.world.responses id
  have hmStream : ∀ r s, ((cfg.world.handOff c id id).responses r).mStream = some s →
      r ≠ id ∧ (cfg.world.responses r).mStream = some s := by
    intro r s hrs
    rw [hresponse] at hrs
    split_ifs at hrs with heq
    · simp at hrs
    · exact ⟨heq, hrs⟩
  -- the response that lets go of its stream is the one that leaves its table
  have hentry : ∀ c' r, (cfg.world.handOff c id id).mPendingResponses.find c' r ≠ none →
      r ≠ id ∧ cfg.world.mPendingResponses.find c' r ≠ none := by
    intro c' r hr'
    rw [World.find_mPendingResponses_handOff] at hr'
    split_ifs at hr' with heq
    · exact absurd rfl hr'
    · refine ⟨?_, hr'⟩
      rintro rfl
      obtain ⟨r', hentry⟩ := Option.ne_none_iff_exists'.mp hr'
      have := (h.responseEntry c' r r' hentry).2.2.1
      exact heq ⟨this.symm.trans hconn, rfl⟩
  constructor <;> try simp only [hmConn, hmId]
  case responseEntry =>
    intro c' id' r hr'
    rw [World.find_mPendingResponses_handOff] at hr'
    exact h.responseEntry c' id' r (find_ne_none_of_if hr').2
  case streamEntry =>
    intro c' id' p hp
    rw [World.find_mPendingStreams_handOff] at hp
    rw [World.find_mPendingResponses_handOff]
    split_ifs at hp with heq
    · obtain ⟨rfl, rfl⟩ := heq
      obtain rfl := Option.some.inj hp
      refine ⟨⟨s.number, hnum, ?_⟩, hlt, hconn, hlive, if_pos ⟨rfl, rfl⟩⟩
      rw [hs, ← hresp]
    · rw [if_neg heq]
      exact h.streamEntry c' id' p hp
  case tabled =>
    intro c' id' s' hs'
    rw [World.find_mPendingStreams_handOff] at hs'
    refine ⟨?_, fun hheld => ?_⟩
    · split_ifs at hs' with heq
      · obtain rfl : s = s' := by simpa [hs] using hs'
        exact hopen
      · exact (h.tabled c' id' s' hs').1
    · obtain ⟨hne', hheld⟩ := hmStream id' s' hheld
      rw [if_neg fun heq => hne' heq.2] at hs'
      exact (h.tabled c' id' s' hs').2 hheld
  case held =>
    intro r s' hlt' hs'
    exact h.held r s' hlt' (hmStream r s' hs').2
  case identity => exact h.identity
  case streamIdentity => exact h.streamIdentity
  case streaming =>
    intro c' r hr' hst
    obtain ⟨hne', hr'⟩ := hentry c' r hr'
    rw [hresponse, if_neg hne'] at hst ⊢
    exact h.streaming c' r hr' hst
  case opened =>
    intro t c' r hpc hr'
    obtain ⟨hne', hr'⟩ := hentry c' r hr'
    rw [hresponse, if_neg hne']
    exact h.opened t c' r hpc hr'
  case wakeup => exact h.wakeup
  case thread => exact h.thread
  case threadStream => exact h.threadStream
  case returned => exact h.returned
  case unborn => exact h.unborn
  case output => exact h.output
  case unwritten =>
    intro c' r o hr'
    exact h.unwritten c' r o (hentry c' r hr').2

theorem handleWakeup (h : Owned cfg) {c id : ℕ} (hid : id < cfg.world.mRequestCounter)
    (hconn : (cfg.world.responses id).mConn = c) :
    Owned { cfg with world := cfg.world.handleWakeup mg c id } := by
  cases hs : cfg.world.mPendingStreams.find c id with
  | some p =>
      obtain ⟨⟨n, -, rfl⟩, -⟩ := h.streamEntry c id p hs
      rw [World.handleWakeup_of_stream hs]
      exact h.serve hs
  | none =>
      cases hr : cfg.world.mPendingResponses.find c id with
      | none =>
          rw [World.handleWakeup_of_none hs hr]
          exact (h.notFound hid hconn hr _).notFound hid hconn hr _
      | some r =>
          obtain ⟨rfl, -⟩ := h.responseEntry c id r hr
          by_cases hstate : (cfg.world.responses r).mState = .streaming
          · obtain ⟨s, hheld⟩ := Option.ne_none_iff_exists'.mp
              (h.streaming c r (by simp [hr]) hstate)
            rw [World.handleWakeup_of_streaming hs hr hstate, hheld]
            refine (h.handOff hr hstate).serve ?_
            simp [World.find_mPendingStreams_handOff, hheld]
          · rw [World.handleWakeup_of_response hs hr hstate]
            exact h.reply hr

/-- A new request: its response is entered under the value of the counter. -/
theorem addResponse (h : Owned cfg) {c : ℕ} (hlive : (cfg.world.connections c).status = .live) :
    Owned { cfg with world := cfg.world.addResponse c } := by
  have hresponse : ∀ r, (cfg.world.addResponse c).responses r =
      if r = cfg.world.mRequestCounter then { mConn := c, mId := cfg.world.mRequestCounter }
      else cfg.world.responses r := fun r => by simp only [World.addResponse, modifyAt_apply]
  have hentry : ∀ c' r, (cfg.world.addResponse c).mPendingResponses.find c' r =
      if c' = c ∧ r = cfg.world.mRequestCounter then some cfg.world.mRequestCounter
      else cfg.world.mPendingResponses.find c' r := fun c' r => NestedMap.find_set ..
  have hold : ∀ r, r < cfg.world.mRequestCounter →
      (cfg.world.addResponse c).responses r = cfg.world.responses r := fun r hr => by
    rw [hresponse, if_neg (Nat.ne_of_lt hr)]
  have hnew : (cfg.world.addResponse c).responses cfg.world.mRequestCounter =
      { mConn := c, mId := cfg.world.mRequestCounter } := by rw [hresponse, if_pos rfl]
  have hmade : cfg.world.made cfg.world.mRequestCounter = 0 := (h.unborn _ le_rfl).1
  -- an id is either new or was in use before
  have hcases : ∀ r, r < (cfg.world.addResponse c).mRequestCounter →
      r = cfg.world.mRequestCounter ∨ r < cfg.world.mRequestCounter := fun r hr =>
    (Nat.lt_succ_iff_lt_or_eq.mp hr).symm
  have hpresent : ∀ c' r, (cfg.world.addResponse c).mPendingResponses.find c' r ≠ none →
      r = cfg.world.mRequestCounter ∨ r < cfg.world.mRequestCounter ∧
        cfg.world.mPendingResponses.find c' r ≠ none := by
    intro c' r hr
    rw [hentry] at hr
    split_ifs at hr with hnew
    · exact Or.inl hnew.2
    · obtain ⟨r', hr'⟩ := Option.ne_none_iff_exists'.mp hr
      exact Or.inr ⟨(h.responseEntry c' r r' hr').2.1, hr⟩
  constructor <;> simp only
  case responseEntry =>
    intro c' id r hr
    rw [hentry] at hr
    split_ifs at hr with heq
    · obtain ⟨rfl, rfl⟩ := heq
      refine ⟨(Option.some.inj hr).symm, Nat.lt_succ_self _, ?_, hlive⟩
      rw [hnew]
    · obtain ⟨hid, hlt, hconn, hlive'⟩ := h.responseEntry c' id r hr
      exact ⟨hid, Nat.lt_succ_of_lt hlt, by rwa [hold id hlt], hlive'⟩
  case streamEntry =>
    intro c' id p hp
    obtain ⟨hn, hlt, hconn, hlive', hnone⟩ := h.streamEntry c' id p hp
    refine ⟨hn, Nat.lt_succ_of_lt hlt, by rwa [hold id hlt], hlive', ?_⟩
    rw [hentry, if_neg fun heq => Nat.ne_of_lt hlt heq.2, hnone]
  case tabled =>
    intro c' id s hs
    rw [hold id (h.streamEntry c' id _ hs).2.1]
    exact h.tabled c' id s hs
  case held =>
    intro r s hr hs
    rcases hcases r hr with rfl | hlt
    · rw [hnew] at hs
      exact absurd hs (by simp)
    · rw [hold r hlt] at hs
      exact h.held r s hlt hs
  case identity =>
    intro r hr
    rcases hcases r hr with rfl | hlt
    · rw [hnew]
      exact ⟨rfl, fun hunused => by simp [World.addResponse, hlive] at hunused⟩
    · rw [hold r hlt]
      exact h.identity r hlt
  case streamIdentity =>
    intro r n hn
    have hlt : r < cfg.world.mRequestCounter := by
      by_contra hge
      have hzero := (h.unborn r (Nat.le_of_not_lt hge)).1
      simp only [World.addResponse, hzero] at hn
      exact Nat.not_lt_zero n hn
    rw [hold r hlt]
    exact h.streamIdentity r n hn
  case streaming =>
    intro c' r hr hst
    rcases hpresent c' r hr with rfl | ⟨hlt, hr⟩
    · rw [hnew] at hst
      exact absurd hst (by simp)
    · rw [hold r hlt] at hst ⊢
      exact h.streaming c' r hr hst
  case opened =>
    intro t c' r hpc hr
    have hlt : r < cfg.world.mRequestCounter := by
      refine h.thread t r ?_
      rcases hpc with hpc | hpc <;> rw [hpc] <;> rfl
    rcases hpresent c' r hr with rfl | ⟨-, hr⟩
    · exact absurd hlt (Nat.lt_irrefl _)
    · rw [hold r hlt]
      exact h.opened t c' r hpc hr
  case wakeup =>
    intro c' id hmem
    obtain ⟨hlt, hconn⟩ := h.wakeup c' id hmem
    exact ⟨Nat.lt_succ_of_lt hlt, by rwa [hold id hlt]⟩
  case thread => exact fun t r hr => Nat.lt_succ_of_lt (h.thread t r hr)
  case threadStream => exact h.threadStream
  case returned => exact h.returned
  case unborn => exact fun r hr => h.unborn r (Nat.le_of_succ_le hr)
  case output =>
    intro d o r ho hr
    obtain ⟨hlt, hconn⟩ := h.output d o r ho hr
    exact ⟨Nat.lt_succ_of_lt hlt, by rwa [hold r hlt]⟩
  case unwritten =>
    intro c' r o hr ho hsource
    rcases hpresent c' r hr with rfl | ⟨-, hr⟩
    · exact absurd (h.output c' o _ ho hsource).1 (Nat.lt_irrefl _)
    · exact h.unwritten c' r o hr ho hsource

/-- Connections may change as long as none closes and nothing is written for an
asynchronous request. -/
theorem reconnect (h : Owned cfg) {conns : ℕ → Connection}
    (hlive : ∀ d, (cfg.world.connections d).status = .live → (conns d).status = .live)
    (hused : ∀ d, (cfg.world.connections d).status ≠ .unused → (conns d).status ≠ .unused)
    (hlog : ∀ d, ∃ out, (conns d).log = (cfg.world.connections d).log ++ out ∧
      ∀ o ∈ out, o.source.request = none) :
    Owned { cfg with world := { cfg.world with connections := conns } } := by
  apply h.shrink
  constructor <;> try simp only
  case responseEntry =>
    intro c id r hr
    exact ⟨hr, hlive c (h.responseEntry c id r hr).2.2.2⟩
  case streamEntry =>
    intro c id p hp
    exact ⟨hp, hlive c (h.streamEntry c id p hp).2.2.2.1⟩
  case status => exact hused
  case log =>
    intro d o ho
    obtain ⟨out, hout, hnone⟩ := hlog d
    rw [hout, List.mem_append] at ho
    rcases ho with hold | hnew
    · exact Or.inl hold
    · right
      intro r hr
      rw [hnone o hnew] at hr
      exact absurd hr (by simp)
  all_goals simp +contextual

theorem handleHttpMessage (h : Owned cfg) {c : ℕ} (hlive : (cfg.world.connections c).status = .live)
    (msg : HttpMessage) (calls : List ResponseCall) :
    Owned { cfg with world := cfg.world.handleHttpMessage mg c msg calls } := by
  rcases World.handleHttpMessage_cases mg cfg.world c msg calls with
    hadd | ⟨conns, hconns, hacts⟩
  · rw [hadd]
    exact h.addResponse hlive
  · rw [hconns]
    have hstatus (d : ℕ) : (conns d).status = (cfg.world.connections d).status := by
      by_cases hd : d = c
      · subst d
        exact hacts.status
      · rw [hacts.others d hd]
    refine h.reconnect (fun d hd => (hstatus d).trans hd) (fun d hd => hstatus d ▸ hd) ?_
    intro d
    by_cases hd : d = c
    · subst d
      obtain ⟨out, hlog, hout⟩ := hacts.log
      exact ⟨out, hlog, fun o ho => by rw [hout o ho]; rfl⟩
    · exact ⟨[], by simp [hacts.others d hd], by simp⟩

theorem clearSent (h : Owned cfg) (c : ℕ) :
    Owned { cfg with world := cfg.world.clearSent c } := by
  refine h.reconnect (fun d hd => ?_) (fun d hd => ?_) fun d => ⟨[], ?_, by simp⟩
  · exact (World.status_clearSent ..).trans hd
  · exact (World.status_clearSent cfg.world c d).symm ▸ hd
  · exact (World.log_clearSent ..).trans (List.append_nil _).symm

theorem handleWrite (h : Owned cfg) (c : ℕ) :
    Owned { cfg with world := cfg.world.handleWrite mg c } := by
  apply h.shrink
  constructor <;> try simp only [World.toEndpoint_handleWrite, World.made_handleWrite,
    World.responses_handleWrite, World.wakeups_handleWrite, World.status_handleWrite]
  case responseEntry =>
    intro c' id r hr
    exact ⟨hr, (h.responseEntry c' id r hr).2.2.2⟩
  case streamEntry =>
    intro c' id p hp
    exact ⟨hp, (h.streamEntry c' id p hp).2.2.2.1⟩
  case streamIdentity =>
    intro s
    rw [World.streams_handleWrite]
    split_ifs
    · exact ⟨AsyncStream.mConn_release _ _, AsyncStream.mId_release _ _⟩
    · exact ⟨rfl, rfl⟩
  case completed =>
    intro s hs
    left
    rw [World.streams_handleWrite] at hs
    split_ifs at hs
    · unfold AsyncStream.release at hs
      split_ifs at hs
      · simp [AsyncStream.markEmpty] at hs
      · exact hs
    · exact hs
  case log =>
    intro d o ho
    obtain ⟨out, hout, hsource⟩ := World.log_handleWrite mg cfg.world c d
    rw [hout, List.mem_append] at ho
    rcases ho with hold | hnew
    · exact Or.inl hold
    · right
      intro r hr
      rw [hsource o hnew] at hr
      exact absurd hr (by simp [Source.request])
  all_goals simp +contextual

theorem close (h : Owned cfg) (c : ℕ) :
    Owned { cfg with world := (cfg.world.handleClose c).forget c } := by
  have hstatus (d : ℕ) : (((cfg.world.handleClose c).forget c).connections d).status =
      if d = c then .closed else (cfg.world.connections d).status := by
    rw [World.status_forget, World.status_handleClose]
  have hfield {β : Type} (field : AsyncResponse → β)
      (hkept : ∀ response : AsyncResponse, field response.markFailed = field response) (r : ℕ) :
      field ((cfg.world.handleClose c).responses r) = field (cfg.world.responses r) := by
    rw [World.responses_handleClose]
    split_ifs
    · exact hkept _
    · rfl
  apply h.shrink
  constructor
  case mRequestCounter => exact World.mRequestCounter_handleClose ..
  case made => exact World.made_handleClose ..
  case responseEntry =>
    intro c' id r hr
    obtain ⟨hne, hold⟩ := find_ne_none_of_if
      ((World.find_mPendingResponses_handleClose cfg.world c c' id).symm.trans hr)
    rw [hstatus, if_neg hne]
    exact ⟨hold, (h.responseEntry c' id r hold).2.2.2⟩
  case streamEntry =>
    intro c' id p hp
    obtain ⟨hne, hold⟩ := find_ne_none_of_if
      ((World.find_mPendingStreams_handleClose cfg.world c c' id).symm.trans hp)
    rw [hstatus, if_neg hne]
    exact ⟨hold, (h.streamEntry c' id p hold).2.2.2.1⟩
  case status =>
    intro d hd
    rw [hstatus]
    split_ifs
    · simp
    · exact hd
  case mConn => exact hfield AsyncResponse.mConn fun _ => rfl
  case mId => exact hfield AsyncResponse.mId fun _ => rfl
  case mStream => exact hfield AsyncResponse.mStream fun _ => rfl
  case mState =>
    intro r hst
    change ((cfg.world.handleClose c).responses r).mState = _ at hst
    rw [World.responses_handleClose] at hst
    split_ifs at hst
    · exact absurd hst (by simp [AsyncResponse.markFailed])
    · exact hst
  case streamIdentity =>
    intro s
    change ((cfg.world.handleClose c).streams s).mConn = _ ∧
      ((cfg.world.handleClose c).streams s).mId = _
    rw [World.streams_handleClose]
    split_ifs <;> exact ⟨rfl, rfl⟩
  case completed =>
    intro s hs
    left
    change ((cfg.world.handleClose c).streams s).mState = _ at hs
    rw [World.streams_handleClose] at hs
    split_ifs at hs
    · simp [AsyncStream.markFailed] at hs
    · exact hs
  case wakeups => exact fun x hx => World.wakeups_handleClose cfg.world c ▸ hx
  case log =>
    intro d o ho
    left
    by_cases hd : d = c
    · subst d
      simpa [World.forget] using ho
    · simpa [World.forget, modifyAt_of_ne hd] using ho

/-- A wake-up is taken off the queue, and its delivery recorded. -/
theorem take (h : Owned cfg) {c id : ℕ} (hmem : (c, id) ∈ cfg.world.wakeups) :
    Owned { cfg with
      world := cfg.world.take c id
      history := Config.record cfg.history (.wakeup c id) } := by
  have htake : Owned { cfg with world := cfg.world.take c id } := by
    apply h.shrink
    constructor <;> try simp only [World.take]
    case responseEntry => exact fun c id r hr => ⟨hr, (h.responseEntry c id r hr).2.2.2⟩
    case streamEntry => exact fun c id p hp => ⟨hp, (h.streamEntry c id p hp).2.2.2.1⟩
    case wakeups => exact fun x hx => List.mem_of_mem_erase hx
    all_goals simp +contextual
  refine { htake with returned := ?_, unborn := ?_ } <;> intro r
  · simp only [Config.record, modifyAt_apply]
    split_ifs with hr
    · exact hr ▸ h.returned id
    · exact h.returned r
  · intro hr
    have hne : r ≠ id := Nat.ne_of_gt (Nat.lt_of_lt_of_le (h.wakeup c id hmem).1 hr)
    simp only [Config.record, modifyAt_of_ne hne]
    exact h.unborn r hr

theorem loop (h : Owned cfg) {e : LoopEvent} {w : World}
    (hstep : cfg.world.loopStep mg e = some w) :
    Owned { cfg with world := w, history := Config.record cfg.history e } := by
  obtain ⟨hraises, rfl⟩ := World.loopStep_eq_some.mp hstep
  cases e with
  | accept c =>
      refine h.reconnect ?_ ?_ ?_ <;> intro d <;> by_cases hd : d = c <;>
        simp_all [modifyAt_of_ne]
  | poll c => exact h.poll c
  | httpMessage c msg calls => exact h.handleHttpMessage hraises msg calls
  | wakeup c id =>
      obtain ⟨hid, hconn⟩ := h.wakeup c id hraises.2
      exact (h.take hraises.2).handleWakeup hid hconn
  | write c => exact (h.clearSent c).handleWrite c
  | close c => exact h.close c
  | mongoose c send =>
      refine h.reconnect ?_ ?_ ?_ <;> intro d <;> by_cases hd : d = c <;>
        simp_all [modifyAt_of_ne]

end Owned

end Mgxx.Http
