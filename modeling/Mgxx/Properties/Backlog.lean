import Mgxx.Properties.Flushing
import Mgxx.Properties.BackPressure
import Mgxx.Properties.Isolation
import Mgxx.Properties.Producers
import Mgxx.Properties.Turns

/-!
How much of an asynchronous stream waits in the send buffer.
-/

namespace Mgxx.Http

open Mgxx.Library

/-- The buffer of a connection and the state of the stream it carries: room wherever a chunk
may be on its way. -/
structure Connection.Contained (mg : Mongoose) (conn : Connection) (preamble : Bytes)
    (base M : ℕ) (state : AsyncStream.State) : Prop where
  producer : conn.fnData.bind RemoteContext.mStream = none
  limit : conn.send.length ≤ max base (sendLimit mg M)
  start : state = .start → conn.send.length + preamble.length ≤ base
  room : state = .empty ∨ state = .hasData ∨ state = .close → conn.send.length < mg.ioSize

namespace Connection.Contained

variable {mg : Mongoose} {conn conn' : Connection} {preamble : Bytes} {base M : ℕ}
  {state state' : AsyncStream.State}

/-- The state changes, but nothing is written. -/
theorem change (h : conn.Contained mg preamble base M state)
    (hstart : state' = .start → state = .start)
    (hroom : state' = .empty ∨ state' = .hasData ∨ state' = .close →
      conn.send.length < mg.ioSize) : conn.Contained mg preamble base M state' :=
  ⟨h.producer, h.limit, fun hs => h.start (hstart hs), hroom⟩

theorem drain (h : conn.Contained mg preamble base M state) {send : Bytes}
    (hsend : send <:+ conn.send) (sent : Bool) :
    Contained mg { conn with send := send, sent := sent } preamble base M state := by
  have hle := hsend.length_le
  exact ⟨h.producer, hle.trans h.limit,
    fun hs => (Nat.add_le_add_right hle _).trans (h.start hs),
    fun hs => Nat.lt_of_le_of_lt hle (h.room hs)⟩

/-- There is no callback to ask. -/
theorem pump (h : conn.Contained mg preamble base M state) : conn.pumpStream mg = conn := by
  simp only [pumpStream, h.producer]

/-- What is written fits, and the slot is not free after it. -/
theorem append (hproducer : conn'.fnData.bind RemoteContext.mStream = none) {bytes : Bytes}
    (hsend : conn'.send = conn.send ++ bytes)
    (hfits : conn.send.length + bytes.length ≤ max base (sendLimit mg M))
    (hstate : state' = .flush ∨ state' = .completed) :
    conn'.Contained mg preamble base M state' := by
  refine ⟨hproducer, ?_, ?_, ?_⟩
  · rwa [hsend, List.length_append]
  · rcases hstate with rfl | rfl <;> simp
  · rcases hstate with rfl | rfl <;> simp

end Connection.Contained

namespace Config

variable {mg : Mongoose} {cfg cfg' cfg₀ cfg₁ : Config} {r base M : ℕ} {s : StreamRef}
  {preamble : Bytes}

/-- Nothing is written on the connection of the request but what its stream gives, and no event
of another connection lets its producer go on while its buffer is full. -/
def OnlyFeeds (mg : Mongoose) (r : ℕ) (cfg : Config) : Event → Prop
  | .loop e => (e = .wakeup (cfg.conn r) r ∨ e.Drains mg cfg.world (cfg.conn r)) ∧
      (e.conn ≠ cfg.conn r → cfg.world.Releases mg e (cfg.conn r) →
        (cfg.world.connections (cfg.conn r)).send.length < mg.ioSize)
  | .headers _ _ | .begin _ _ _ | .wait _ _ | .put _ _ _ | .advance _ _ => True

/-- What the producer has sent stays sent. -/
theorem puts_subset_step {e : Event} (hstep : cfg.step mg e = some cfg') (n : ℕ) :
    (cfg.history r).puts n ⊆ (cfg'.history r).puts n := by
  intro op hop
  refine history_step (P := fun history => op ∈ history.puts n) (fun _ => id)
    (fun q call h => ?_) (fun q s op' h => ?_) (fun q answer pc h => ?_) hstep hop
  · rwa [Shared.puts_begin]
  · show op ∈ Function.update q.history.puts s.number _ n
    rw [Function.update_apply]
    split_ifs with hn
    · exact List.mem_append_left _ (hn ▸ h)
    · exact h
  · rwa [Shared.puts_advance]

/-- A wake-up of the request writes the preamble or a chunk, and only where there is room. -/
theorem contained_wakeup (hchunk : mg.mgHttpWriteChunk = Chunked.encodeChunk) {limit : ℕ}
    (howned : Owned cfg) (hr : r < cfg.world.mRequestCounter)
    (hstreaming : Progress.Streaming .any limit r s preamble (cfg.view r).progress)
    (h : (cfg.world.connections (cfg.conn r)).Contained mg preamble base M
      (cfg.world.streams s).mState)
    (hM : ∀ op ∈ (cfg.history r).puts s.number, op.data.length ≤ M)
    (hstep : cfg.step mg (.loop (.wakeup (cfg.conn r) r)) = some cfg') (hopen : cfg'.IsOpen r) :
    (cfg'.world.connections (cfg.conn r)).Contained mg preamble base M
      (cfg'.world.streams s).mState := by
  have hview := view_step mg howned hr hstep hopen
  simp only [Event.about, if_pos] at hview
  obtain ⟨hflight, hdeliver⟩ := View.step_deliver hview
  obtain ⟨out, hout, hsources⟩ := exists_appends_wakeup mg howned (cfg.conn r) r
  obtain ⟨-, hcfg'⟩ := step_loop hstep
  have hworld : cfg'.world = cfg.world.handle mg (.wakeup (cfg.conn r) r) := by rw [hcfg']
  rw [← hworld] at hout
  have houtputs : ((cfg.view r).deliver r).outputs = (cfg.view r).outputs ++ out := by
    rw [← hdeliver, outputs_of_appends (conn_step howned hr hstep) hout, List.filter_eq_self.mpr]
    exact fun o ho => decide_eq_true (hsources o ho)
  have hproducer : (cfg'.world.connections (cfg.conn r)).fnData.bind RemoteContext.mStream =
      none := by
    rw [hworld]
    simpa [World.handle, World.take] using h.producer
  have hresponse := hstreaming.owes.response
  have hstate' : ((cfg.view r).deliver r).shared.stream s.number = cfg'.world.streams s := by
    rw [← hdeliver]
    subst hresponse
    rfl
  have hstate : (cfg.view r).shared.stream s.number = cfg.world.streams s := by
    subst hresponse
    rfl
  rcases hstreaming.serves_deliver hflight with ⟨hstart, hflush, hwritten⟩ |
    ⟨op, hop, hfull, hserved, hwritten⟩
  · rw [hstate] at hstart
    rw [hstate'] at hflush
    obtain rfl := List.append_cancel_left (houtputs.symm.trans hwritten)
    refine .append hproducer hout.send ?_ (Or.inl hflush)
    have hbase := h.start hstart
    simp only [outputBytes, List.flatMap_singleton, Write.bytes]
    omega
  · rw [hstate] at hfull
    rw [hstate'] at hserved
    obtain rfl := List.append_cancel_left (houtputs.symm.trans hwritten)
    refine .append hproducer hout.send ?_ hserved
    have hroom : (cfg.world.connections (cfg.conn r)).send.length < mg.ioSize := by
      refine h.room (Or.inr ?_)
      rw [hfull]
      cases op <;> simp [Put.state]
    have hsize := length_encodeChunk_le (hM op hop)
    simp only [outputBytes, List.flatMap_singleton, Put.output, Write.bytes, hchunk, sendLimit]
    omega

/-- A write event of the connection itself frees the slot only when there is room. -/
theorem room_of_releases {c : ℕ} {state : AsyncStream.State}
    (h : (cfg.world.connections c).Contained mg preamble base M state) {e : LoopEvent}
    (hother : e.conn ≠ c → cfg.world.Releases mg e c →
      (cfg.world.connections c).send.length < mg.ioSize)
    (hreleases : cfg.world.Releases mg e c) :
    (cfg.world.connections c).send.length < mg.ioSize := by
  by_cases hc : e.conn = c
  · have hroom := of_decide_eq_false hreleases.2.1
    simp only [hc, World.pumpStream, modifyAt_self, h.pump] at hroom
    exact Nat.lt_of_not_le hroom
  · exact hother hc hreleases

/-- An event of the loop that writes nothing for the stream. -/
theorem contained_slot (howned : Owned cfg) {e : LoopEvent}
    (h : (cfg.world.connections (cfg.conn s.response)).Contained mg preamble base M
      (cfg.world.streams s).mState)
    (hreleases : e.conn ≠ cfg.conn s.response → cfg.world.Releases mg e (cfg.conn s.response) →
      (cfg.world.connections (cfg.conn s.response)).send.length < mg.ioSize) :
    (cfg.world.connections (cfg.conn s.response)).Contained mg preamble base M
      ((cfg.world.handle mg e).streams s).mState := by
  rcases World.streams_handle mg cfg.world e s with
    hsame | hserve | ⟨hwrite, htable, hrelease⟩ | ⟨-, -, hfailed⟩
  · rwa [hsame]
  · rw [hserve]
    cases hstate : (cfg.world.streams s).mState <;>
      simp only [AsyncStream.serve, hstate, AsyncStream.markFlush, AsyncStream.markCompleted,
        AsyncStream.mState_store] <;> rw [hstate] at h <;>
      first | exact h | exact h.change (by simp) (by simp)
  · rw [hrelease, AsyncStream.release]
    split_ifs with hfree
    · -- the stream is in the table of its own connection
      obtain ⟨c, id, hfind⟩ := (World.mem_tableStreams ..).mp htable
      have hconn : cfg.conn s.response = c := howned.mConn_of_streamEntry hfind
      refine h.change (fun hs => absurd hs (by simp [AsyncStream.markEmpty])) fun _ => ?_
      exact room_of_releases h hreleases ⟨hwrite, hfree.2, id, s, hconn ▸ hfind, hfree.1⟩
    · exact h
  · rw [hfailed]
    exact h.change (by simp [AsyncStream.markFailed]) (by simp [AsyncStream.markFailed])

theorem contained_step (hchunk : mg.mgHttpWriteChunk = Chunked.encodeChunk) {limit : ℕ} {e : Event}
    (howned : Owned cfg) (hr : s.response < cfg.world.mRequestCounter)
    (hstreaming : Progress.Streaming .any limit s.response s preamble
      (cfg.view s.response).progress)
    (h : (cfg.world.connections (cfg.conn s.response)).Contained mg preamble base M
      (cfg.world.streams s).mState)
    (hM : ∀ op ∈ (cfg.history s.response).puts s.number, op.data.length ≤ M)
    (hok : cfg.OnlyFeeds mg s.response e) (hstep : cfg.step mg e = some cfg')
    (hopen : cfg'.IsOpen s.response) :
    (cfg'.world.connections (cfg.conn s.response)).Contained mg preamble base M
      (cfg'.world.streams s).mState := by
  have hview := view_step mg howned hr hstep hopen
  rcases step_cases hstep with ⟨e, rfl, -, rfl⟩ | ⟨hnot, hconnections, -⟩
  · obtain ⟨hdrains, hreleases⟩ := hok
    have hslot := contained_slot howned h hreleases
    rcases hdrains with rfl | rfl | ⟨send, rfl, hsend⟩ | hsame
    · exact contained_wakeup hchunk howned hr hstreaming h hM hstep hopen
    · rw [World.connections_handle_write, modifyAt_self, h.pump]
      exact hslot.drain List.suffix_rfl false
    · simp only [World.handle, World.setSend, modifyAt_self] at hslot ⊢
      exact hslot.drain hsend _
    · rwa [hsame]
  · rw [hconnections]
    have hstate : (cfg'.world.streams s).mState = (cfg.world.streams s).mState ∨
        (cfg.world.streams s).mState = .empty ∧
          (∃ op : Put, (cfg'.world.streams s).mState = op.state) ∨
        (cfg'.world.streams s).mState = .failed := by
      cases habout : e.about mg cfg s.response with
      | none =>
          rw [habout] at hview
          exact Or.inl (congrArg (fun v => (v.shared.stream s.number).mState) hview)
      | some ve =>
          rw [habout] at hview
          refine hstreaming.mState_step ?_ ?_ hview
          · rintro rfl
            obtain ⟨c, rfl⟩ := event_of_about habout
            exact hnot _ rfl
          · rintro blocked rfl
            obtain ⟨c, rfl, -⟩ := event_of_about habout
            exact hnot _ rfl
    rcases hstate with hsame | ⟨hempty, op, hfull⟩ | hfailed
    · rwa [hsame]
    · refine h.change (fun hs => ?_) fun _ => h.room (Or.inl hempty)
      rw [hfull] at hs
      cases op <;> simp [Put.state] at hs
    · rw [hfailed]
      exact h.change (by simp) (by simp)

/-- From its hand-over on, an asynchronous stream keeps the send buffer of its connection within
the limit of a synchronous one, provided that the connection has no synchronous stream and that no
write event of another connection lets the producer go on while the buffer is full. -/
theorem async_back_pressure (hchunk : mg.mgHttpWriteChunk = Chunked.encodeChunk)
    (hinit : cfg₀.Initial) (h₁ : Reaches (step mg) anyEvent cfg₀ cfg₁)
    (hhanded : cfg₁.HandedOver r s)
    (hproducer : (cfg₁.world.connections (cfg₁.conn r)).fnData.bind RemoteContext.mStream = none)
    (h : Reaches (step mg) (fun cfg e => cfg.Conforming r e ∧ cfg.OnlyFeeds mg r e) cfg₁ cfg)
    (hopen : cfg.IsOpen r) (hM : ∀ op ∈ (cfg.history r).puts s.number, op.data.length ≤ M) :
    (cfg.world.connections (cfg.conn r)).send.length ≤
      max ((cfg₁.world.connections (cfg₁.conn r)).send.length +
        (cfg₁.world.streams s).mData.length)
        (mg.ioSize - 1 + M + (Nat.digits 16 (max M 1)).length + 4) := by
  have howned₁ := Owned.of_reaches hinit h₁
  obtain ⟨-, hr₁, -, -⟩ := howned₁.responseEntry _ _ _ hhanded.entry
  obtain ⟨rfl, -, -⟩ := howned₁.held r s hr₁ hhanded.mStream
  suffices hcontained : (cfg.world.connections (cfg.conn s.response)).Contained mg
      (cfg₁.world.streams s).mData ((cfg₁.world.connections (cfg₁.conn s.response)).send.length +
        (cfg₁.world.streams s).mData.length) M (cfg.world.streams s).mState from hcontained.limit
  refine h.invariant_of
    (J := fun cfg => Reaches (step mg) (Conforming s.response) cfg₁ cfg)
    (P := fun cfg => cfg.IsOpen s.response →
      (∀ op ∈ (cfg.history s.response).puts s.number, op.data.length ≤ M) →
      (cfg.world.connections (cfg.conn s.response)).Contained mg (cfg₁.world.streams s).mData
        ((cfg₁.world.connections (cfg₁.conn s.response)).send.length +
          (cfg₁.world.streams s).mData.length) M (cfg.world.streams s).mState)
    (fun _ h => h.mono fun _ _ hok => hok.1) ?_ ?_ hopen hM
  · intro _ _
    refine ⟨hproducer, ?_, fun _ => le_rfl, ?_⟩
    · exact (Nat.le_add_right _ _).trans (Nat.le_max_left _ _)
    · rw [hhanded.start]
      simp
  · intro cfg e cfg' hreaches hcontained hok hstep hopen hM
    have howned := Owned.of_reaches hinit (h₁.trans (hreaches.mono fun _ _ _ => trivial))
    have hr := Nat.lt_of_lt_of_le hr₁ (mRequestCounter_le_of_reaches hreaches)
    have hbefore := isOpen_of_step howned hr hstep hopen
    have hM' := fun op hop => hM op (puts_subset_step hstep _ hop)
    rw [conn_step howned hr hstep]
    exact contained_step hchunk howned hr (streaming_of_reaches hinit h₁ hhanded hreaches hbefore)
      (hcontained hbefore hM') hM' hok.2 hstep hopen

theorem async_back_pressure_one : ∃ cfg₁ cfg : Config,
    run (step .plain) (start asyncRoutes) openingStream = some cfg₁ ∧
      run (step .plain) cfg₁ (.loop (.wakeup 0 0) :: sending (.send [1])) = some cfg ∧
      (cfg.world.connections 0).send.length ≤
        max ((cfg₁.world.connections 0).send.length + (cfg₁.world.streams ⟨0, 0⟩).mData.length)
          (16384 - 1 + 1 + 1 + 4) := by
  have hnot {cfg : Config} {e : LoopEvent} (he : e.conn = cfg.conn 0) (hother : e.conn ≠ cfg.conn 0)
      (_ : cfg.world.Releases .plain e (cfg.conn 0)) :
      (cfg.world.connections (cfg.conn 0)).send.length < Mongoose.plain.ioSize :=
    absurd he hother
  have hmeets : Meets (step .plain) (fun cfg e => cfg.Conforming 0 e ∧ cfg.OnlyFeeds .plain 0 e)
      ((run (step .plain) (start asyncRoutes) openingStream).get rfl)
      (.loop (.wakeup 0 0) :: sending (.send [1])) :=
    ⟨⟨trivial, Or.inl rfl, hnot rfl⟩,
      ⟨trivial, Or.inr (Or.inr (Or.inl ⟨[], rfl, List.nil_suffix⟩)), hnot rfl⟩,
      ⟨trivial, Or.inr (Or.inl rfl), hnot rfl⟩,
      ⟨fun _ t => by cases t <;> exact (Option.some_ne_none _).symm, trivial⟩,
      ⟨fun _ => rfl, trivial⟩, ⟨trivial, trivial⟩, ⟨trivial, trivial⟩, ⟨trivial, trivial⟩,
      ⟨trivial, Or.inl rfl, hnot rfl⟩, trivial⟩
  have hrun := reaches_of_run rfl hmeets
  have hopening : Reaches (step .plain) anyEvent (start asyncRoutes) _ :=
    reaches_of_run rfl (meets_anyEvent _ openingStream)
  have hM : ∀ op ∈ [Put.send [1]], op.data.length ≤ 1 := by simp [Put.data]
  exact ⟨_, _, rfl, rfl, async_back_pressure rfl (initial_start _) hopening
    handedOver_openingStream rfl hrun rfl hM⟩

end Config

end Mgxx.Http
