import Mgxx.Concurrency.WorkerOwnership

/-!
What an event of one connection does to another.
-/

namespace Mgxx.Http

open Mgxx.Library

/-- Nothing has happened to connection `d`: its entries, the states of the
objects they point to, and the bytes queued on it are the same. -/
structure World.Untouched (d : ℕ) (w w' : World) : Prop where
  responseEntry : ∀ id, w'.mPendingResponses.find d id = w.mPendingResponses.find d id
  streamEntry : ∀ id, w'.mPendingStreams.find d id = w.mPendingStreams.find d id
  response : ∀ id r, w.mPendingResponses.find d id = some r →
    (w'.responses r).mState = (w.responses r).mState
  stream : ∀ id s, w.mPendingStreams.find d id = some (some s) →
    (w'.streams s).mState = (w.streams s).mState
  send : (w'.connections d).send = (w.connections d).send

namespace World

variable (mg : Mongoose) (w : World) (c d id : ℕ)

theorem Untouched.refl : w.Untouched d w :=
  ⟨fun _ => rfl, fun _ => rfl, fun _ _ _ => rfl, fun _ _ _ => rfl, rfl⟩

/-- A write event of connection `c` lets the producer of a stream of `d` go on. -/
def Releases (e : LoopEvent) (d : ℕ) : Prop :=
  e = .write e.conn ∧ w.blocked mg e.conn = false ∧
    ∃ id s, w.mPendingStreams.find d id = some (some s) ∧ (w.streams s).mState = .flush

variable {mg w} in
/-- Whoever it is for, only a write event with room in the send buffer lets a
producer go on. -/
theorem write_of_released {e : LoopEvent} {s : StreamRef} (hflush : (w.streams s).mState = .flush)
    (hempty : ((w.handle mg e).streams s).mState = .empty) :
    e = .write e.conn ∧ w.blocked mg e.conn = false := by
  rcases streams_handle mg w e s with hsame | hserve | ⟨hwrite, -, hrelease⟩ | ⟨-, -, hfailed⟩
  · rw [hsame, hflush] at hempty
    exact absurd hempty (by simp)
  · rw [hserve, AsyncStream.serve] at hempty
    simp [hflush] at hempty
  · refine ⟨hwrite, ?_⟩
    by_contra hblocked
    rw [hrelease, AsyncStream.release, if_neg fun h => hblocked h.2, hflush] at hempty
    exact absurd hempty (by simp)
  · rw [hfailed] at hempty
    exact absurd hempty (by simp [AsyncStream.markFailed])

end World

namespace Owned

variable {cfg : Config} {mg : Mongoose} {c d id r : ℕ}

theorem mConn_of_streamEntry (h : Owned cfg) {s : StreamRef}
    (hs : cfg.world.mPendingStreams.find c id = some (some s)) :
    (cfg.world.responses s.response).mConn = c := by
  obtain ⟨⟨n, -, hn⟩, -, hconn, -⟩ := h.streamEntry c id _ hs
  rwa [Option.some.inj hn]

theorem mConn_of_responseEntry (h : Owned cfg)
    (hr : cfg.world.mPendingResponses.find c id = some r) :
    (cfg.world.responses r).mConn = c := by
  obtain ⟨rfl, -, hconn, -⟩ := h.responseEntry c id r hr
  exact hconn

/-- Serving a stream of one connection leaves the others untouched. -/
theorem untouched_serveStream {w w' : World} {stream : Option StreamRef} (hd : d ≠ c)
    (hw : w.Untouched d w') (hstreams : w'.streams = w.streams)
    (hother : ∀ s id', stream = some s → w.mPendingStreams.find d id' ≠ some (some s)) :
    w.Untouched d (w'.serveStream mg c id stream) := by
  cases stream with
  | none => exact hw
  | some s =>
      refine ⟨fun id' => ?_, fun id' => ?_, fun id' r hr => ?_, fun id' s' hs' => ?_, ?_⟩
      · rw [World.mPendingResponses_serveStream]
        exact hw.responseEntry id'
      · rw [World.find_mPendingStreams_serveStream, if_neg fun h => hd h.2.1]
        exact hw.streamEntry id'
      · rw [World.responses_serveStream]
        exact hw.response id' r hr
      · have hne : s' ≠ s := by
          rintro rfl
          exact hother s' id' rfl hs'
        rw [World.streams_serveStream, modifyAt_of_ne hne, hstreams]
      · rw [World.connections_serveStream_of_ne mg w' c d id _ hd]
        exact hw.send

theorem untouched_handOff (hd : d ≠ c) : cfg.world.Untouched d (cfg.world.handOff c id r) := by
  refine ⟨fun id' => ?_, fun id' => ?_, fun id' r' hr' => ?_, fun _ _ _ => rfl, rfl⟩
  · rw [World.find_mPendingResponses_handOff, if_neg fun h => hd h.1]
  · rw [World.find_mPendingStreams_handOff, if_neg fun h => hd h.1]
  · rw [World.responses_handOff]
    split_ifs with heq <;> simp [heq]

variable (mg id) in
theorem untouched_handleWakeup (h : Owned cfg) (hd : d ≠ c) :
    cfg.world.Untouched d (cfg.world.handleWakeup mg c id) := by
  refine World.handleWakeup_elim (P := fun w' => cfg.world.Untouched d w') ?_ ?_ ?_ ?_
  · intro stream hstream
    refine untouched_serveStream hd (.refl _ d) rfl ?_
    rintro s id' rfl hs
    exact hd ((h.mConn_of_streamEntry hs).symm.trans (h.mConn_of_streamEntry hstream))
  · intro r _ hr _
    refine untouched_serveStream hd (untouched_handOff hd) rfl ?_
    intro s id' hheld hs
    -- the stream that is handed over is of the response's own request
    obtain ⟨rfl, hlt, hconn, -⟩ := h.responseEntry c id r hr
    obtain ⟨hresponse, -⟩ := h.held r s hlt hheld
    rw [← hresponse] at hconn
    exact hd ((h.mConn_of_streamEntry hs).symm.trans hconn)
  · intro r _ hr _
    refine ⟨fun id' => ?_, fun id' => ?_, fun id' r' hr' => ?_, fun _ _ _ => rfl, ?_⟩
    · rw [World.find_mPendingResponses_reply, if_neg fun h => hd h.1]
    · rw [World.mPendingStreams_reply]
    · have hne : r' ≠ r := by
        rintro rfl
        exact hd ((h.mConn_of_responseEntry hr').symm.trans (h.mConn_of_responseEntry hr))
      rw [World.responses_reply, if_neg hne]
    · rw [World.connections_reply_of_ne mg cfg.world c d id r hd]
  · intro _ _
    refine ⟨fun _ => rfl, fun _ => rfl, fun _ _ _ => rfl, fun _ _ _ => rfl, ?_⟩
    rw [World.connections_write_of_ne mg _ c d _ _ hd,
      World.connections_write_of_ne mg _ c d _ _ hd]

theorem untouched_handleClose (h : Owned cfg) (hd : d ≠ c) :
    cfg.world.Untouched d (cfg.world.handleClose c) := by
  refine ⟨fun id' => ?_, fun id' => ?_, fun id' r' hr' => ?_, fun id' s hs => ?_, ?_⟩
  · rw [World.find_mPendingResponses_handleClose, if_neg hd]
  · rw [World.find_mPendingStreams_handleClose, if_neg hd]
  · rw [World.responses_handleClose, if_neg]
    rw [World.mem_responsesOf]
    rintro ⟨id, hid⟩
    exact hd ((h.mConn_of_responseEntry hr').symm.trans (h.mConn_of_responseEntry hid))
  · rw [World.streams_handleClose, if_neg]
    rw [World.mem_streamsOf]
    rintro ⟨id, hid⟩
    exact hd ((h.mConn_of_streamEntry hs).symm.trans (h.mConn_of_streamEntry hid))
  · rw [World.connections_handleClose_of_ne cfg.world c d hd]

/-- A write event touches another connection exactly when it releases a
producer of it. -/
theorem untouched_write_iff (hd : d ≠ c) :
    cfg.world.Untouched d (cfg.world.handle mg (.write c)) ↔
      ¬cfg.world.Releases mg (.write c) d := by
  constructor
  · -- the loop of `handle_write` runs over the streams of every connection
    rintro huntouched ⟨-, hblocked, id, s, hs, hflush⟩
    have hstate := huntouched.stream id s hs
    rw [World.streams_handle_write, if_pos ((World.mem_tableStreams ..).mpr ⟨d, id, hs⟩), hflush,
      AsyncStream.release, if_pos ⟨hflush, hblocked⟩] at hstate
    exact absurd hstate (by simp [AsyncStream.markEmpty])
  · intro hnot
    refine ⟨fun id' => ?_, fun id' => ?_, fun id' r' hr' => ?_, fun id' s hs => ?_, ?_⟩
    · rw [World.handle, World.toEndpoint_handleWrite, World.toEndpoint_clearSent]
    · rw [World.handle, World.toEndpoint_handleWrite, World.toEndpoint_clearSent]
    · rw [World.handle, World.responses_handleWrite, World.responses_clearSent]
    · rw [World.streams_handle_write]
      split_ifs
      · rw [AsyncStream.release, if_neg]
        rintro ⟨hflush, hblocked⟩
        exact hnot ⟨rfl, hblocked, id', s, hs, hflush⟩
      · rfl
    · rw [World.connections_handle_write, modifyAt_of_ne hd]

end Owned

namespace Config

variable {mg : Mongoose} {cfg cfg₀ : Config}

/-- An event of one connection leaves another untouched, unless it is a write
event that releases a producer of the other.  On its own connection, too, only
a write event with room in the send buffer releases a producer. -/
theorem untouched_iff (hinit : cfg₀.Initial) (h : Reaches (step mg) anyEvent cfg₀ cfg)
    {e : LoopEvent} {w : World} (hstep : cfg.world.loopStep mg e = some w) :
    (∀ d, d ≠ e.conn → (cfg.world.Untouched d w ↔ ¬cfg.world.Releases mg e d)) ∧
      ∀ id s, cfg.world.mPendingStreams.find e.conn id = some (some s) →
        (cfg.world.streams s).mState = .flush → (w.streams s).mState = .empty →
        e = .write e.conn ∧ cfg.world.blocked mg e.conn = false := by
  have howned := Owned.of_reaches hinit h
  obtain ⟨hraises, rfl⟩ := World.loopStep_eq_some.mp hstep
  refine ⟨fun d hd => ?_, fun id s _ hflush hempty => World.write_of_released hflush hempty⟩
  have hother (hnot : e ≠ .write e.conn)
      (huntouched : cfg.world.Untouched d (cfg.world.handle mg e)) :
      cfg.world.Untouched d (cfg.world.handle mg e) ↔ ¬cfg.world.Releases mg e d :=
    iff_of_true huntouched fun hreleases => hnot hreleases.1
  have hconnections := World.connections_handle_of_ne mg cfg.world hd
  cases e with
  | accept c =>
      exact hother (by simp) ⟨fun _ => rfl, fun _ => rfl, fun _ _ _ => rfl, fun _ _ _ => rfl,
        by rw [hconnections]⟩
  | poll c =>
      have hd : d ≠ c := hd
      refine hother (by simp) ⟨fun id => ?_, fun id => ?_, fun _ _ _ => ?_, fun _ _ _ => ?_,
        by rw [hconnections]⟩
      · rw [World.handle, World.find_mPendingResponses_handlePoll, if_neg fun h => hd h.1]
      · rw [World.handle, World.mPendingStreams_handlePoll]
      · rw [World.handle, World.responses_handlePoll]
      · rw [World.handle, World.streams_handlePoll]
  | httpMessage c msg calls =>
      have hd : d ≠ c := hd
      refine hother (by simp) ?_
      rcases World.handleHttpMessage_cases mg cfg.world c msg calls with
        hadd | ⟨conns, hconns, hacts⟩
      · refine ⟨fun id => ?_, fun id => ?_, fun id r hr => ?_, fun _ _ _ => ?_,
          by rw [hconnections]⟩
        · rw [World.handle, hadd, World.addResponse, NestedMap.find_set, if_neg fun h => hd h.1]
        · rw [World.handle, hadd]
          rfl
        · obtain ⟨rfl, hlt, -⟩ := howned.responseEntry d id r hr
          rw [World.handle, World.responses_handleHttpMessage hlt]
        · rw [World.handle, hadd]
          rfl
      · rw [World.handle, hconns]
        exact ⟨fun _ => rfl, fun _ => rfl, fun _ _ _ => rfl, fun _ _ _ => rfl,
          congrArg Connection.send (hacts.others d hd)⟩
  | wakeup c id =>
      have huntouched := (howned.take hraises.2).untouched_handleWakeup mg id hd
      exact hother (by simp) ⟨huntouched.responseEntry, huntouched.streamEntry,
        huntouched.response, huntouched.stream, huntouched.send⟩
  | write c => exact Owned.untouched_write_iff hd
  | close c =>
      have huntouched := howned.untouched_handleClose hd
      exact hother (by simp) ⟨huntouched.responseEntry, huntouched.streamEntry,
        huntouched.response, huntouched.stream, by rw [hconnections]⟩
  | mongoose c send =>
      exact hother (by simp) ⟨fun _ => rfl, fun _ => rfl, fun _ _ _ => rfl, fun _ _ _ => rfl,
        by rw [hconnections]⟩

/-- Connection 1 carries a stream whose client stops reading before the chunk `body`, and the
client of connection 0 has just read an answer. -/
def besideReader (body : Bytes) : List Event :=
  [.loop (.accept 0), .loop (.accept 1), .loop (.httpMessage 1 ⟨[], []⟩ []),
      .begin 0 0 (.stream 200 (text "chunked")), .advance 0 true, .advance 0 true,
      .advance 0 true, .advance 0 true, .loop (.wakeup 1 0), .loop (.mongoose 1 []),
      .loop (.write 1), .wait 0 ⟨0, 0⟩] ++ putting (.send body) ++
    [.loop (.wakeup 1 0), .loop (.httpMessage 0 ⟨[], []⟩ []), .begin 0 1 (.send 200 []),
      .advance 0 true, .advance 0 true, .advance 0 true, .loop (.wakeup 0 1),
      .loop (.mongoose 0 [])]

theorem untouched_iff_beside : ∃ cfg w,
    run (step .plain) (start asyncRoutes) (besideReader [1]) = some cfg ∧
      cfg.world.mPendingStreams.find 1 0 = some (some ⟨0, 0⟩) ∧
      cfg.world.loopStep .plain (.write 0) = some w ∧
      (cfg.world.Untouched 1 w ↔ ¬cfg.world.Releases .plain (.write 0) 1) := by
  have hrun : Reaches (step .plain) anyEvent (start asyncRoutes) _ :=
    reaches_of_run rfl (meets_anyEvent _ (besideReader [1]))
  exact ⟨_, _, rfl, rfl, rfl, (untouched_iff (initial_start _) hrun rfl).1 1 (by decide)⟩

theorem released_besideReader (body : Bytes) : ∃ cfg w,
    run (step .plain) (start asyncRoutes) (besideReader body) = some cfg ∧
      cfg.world.loopStep .plain (.write 0) = some w ∧
      cfg.world.mPendingStreams.find 1 0 = some (some ⟨0, 0⟩) ∧
      (cfg.world.connections 1).send = Chunked.encodeChunk body ∧
      (cfg.world.streams ⟨0, 0⟩).mState = .flush ∧ (w.streams ⟨0, 0⟩).mState = .empty :=
  ⟨_, _, rfl, rfl, rfl, rfl, rfl, rfl⟩

/-- The write event of connection 0 releases the producer of connection 1, whose send buffer
is full. -/
theorem released_by_other : ∃ cfg w,
    run (step .plain) (start asyncRoutes) (besideReader (List.replicate 16384 0)) = some cfg ∧
      cfg.world.loopStep .plain (.write 0) = some w ∧
      Mongoose.plain.ioSize ≤ (cfg.world.connections 1).send.length ∧
      cfg.world.mPendingStreams.find 1 0 = some (some ⟨0, 0⟩) ∧
      (cfg.world.streams ⟨0, 0⟩).mState = .flush ∧ (w.streams ⟨0, 0⟩).mState = .empty ∧
      ¬cfg.world.Untouched 1 w := by
  obtain ⟨cfg, w, hrun, hstep, hentry, hsend, hflush, hempty⟩ :=
    released_besideReader (List.replicate 16384 0)
  have hfull : Mongoose.plain.ioSize ≤ (cfg.world.connections 1).send.length := by
    have hlength := Chunked.length_lt_encodeChunk (List.replicate 16384 (0 : UInt8))
    rw [List.length_replicate, ← hsend] at hlength
    exact hlength.le
  refine ⟨cfg, w, hrun, hstep, hfull, hentry, hflush, hempty, fun huntouched => ?_⟩
  have hstate := huntouched.stream 0 ⟨0, 0⟩ hentry
  rw [hflush, hempty] at hstate
  exact absurd hstate (by simp)

end Config

end Mgxx.Http
