import Mgxx.Properties.Agreement
import Mathlib.Data.Nat.Digits.Lemmas

/-!
How much of a synchronous stream waits in the send buffer.  The callback is
asked when a write event finds room, and what it gives is appended whole.
-/

namespace Mgxx.Http

open Mgxx.Library

/-- A chunk of at most `M` bytes with its framing. -/
theorem length_encodeChunk_le {chunk : Bytes} {M : ℕ} (h : chunk.length ≤ M) :
    (Chunked.encodeChunk chunk).length ≤ M + (Nat.digits 16 (max M 1)).length + 4 := by
  have hdigits : (Nat.digits 16 (max chunk.length 1)).length ≤
      (Nat.digits 16 (max M 1)).length :=
    Nat.le_length_digits_le 16 _ _ (max_le_max_right 1 h)
  simp only [Chunked.encodeChunk, List.length_append, Chunked.length_hex, Chunked.lineEnd,
    List.length_cons, List.length_nil]
  omega

/-- The last byte below `MG_IO_SIZE`, and a chunk of `M` bytes with its framing. -/
def sendLimit (mg : Mongoose) (M : ℕ) : ℕ :=
  mg.ioSize - 1 + M + (Nat.digits 16 (max M 1)).length + 4

/-- Write events of connection `c`, and bytes that mongoose takes off the front
of its buffer; other events leave the connection as it is. -/
def LoopEvent.Drains (mg : Mongoose) (w : World) (c : ℕ) (e : LoopEvent) : Prop :=
  e = .write c ∨ (∃ send, e = .mongoose c send ∧ send <:+ (w.connections c).send) ∨
    (w.handle mg e).connections c = w.connections c

namespace Connection

variable {mg : Mongoose} {start conn : Connection} {results : ℕ → Option Bytes} {n : ℕ}

/-- Since `start`, `n` results have been taken of the callback, all of them
chunks but perhaps the last one, and written in order. -/
structure Fed (mg : Mongoose) (conn start : Connection) (results : ℕ → Option Bytes)
    (n : ℕ) : Prop where
  producer :
    (conn.fnData = some { mStream := some { results := results, calls := n } } ∧
      ∀ i < n, (results i).isSome = true) ∨
    (conn.fnData = some { mStream := none } ∧
      ∃ m, n = m + 1 ∧ results m = none ∧ ∀ i < m, (results i).isSome = true)
  outputs : conn.producerOutputs = start.producerOutputs ++
    (List.range n).map fun i => ⟨.producer, .chunk ((results i).getD [])⟩
  send : conn.send <:+ start.send ++
    (List.range n).flatMap fun i => mg.mgHttpWriteChunk ((results i).getD [])

/-- Only the last result can be the end. -/
theorem Fed.isSome (h : conn.Fed mg start results n) {i : ℕ} (hi : i + 1 < n) :
    (results i).isSome = true := by
  rcases h.producer with ⟨-, hall⟩ | ⟨-, m, rfl, -, hall⟩
  · exact hall i (by omega)
  · exact hall i (by omega)

theorem Fed.drain (h : conn.Fed mg start results n) {send : Bytes} (hsend : send <:+ conn.send)
    (sent : Bool) : Fed mg { conn with send := send, sent := sent } start results n :=
  ⟨h.producer, h.outputs, hsend.trans h.send⟩

/-- A result that is taken is written at the end of the buffer. -/
theorem Fed.take (h : conn.Fed mg start results n) {fnData : Option RemoteContext}
    (hproducer :
      (fnData = some { mStream := some { results := results, calls := n + 1 } } ∧
        ∀ i < n + 1, (results i).isSome = true) ∨
      (fnData = some { mStream := none } ∧
        ∃ m, n + 1 = m + 1 ∧ results m = none ∧ ∀ i < m, (results i).isSome = true)) :
    Fed mg { conn.write mg .producer (.chunk ((results n).getD [])) with fnData := fnData }
      start results (n + 1) where
  producer := hproducer
  outputs := by
    change (conn.write mg .producer (.chunk ((results n).getD []))).producerOutputs = _
    rw [producerOutputs_write, h.outputs, List.range_succ, List.map_append, List.append_assoc]
    rfl
  send := by
    change conn.send ++ mg.mgHttpWriteChunk ((results n).getD []) <:+ _
    rw [List.range_succ, List.flatMap_append, ← List.append_assoc, List.flatMap_singleton]
    obtain ⟨gone, hgone⟩ := h.send
    exact ⟨gone, by rw [← List.append_assoc, hgone]⟩

/-- The callback that is still there has given chunks only. -/
theorem Fed.running (h : conn.Fed mg start results n) {producer : StreamProducer}
    (hfnData : conn.fnData = some { mStream := some producer }) :
    producer = { results := results, calls := n } ∧ ∀ i < n, (results i).isSome = true := by
  rcases h.producer with ⟨hrunning, hall⟩ | ⟨hended, -⟩
  · exact ⟨by simpa using hfnData.symm.trans hrunning, hall⟩
  · exact absurd (hfnData.symm.trans hended) (by simp)

/-- A write event takes one result, or none when there is no room or no callback. -/
theorem Fed.pump (h : conn.Fed mg start results n) :
    (conn.pumpStream mg).Fed mg start results (n + conn.pulls mg) := by
  rcases pumpStream_cases mg conn with ⟨hnone, hsame⟩ | ⟨producer, hfnData, hone, -, hpump⟩
  · rwa [hnone, hsame, Nat.add_zero]
  · obtain ⟨rfl, hall⟩ := h.running hfnData
    rw [hone, hpump]
    refine h.take ?_
    simp only [StreamProducer.get]
    cases hresult : results n with
    | none => exact Or.inr ⟨rfl, n, rfl, hresult, hall⟩
    | some chunk =>
        refine Or.inl ⟨rfl, fun i hi => ?_⟩
        rcases Nat.lt_succ_iff_lt_or_eq.mp hi with hi | rfl
        · exact hall i hi
        · rw [hresult]
          rfl

/-- What a write event appends to a buffer with room is a chunk, or the terminator. -/
theorem Fed.length_pump (h : conn.Fed mg start results n)
    (hchunk : mg.mgHttpWriteChunk = Chunked.encodeChunk) {M : ℕ}
    (hM : ∀ i chunk, results i = some chunk → chunk.length ≤ M) :
    (conn.pumpStream mg).send.length ≤ max conn.send.length (sendLimit mg M) := by
  rcases pumpStream_cases mg conn with ⟨-, hsame⟩ | ⟨producer, hfnData, -, hroom, hpump⟩
  · rw [hsame]
    exact Nat.le_max_left ..
  · obtain ⟨rfl, -⟩ := h.running hfnData
    have hsend : (conn.pumpStream mg).send =
        conn.send ++ mg.mgHttpWriteChunk ((results n).getD []) := by
      rw [hpump]
      rfl
    have hsize : ((results n).getD []).length ≤ M := by
      cases hresult : results n with
      | none => exact Nat.zero_le M
      | some chunk => exact hM n chunk hresult
    have hwritten := length_encodeChunk_le hsize
    rw [hsend, hchunk, List.length_append, sendLimit]
    omega

end Connection

namespace Config

variable {mg : Mongoose} {cfg cfg' cfg₁ : Config} {c n M : ℕ} {start : Connection}
  {results : ℕ → Option Bytes}

/-- Nothing is written on connection `c` but what its callback gives. -/
def OnlyDrains (mg : Mongoose) (c : ℕ) (cfg : Config) : Event → Prop
  | .loop e => e.Drains mg cfg.world c
  | .headers _ _ | .begin _ _ _ | .wait _ _ | .put _ _ _ | .advance _ _ => True

/-- The callback is asked at most once, by a write event that finds room. -/
theorem pulls_le (mg : Mongoose) (c : ℕ) (cfg : Config) (e : Event) : cfg.pulls mg c e ≤ 1 ∧
    (cfg.pulls mg c e ≠ 0 →
      e = .loop (.write c) ∧ (cfg.world.connections c).send.length < mg.ioSize) := by
  by_cases hwrite : e = .loop (.write c)
  · subst hwrite
    simp only [pulls, if_pos, Connection.pulls]
    split
    · simp
    · split
      · simp
      · rename_i hroom
        exact ⟨Nat.le_refl 1, fun _ => ⟨trivial, Nat.lt_of_not_le hroom⟩⟩
  · have hnone : cfg.pulls mg c e = 0 := by
      cases e with
      | loop e =>
          cases e with
          | write d => exact if_neg fun hd : d = c => hwrite (by rw [hd])
          | accept d | poll d | httpMessage d msg calls | wakeup d id | close d
          | mongoose d send => rfl
      | headers | begin | wait | put | advance => rfl
    simp [hnone]

theorem fed_step {e : Event} (hchunk : mg.mgHttpWriteChunk = Chunked.encodeChunk)
    (hM : ∀ i chunk, results i = some chunk → chunk.length ≤ M)
    (h : (cfg.world.connections c).Fed mg start results n)
    (hlimit : (cfg.world.connections c).send.length ≤ max start.send.length (sendLimit mg M))
    (hok : cfg.OnlyDrains mg c e) (hstep : cfg.step mg e = some cfg') :
    (cfg'.world.connections c).Fed mg start results (n + cfg.pulls mg c e) ∧
      (cfg'.world.connections c).send.length ≤ max start.send.length (sendLimit mg M) := by
  have hsame (hpulls : cfg.pulls mg c e = 0)
      (hconn : cfg'.world.connections c = cfg.world.connections c) :
      (cfg'.world.connections c).Fed mg start results (n + cfg.pulls mg c e) ∧
        (cfg'.world.connections c).send.length ≤ max start.send.length (sendLimit mg M) := by
    rw [hpulls, hconn]
    exact ⟨h, hlimit⟩
  rcases step_cases hstep with ⟨e, rfl, -, rfl⟩ | ⟨hnot, hconnections, -⟩
  · by_cases hwrite : e = .write c
    · subst hwrite
      simp only [World.connections_handle_write, modifyAt_self, pulls, if_pos]
      exact ⟨h.pump.drain List.suffix_rfl false,
        (h.length_pump hchunk hM).trans (max_le hlimit (Nat.le_max_right ..))⟩
    · have hpulls : cfg.pulls mg c (.loop e) = 0 := by
        by_contra hpulls
        exact hwrite (Event.loop.inj ((pulls_le mg c cfg (.loop e)).2 hpulls).1)
      rcases hok with rfl | ⟨send, rfl, hsend⟩ | hconn
      · exact absurd rfl hwrite
      · rw [hpulls]
        simp only [World.handle, World.setSend, modifyAt_self]
        exact ⟨h.drain hsend _, hsend.length_le.trans hlimit⟩
      · exact hsame hpulls hconn
  · refine hsame ?_ (by rw [hconnections])
    cases e with
    | loop e => exact absurd rfl (hnot e)
    | headers | begin | wait | put | advance => rfl

theorem fed_run {es : List Event} (hchunk : mg.mgHttpWriteChunk = Chunked.encodeChunk)
    (hM : ∀ i chunk, results i = some chunk → chunk.length ≤ M)
    (h : (cfg.world.connections c).Fed mg start results n)
    (hlimit : (cfg.world.connections c).send.length ≤ max start.send.length (sendLimit mg M))
    (hmeets : Meets (step mg) (OnlyDrains mg c) cfg es) (hrun : run (step mg) cfg es = some cfg') :
    (cfg'.world.connections c).Fed mg start results (n + cfg.invocations mg c es) ∧
      (cfg'.world.connections c).send.length ≤ max start.send.length (sendLimit mg M) := by
  induction es generalizing cfg n with
  | nil =>
      obtain rfl := Option.some.inj hrun
      exact ⟨h, hlimit⟩
  | cons e es ih =>
      obtain ⟨cfg₂, hstep, hrest⟩ := Option.bind_eq_some_iff.mp hrun
      obtain ⟨hok, hmeets⟩ := hmeets
      rw [hstep] at hmeets
      obtain ⟨h₂, hlimit₂⟩ := fed_step hchunk hM h hlimit hok hstep
      have hlast := ih h₂ hlimit₂ hmeets hrest
      simp only [invocations, hstep]
      rwa [Nat.add_assoc] at hlast

theorem fed_stream {res : Response} {conns : ℕ → Connection} (hopen : res.mConn = some c)
    (hcontext : (conns c).fnData ≠ none) (code : ℤ) (encoding : Bytes) :
    ((res.stream mg conns code encoding results).1 c).Fed mg
      ((res.stream mg conns code encoding results).1 c) results 0 := by
  obtain ⟨context, hcontext⟩ := Option.ne_none_iff_exists'.mp hcontext
  refine ⟨Or.inl ⟨?_, by simp⟩, by simp, by simp⟩
  simp [Response.stream, hopen, Connection.setStream, hcontext]

/-- After `response::stream`, while nothing else is written on the connection:
the callback is asked once per write event at most, and only below `MG_IO_SIZE`;
it is not asked again after the end; the buffer stays within its limit; and the
chunks go through it in order. -/
theorem back_pressure (hchunk : mg.mgHttpWriteChunk = Chunked.encodeChunk)
    (hM : ∀ i chunk, results i = some chunk → chunk.length ≤ M)
    {res : Response} {conns : ℕ → Connection} {code : ℤ} {encoding : Bytes}
    (hopen : res.mConn = some c) (hcontext : (conns c).fnData ≠ none)
    (hstart : cfg₁.world.connections c = (res.stream mg conns code encoding results).1 c)
    {es : List Event} (hdrains : Meets (step mg) (OnlyDrains mg c) cfg₁ es)
    (hrun : run (step mg) cfg₁ es = some cfg) :
    (∀ e, cfg.pulls mg c e ≤ 1 ∧ (cfg.pulls mg c e ≠ 0 →
        e = .loop (.write c) ∧ (cfg.world.connections c).send.length < mg.ioSize)) ∧
      (∀ i, i + 1 < cfg₁.invocations mg c es → (results i).isSome = true) ∧
      (cfg.world.connections c).send.length ≤ max (cfg₁.world.connections c).send.length
        (mg.ioSize - 1 + M + (Nat.digits 16 (max M 1)).length + 4) ∧
      (cfg.world.connections c).Fed mg (cfg₁.world.connections c) results
        (cfg₁.invocations mg c es) := by
  have hfed : (cfg₁.world.connections c).Fed mg (cfg₁.world.connections c) results 0 := by
    rw [hstart]
    exact fed_stream hopen hcontext code encoding
  obtain ⟨hlast, hlimit⟩ := fed_run hchunk hM hfed (Nat.le_max_left ..) hdrains hrun
  rw [Nat.zero_add] at hlast
  exact ⟨pulls_le mg c cfg, fun i hi => hlast.isSome hi, hlimit, hlast⟩

def accepted : Config := (run (step .plain) (Config.start syncRoutes) [.loop (.accept 0)]).get rfl

def streamed : Config := (run (step .plain) (Config.start syncRoutes) (pulling [[1]])).get rfl

theorem back_pressure_one : ∃ cfg, run (step .plain) streamed (flushing ++ flushing) = some cfg ∧
    (cfg.world.connections 0).send.length ≤
      max (streamed.world.connections 0).send.length (16384 - 1 + 1 + 1 + 4) := by
  have hmeets : Meets (step .plain) (OnlyDrains .plain 0) streamed (flushing ++ flushing) :=
    ⟨Or.inr (Or.inl ⟨[], rfl, List.nil_suffix⟩), Or.inl rfl,
      Or.inr (Or.inl ⟨[], rfl, List.nil_suffix⟩), Or.inl rfl, trivial⟩
  have hM : ∀ (i : ℕ) (chunk : Bytes), [[(1 : UInt8)]][i]? = some chunk → chunk.length ≤ 1 := by
    intro i chunk h
    obtain rfl := List.mem_singleton.mp (List.mem_of_getElem? h)
    exact Nat.le_refl 1
  have hopen : ({ mConn := some 0 } : Response).mConn = some 0 := rfl
  have hcontext : (accepted.world.connections 0).fnData ≠ none := by decide
  have hstart : streamed.world.connections 0 = (Response.stream .plain accepted.world.connections
      { mConn := some 0 } 200 (text "chunked") fun i => [[(1 : UInt8)]][i]?).1 0 := rfl
  exact ⟨_, rfl, (back_pressure rfl hM hopen hcontext hstart hmeets rfl).2.2.1⟩

end Config

end Mgxx.Http
