import Mgxx.Properties.Chunks

/-!
The chunked bodies that streams write, read back as a client reads them.
-/

namespace Mgxx.Http

open Mgxx.Library

/-- The outputs are one chunked body with this content, and the terminator is
written once, at the end. -/
structure Framed (mg : Mongoose) (outs : List Output) (chunks : List Bytes) : Prop where
  decode : Chunked.decode (outs.flatMap fun o => o.write.bytes mg) = some (chunks.flatten, [])
  terminator : ∃ before, outs.map Output.write = before ++ [.chunk []] ∧ Write.chunk [] ∉ before

/-- What is written for some chunks is one body with these chunks exactly when
none of them is empty. -/
theorem framed_iff {mg : Mongoose} (hchunk : mg.mgHttpWriteChunk = Chunked.encodeChunk)
    {outs : List Output} {chunks : List Bytes}
    (houts : outs.map Output.write = chunks.map Write.chunk ++ [.chunk []]) :
    Framed mg outs chunks ↔ ∀ chunk ∈ chunks, chunk ≠ [] := by
  have hbytes : (outs.flatMap fun o => o.write.bytes mg) = Chunked.encode chunks := by
    have hmap : (outs.flatMap fun o => o.write.bytes mg) =
        (outs.map Output.write).flatMap fun write => write.bytes mg := by
      rw [List.flatMap_map]
    rw [hmap, houts, List.flatMap_append, List.flatMap_map]
    simp only [Write.bytes, hchunk, Chunked.encode, List.flatMap_singleton]
  constructor
  · intro h
    rw [← Chunked.decode_encode_iff, ← hbytes]
    exact h.decode
  · intro h
    refine ⟨by rw [hbytes]; exact (Chunked.decode_encode_iff chunks).mpr h, _, houts, ?_⟩
    intro hmem
    obtain ⟨chunk, hmem, hnil⟩ := List.mem_map.mp hmem
    exact h chunk hmem (Write.chunk.inj hnil)

/-! ### Synchronous streams -/

structure Connection.SparesProducer (conn conn' : Connection) : Prop where
  fnData : conn'.fnData = conn.fnData
  log : ∃ out, conn'.log = conn.log ++ out ∧ ∀ o ∈ out, o.source ≠ .producer

namespace Connection

variable {conn conn' : Connection}

theorem SparesProducer.refl (conn : Connection) : conn.SparesProducer conn :=
  ⟨rfl, [], (List.append_nil _).symm, by simp⟩

def producerOutputs (conn : Connection) : List Output :=
  conn.log.filter fun o => o.source = .producer

theorem producerOutputs_write (mg : Mongoose) (conn : Connection) (o : Write) :
    (conn.write mg .producer o).producerOutputs = conn.producerOutputs ++ [⟨.producer, o⟩] := by
  simp [producerOutputs]

theorem SparesProducer.producerOutputs_eq (h : conn.SparesProducer conn') :
    conn'.producerOutputs = conn.producerOutputs := by
  obtain ⟨out, hlog, hout⟩ := h.log
  have hnone : out.filter (fun o => o.source = .producer) = [] :=
    List.filter_eq_nil_iff.mpr fun o ho => by simp [hout o ho]
  rw [producerOutputs, hlog, List.filter_append, hnone, List.append_nil]
  rfl

end Connection

def LoopEvent.KeepsProducer (c : ℕ) : LoopEvent → Prop
  | .httpMessage c' _ calls => c' = c → ∀ call ∈ calls, call.isStream = false
  | .accept _ | .poll _ | .wakeup _ _ | .write _ | .close _ | .mongoose _ _ => True

namespace World

variable {mg : Mongoose} {w : World} {c : ℕ}

variable (mg w c) in
theorem sparesProducer_serveStream (id : ℕ) (stream : Option StreamRef) :
    (w.connections c).SparesProducer ((w.serveStream mg c id stream).connections c) := by
  cases stream with
  | none => exact .refl _
  | some s =>
      refine ⟨fnData_serveStream .., _, log_serveStream .., ?_⟩
      rw [if_pos rfl]
      intro o ho
      obtain ⟨write, -, rfl⟩ := List.mem_map.mp ho
      simp

/-- Every event but a write event and the last one. -/
theorem sparesProducer_handle {e : LoopEvent} (hraises : w.Raises e)
    (hlive : (w.connections c).status = .live) (hkeeps : e.KeepsProducer c)
    (hwrite : e ≠ .write c) (hclose : e ≠ .close c) :
    (w.connections c).SparesProducer ((w.handle mg e).connections c) := by
  by_cases hc : c = e.conn
  · cases e with
    | accept c' =>
        obtain rfl : c = c' := hc
        exact absurd (hlive.symm.trans hraises) (by simp)
    | poll c' =>
        obtain rfl : c = c' := hc
        refine ⟨fnData_handlePoll .., _, log_handlePoll .., ?_⟩
        rw [if_pos rfl]
        intro o ho
        obtain ⟨id, -, rfl⟩ := List.mem_map.mp ho
        simp
    | httpMessage c' msg calls =>
        obtain rfl : c = c' := hc
        refine ⟨fnData_handleHttpMessage msg (hkeeps rfl) c, ?_⟩
        rcases handleHttpMessage_cases mg w c msg calls with hadd | ⟨conns, hconns, hacts⟩
        · rw [handle, hadd]
          exact ⟨[], (List.append_nil _).symm, by simp⟩
        · obtain ⟨out, hlog, hout⟩ := hacts.log
          rw [handle, hconns]
          exact ⟨out, hlog, fun o ho => by simp [hout o ho]⟩
    | wakeup c' id =>
        obtain rfl : c = c' := hc
        refine handleWakeup_elim (w := w.take c id)
          (P := fun w' => (w.connections c).SparesProducer (w'.connections c)) ?_ ?_ ?_ ?_
        · exact fun stream _ => sparesProducer_serveStream mg (w.take c id) c id stream
        · intro r _ _ _
          have hserve := sparesProducer_serveStream mg ((w.take c id).handOff c id r) c id
            ((w.take c id).responses r).mStream
          rwa [connections_handOff] at hserve
        · intro r _ _ _
          exact ⟨fnData_reply .., _, log_reply .., by simp [replyOutput]⟩
        · intro _ _
          refine ⟨by simp [take], _, by rw [log_write, log_write, List.append_assoc]; rfl, by simp⟩
    | write c' => exact absurd (congrArg _ (Eq.symm hc)) hwrite
    | close c' => exact absurd (congrArg _ (Eq.symm hc)) hclose
    | mongoose c' send =>
        obtain rfl : c = c' := hc
        exact ⟨by simp [handle, setSend], [], by simp [handle, setSend], by simp⟩
  · rw [connections_handle_of_ne mg w hc]
    exact .refl _

end World

/-- Where the producer of a connection is: `k` chunks are written, or all of
them and the terminator.  `before` is what was written for earlier producers. -/
inductive Connection.Pumped (before : List Output) (chunks : List Bytes)
    (results : ℕ → Option Bytes) (conn : Connection) : Prop
  | running (k : ℕ) (hk : k ≤ chunks.length)
      (hfnData : conn.fnData = some { mStream := some { results := results, calls := k } })
      (houtputs : conn.producerOutputs =
        before ++ (chunks.take k).map fun chunk => ⟨.producer, .chunk chunk⟩)
  | ended (hfnData : conn.fnData = some { mStream := none })
      (houtputs : conn.producerOutputs =
        before ++ (chunks ++ [[]]).map fun chunk => ⟨.producer, .chunk chunk⟩)

namespace Connection.Pumped

variable {before : List Output} {chunks : List Bytes} {results : ℕ → Option Bytes}
  {conn conn' : Connection}

theorem spare (h : conn.Pumped before chunks results) (hspares : conn.SparesProducer conn') :
    conn'.Pumped before chunks results := by
  have houtputs' := hspares.producerOutputs_eq
  cases h with
  | running k hk hfnData houtputs =>
      exact .running k hk (hspares.fnData.trans hfnData) (houtputs'.trans houtputs)
  | ended hfnData houtputs =>
      exact .ended (hspares.fnData.trans hfnData) (houtputs'.trans houtputs)

/-- A write event takes the next result, unless the send buffer is full. -/
theorem pump (h : conn.Pumped before chunks results) (mg : Mongoose)
    (hresults : ∀ i ≤ chunks.length, results i = chunks[i]?) :
    (conn.pumpStream mg).Pumped before chunks results := by
  have h' := h
  cases h with
  | ended hfnData houtputs =>
      have hsame : conn.pumpStream mg = conn := by simp [pumpStream, hfnData]
      rwa [hsame]
  | running k hk hfnData houtputs =>
      have hbind : conn.fnData.bind RemoteContext.mStream =
          some { results := results, calls := k } := by rw [hfnData]; rfl
      unfold pumpStream
      simp only [hbind]
      split_ifs with hfull
      · exact h'
      · have hresult := hresults k hk
        cases hchunk : chunks[k]? with
        | none =>
            have hlength : k = chunks.length :=
              Nat.le_antisymm hk (List.getElem?_eq_none_iff.mp hchunk)
            simp only [StreamProducer.get, hresult, hchunk]
            refine .ended rfl ?_
            change (conn.write mg .producer (.chunk [])).producerOutputs = _
            rw [producerOutputs_write, houtputs, hlength, List.take_length, List.map_append,
              List.append_assoc]
            rfl
        | some chunk =>
            have hlt : k < chunks.length := by
              by_contra hlt
              simp [List.getElem?_eq_none (Nat.le_of_not_lt hlt)] at hchunk
            simp only [StreamProducer.get, hresult, hchunk]
            refine .running (k + 1) hlt ?_ ?_
            · simp [setStream, hfnData]
            · change (conn.write mg .producer (.chunk chunk)).producerOutputs = _
              rw [producerOutputs_write, houtputs, List.take_add_one, hchunk, List.map_append,
                List.append_assoc]
              rfl

end Connection.Pumped

namespace Config

variable {mg : Mongoose} {cfg cfg' cfg₀ cfg₁ : Config} {c r : ℕ} {s : StreamRef}
  {chunks : List Bytes} {results : ℕ → Option Bytes}

/-- No handler of a message on connection `c` sets another producer. -/
def KeepsProducer (c : ℕ) (_ : Config) : Event → Prop
  | .loop e => e.KeepsProducer c
  | .headers _ _ | .begin _ _ _ | .wait _ _ | .put _ _ _ | .advance _ _ => True

theorem pumped_step {before : List Output} {e : Event}
    (hresults : ∀ i ≤ chunks.length, results i = chunks[i]?)
    (h : (cfg.world.connections c).status ≠ .unused ∧
      ((cfg.world.connections c).status = .live →
        (cfg.world.connections c).Pumped before chunks results))
    (hok : cfg.KeepsProducer c e) (hstep : cfg.step mg e = some cfg') :
    (cfg'.world.connections c).status ≠ .unused ∧
      ((cfg'.world.connections c).status = .live →
        (cfg'.world.connections c).Pumped before chunks results) := by
  rcases step_cases hstep with ⟨e, rfl, hraises, rfl⟩ | ⟨-, hconnections, -⟩
  · refine ⟨World.status_handle_ne_unused h.1, fun hlive' => ?_⟩
    rcases World.status_handle hlive' with hlive | rfl
    · have hpumped := h.2 hlive
      by_cases hwrite : e = .write c
      · subst hwrite
        rw [World.connections_handle_write, modifyAt_self]
        exact (hpumped.pump mg hresults).spare ⟨rfl, [], (List.append_nil _).symm, by simp⟩
      · refine hpumped.spare (World.sparesProducer_handle hraises hlive hok hwrite ?_)
        rintro rfl
        rw [World.handle, World.status_forget, if_pos rfl] at hlive'
        exact absurd hlive' (by simp)
    · exact absurd hraises h.1
  · rw [hconnections]
    exact h

/-- A synchronous stream that has run to its end has written its chunks in
order and the terminator, whenever its write events came. -/
theorem producerOutputs_of_ended (hlive : (cfg₁.world.connections c).status = .live)
    (hfnData : (cfg₁.world.connections c).fnData = some { mStream := some { results := results } })
    (hresults : ∀ i ≤ chunks.length, results i = chunks[i]?)
    (h : Reaches (step mg) (KeepsProducer c) cfg₁ cfg)
    (hopen : (cfg.world.connections c).status = .live)
    (hended : (cfg.world.connections c).fnData = some { mStream := none }) :
    (cfg.world.connections c).producerOutputs = (cfg₁.world.connections c).producerOutputs ++
      (chunks ++ [[]]).map fun chunk => ⟨.producer, .chunk chunk⟩ := by
  have hboth := h.invariant
    (P := fun cfg => (cfg.world.connections c).status ≠ .unused ∧
      ((cfg.world.connections c).status = .live → (cfg.world.connections c).Pumped
        (cfg₁.world.connections c).producerOutputs chunks results))
    ⟨by simp [hlive], fun _ => .running 0 (Nat.zero_le _) hfnData (List.append_nil _).symm⟩
    (fun _ _ _ h hok hstep => pumped_step hresults h hok hstep)
  cases hboth.2 hopen with
  | running k hk hfnData' => exact absurd (hfnData'.symm.trans hended) (by simp)
  | ended _ houtputs => exact houtputs

/-- An asynchronous stream that is completed has written its preamble, its
bodies in order and the terminator. -/
theorem streamOutputs_of_completed (hinit : cfg₀.Initial)
    (h₁ : Reaches (step mg) anyEvent cfg₀ cfg₁) (hhanded : cfg₁.HandedOver r s)
    (h : Reaches (step mg) (Conforming r) cfg₁ cfg) (hopen : cfg.IsOpen r) {bodies : List Bytes}
    (hplan : (cfg.history r).puts s.number = plan bodies)
    (hcompleted : (cfg.world.streams s).mState = .completed) :
    cfg.streamOutputs s = written s (cfg₁.world.streams s).mData (plan bodies) := by
  have hstreaming := streaming_of_reaches hinit h₁ hhanded h hopen
  obtain rfl := hstreaming.owes.response
  rw [streamOutputs_eq hstreaming]
  exact (hstreaming.outputs_of_plan (hplan ▸ List.prefix_rfl)).2.mpr hcompleted

/-- Once a stream has run to its end, the bytes after its preamble are one
chunked body with its chunks exactly when none of the chunks is empty; for a
synchronous stream, pulled by write events, as for an asynchronous one. -/
theorem framed_body_iff (hchunk : mg.mgHttpWriteChunk = Chunked.encodeChunk)
    (hinit : cfg₀.Initial) :
    (∀ cfg₁ cfg c results chunks, (cfg₁.world.connections c).status = .live →
      (cfg₁.world.connections c).fnData = some { mStream := some { results := results } } →
      (∀ i ≤ chunks.length, results i = chunks[i]?) →
      Reaches (step mg) (KeepsProducer c) cfg₁ cfg →
      (cfg.world.connections c).status = .live →
      (cfg.world.connections c).fnData = some { mStream := none } →
      (Framed mg ((cfg.world.connections c).producerOutputs.drop
          (cfg₁.world.connections c).producerOutputs.length) chunks ↔
        ∀ chunk ∈ chunks, chunk ≠ [])) ∧
      ∀ cfg₁ cfg r s bodies, Reaches (step mg) anyEvent cfg₀ cfg₁ → cfg₁.HandedOver r s →
        Reaches (step mg) (Conforming r) cfg₁ cfg → cfg.IsOpen r →
        (cfg.history r).puts s.number = plan bodies →
        (cfg.world.streams s).mState = .completed →
        (Framed mg ((cfg.streamOutputs s).drop 1) bodies ↔ ∀ body ∈ bodies, body ≠ []) := by
  constructor
  · intro cfg₁ cfg c results chunks hlive hfnData hresults h hopen hended
    rw [producerOutputs_of_ended hlive hfnData hresults h hopen hended, List.drop_left]
    apply framed_iff hchunk
    simp
  · intro cfg₁ cfg r s bodies h₁ hhanded h hopen hplan hcompleted
    rw [streamOutputs_of_completed hinit h₁ hhanded h hopen hplan hcompleted]
    apply framed_iff hchunk
    simp [written, plan, Put.output, Put.data]

def pulling (chunks : List Bytes) : List Event :=
  [.loop (.accept 0), .loop (.httpMessage 0 ⟨[], []⟩
    [.stream 200 (text "chunked") fun i => chunks[i]?])]

theorem framed_body_iff_one :
    (∃ cfg, run (step .plain) (start syncRoutes) (pulling [[1]] ++ flushing ++ flushing) = some cfg ∧
      (Framed .plain (cfg.world.connections 0).producerOutputs [[1]] ↔
        ∀ chunk ∈ [[(1 : UInt8)]], chunk ≠ [])) ∧
      ∃ cfg, run (step .plain) (start asyncRoutes) (openingStream ++ .loop (.wakeup 0 0) ::
          sending (.send [1]) ++ sending .close) = some cfg ∧
        (Framed .plain ((cfg.streamOutputs ⟨0, 0⟩).drop 1) [[1]] ↔
          ∀ body ∈ [[(1 : UInt8)]], body ≠ []) := by
  constructor
  · have hmeets : Meets (step .plain) (KeepsProducer 0)
        ((run (step .plain) (start syncRoutes) (pulling [[1]])).get rfl) (flushing ++ flushing) :=
      ⟨trivial, trivial, trivial, trivial, trivial⟩
    refine ⟨_, rfl, (framed_body_iff rfl (initial_start syncRoutes)).1 _ _ 0 _ [[1]] ?_ rfl ?_
      (reaches_of_run rfl hmeets) rfl rfl⟩
    · rfl
    · exact fun i _ => rfl
  · have hmeets : Meets (step .plain) (Conforming 0)
        ((run (step .plain) (start asyncRoutes) openingStream).get rfl)
        (.loop (.wakeup 0 0) :: sending (.send [1]) ++ sending .close) :=
      ⟨trivial, trivial, trivial, fun _ t => by cases t <;> nofun, fun _ => rfl, trivial, trivial,
        trivial, trivial, trivial, trivial, fun _ t => by cases t <;> nofun, fun _ => rfl, trivial,
        trivial, trivial, trivial, trivial⟩
    exact ⟨_, rfl, (framed_body_iff rfl (initial_start asyncRoutes)).2 _ _ 0 ⟨0, 0⟩ [[1]]
      (reaches_of_run rfl (meets_anyEvent _ openingStream)) handedOver_openingStream
      (reaches_of_run rfl hmeets) rfl rfl rfl⟩

/-- An empty chunk is written as the terminator, so that the real terminator is
left over after the body: for a callback that returns the empty string, and for
a producer that sends it. -/
theorem empty_chunk_ends_body :
    (∃ cfg, run (step .plain) (start syncRoutes) (pulling [[]] ++ flushing ++ flushing) = some cfg ∧
      (cfg.world.connections 0).fnData = some { mStream := none } ∧
      ¬Framed .plain (cfg.world.connections 0).producerOutputs [[]]) ∧
      ∃ cfg, run (step .plain) (start asyncRoutes) (openingStream ++ .loop (.wakeup 0 0) ::
          sending (.send []) ++ sending .close) = some cfg ∧
        (cfg.world.streams ⟨0, 0⟩).mState = .completed ∧
        ¬Framed .plain ((cfg.streamOutputs ⟨0, 0⟩).drop 1) [[]] :=
  ⟨⟨_, rfl, rfl, fun h => absurd h.decode (by decide)⟩,
    ⟨_, rfl, rfl, fun h => absurd h.decode (by decide)⟩⟩

end Config

end Mgxx.Http
