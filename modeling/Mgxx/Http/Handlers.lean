import Mgxx.Http.Endpoint
import Mathlib.Data.List.ReduceOption

/-!
What each handler does, one field at a time.  Later proofs use these lemmas
and never unfold a handler.
-/

namespace Mgxx.Http

open Mgxx.Library

namespace AsyncStream

def serve (stream : AsyncStream) : AsyncStream :=
  match stream.mState with
  | .start | .hasData => stream.getData.2.markFlush
  | .close => stream.markCompleted
  | .flush | .empty | .completed | .failed => stream

def serveOutput (stream : AsyncStream) : List Write :=
  match stream.mState with
  | .start => [.send stream.mData]
  | .hasData => [.chunk stream.mData]
  | .close => [.chunk []]
  | .flush | .empty | .completed | .failed => []

@[simp] theorem mConn_serve (stream : AsyncStream) : stream.serve.mConn = stream.mConn := by
  unfold serve
  split <;> rfl

@[simp] theorem mId_serve (stream : AsyncStream) : stream.serve.mId = stream.mId := by
  unfold serve
  split <;> rfl

def release (blocked : Bool) (stream : AsyncStream) : AsyncStream :=
  if stream.mState = .flush ∧ blocked = false then stream.markEmpty else stream

theorem release_release (blocked : Bool) (stream : AsyncStream) :
    (stream.release blocked).release blocked = stream.release blocked := by
  cases hs : stream.mState <;> cases blocked <;> simp [release, markEmpty, hs]

@[simp] theorem mConn_release (blocked : Bool) (stream : AsyncStream) :
    (stream.release blocked).mConn = stream.mConn := by
  unfold release
  split <;> rfl

@[simp] theorem mId_release (blocked : Bool) (stream : AsyncStream) :
    (stream.release blocked).mId = stream.mId := by
  unfold release
  split <;> rfl

end AsyncStream

namespace World

variable (mg : Mongoose) (w : World) (c d id r : ℕ)

/-! ### Writing -/

section Write

variable (source : Source) (o : Write)

@[simp] theorem toEndpoint_write : (w.write mg c source o).toEndpoint = w.toEndpoint := rfl
@[simp] theorem responses_write : (w.write mg c source o).responses = w.responses := rfl
@[simp] theorem streams_write : (w.write mg c source o).streams = w.streams := rfl
@[simp] theorem made_write : (w.write mg c source o).made = w.made := rfl
@[simp] theorem wakeups_write : (w.write mg c source o).wakeups = w.wakeups := rfl

theorem connections_write_of_ne (h : d ≠ c) :
    (w.write mg c source o).connections d = w.connections d := by
  simp [write, modifyAt_of_ne h]

@[simp] theorem status_write :
    ((w.write mg c source o).connections d).status = (w.connections d).status := by
  by_cases h : d = c
  · subst d
    simp [write]
  · rw [connections_write_of_ne mg w c d source o h]

@[simp] theorem fnData_write :
    ((w.write mg c source o).connections d).fnData = (w.connections d).fnData := by
  by_cases h : d = c
  · subst d
    simp [write]
  · rw [connections_write_of_ne mg w c d source o h]

theorem log_write : ((w.write mg c source o).connections d).log =
    (w.connections d).log ++ if d = c then [⟨source, o⟩] else [] := by
  by_cases h : d = c
  · subst d
    simp [write]
  · simp [connections_write_of_ne mg w c d source o h, h]

end Write

/-! ### Serving a stream -/

section Serve

variable (s : StreamRef) (stream : Option StreamRef)

@[simp] theorem responses_serveStream :
    (w.serveStream mg c id stream).responses = w.responses := by
  unfold serveStream
  repeat' (split <;> try rfl)

@[simp] theorem made_serveStream : (w.serveStream mg c id stream).made = w.made := by
  unfold serveStream
  repeat' (split <;> try rfl)

@[simp] theorem wakeups_serveStream : (w.serveStream mg c id stream).wakeups = w.wakeups := by
  unfold serveStream
  repeat' (split <;> try rfl)

@[simp] theorem mRequestCounter_serveStream :
    (w.serveStream mg c id stream).mRequestCounter = w.mRequestCounter := by
  unfold serveStream
  repeat' (split <;> try rfl)

@[simp] theorem mPendingResponses_serveStream :
    (w.serveStream mg c id stream).mPendingResponses = w.mPendingResponses := by
  unfold serveStream
  repeat' (split <;> try rfl)

theorem streams_serveStream : (w.serveStream mg c id (some s)).streams =
    modifyAt w.streams s AsyncStream.serve := by
  cases h : (w.streams s).mState with
  | start | hasData | close =>
      simp only [serveStream, h, updateStream, streams_write]
      exact modifyAt_congr (by simp only [AsyncStream.serve, h])
  | flush | empty | completed | failed =>
      simp only [serveStream, h]
      exact (modifyAt_of_fixed (by simp only [AsyncStream.serve, h])).symm

theorem find_mPendingStreams_serveStream (c' id' : ℕ) :
    (w.serveStream mg c id (some s)).mPendingStreams.find c' id' =
      if (w.streams s).mState = .close ∧ c' = c ∧ id' = id then none
      else w.mPendingStreams.find c' id' := by
  cases h : (w.streams s).mState <;>
    simp [serveStream, h, updateStream, NestedMap.find_eraseAt]

theorem connections_serveStream_of_ne (h : d ≠ c) :
    (w.serveStream mg c id stream).connections d = w.connections d := by
  unfold serveStream
  repeat' split
  all_goals first | rfl | exact connections_write_of_ne mg w c d _ _ h

@[simp] theorem status_serveStream :
    ((w.serveStream mg c id stream).connections d).status = (w.connections d).status := by
  unfold serveStream
  repeat' split
  all_goals first | rfl | exact status_write mg w c d _ _

@[simp] theorem fnData_serveStream :
    ((w.serveStream mg c id stream).connections d).fnData = (w.connections d).fnData := by
  unfold serveStream
  repeat' split
  all_goals first | rfl | exact fnData_write mg w c d _ _

theorem log_serveStream : ((w.serveStream mg c id (some s)).connections d).log =
    (w.connections d).log ++
      if d = c then (w.streams s).serveOutput.map (Output.mk (.stream s)) else [] := by
  cases h : (w.streams s).mState <;>
    simp [serveStream, h, updateStream, log_write, AsyncStream.serveOutput, AsyncStream.getData]

end Serve

/-! ### Handing a stream over, and replying -/

section Reply

@[simp] theorem mRequestCounter_handOff :
    (w.handOff c id r).mRequestCounter = w.mRequestCounter := rfl
@[simp] theorem streams_handOff : (w.handOff c id r).streams = w.streams := rfl
@[simp] theorem made_handOff : (w.handOff c id r).made = w.made := rfl
@[simp] theorem wakeups_handOff : (w.handOff c id r).wakeups = w.wakeups := rfl
@[simp] theorem connections_handOff : (w.handOff c id r).connections = w.connections := rfl

theorem responses_handOff (r' : ℕ) : (w.handOff c id r).responses r' =
    if r' = r then (w.responses r).getStream.2 else w.responses r' := by
  simp only [handOff, modifyAt_apply]

theorem find_mPendingStreams_handOff (c' id' : ℕ) :
    (w.handOff c id r).mPendingStreams.find c' id' =
      if c' = c ∧ id' = id then some (w.responses r).mStream
      else w.mPendingStreams.find c' id' := NestedMap.find_set ..

theorem find_mPendingResponses_handOff (c' id' : ℕ) :
    (w.handOff c id r).mPendingResponses.find c' id' =
      if c' = c ∧ id' = id then none else w.mPendingResponses.find c' id' :=
  NestedMap.find_eraseAt ..

/-- What `handle_response` writes for a response that is not streaming. -/
def replyOutput (r : ℕ) : Output :=
  ⟨.response r, .reply (w.responses r).mPayload.code (w.responses r).mPayload.headers
    (.sized (w.responses r).mPayload.body.length (w.responses r).mPayload.body)⟩

@[simp] theorem mRequestCounter_reply :
    (w.reply mg c id r).mRequestCounter = w.mRequestCounter := rfl
@[simp] theorem mPendingStreams_reply :
    (w.reply mg c id r).mPendingStreams = w.mPendingStreams := rfl
@[simp] theorem streams_reply : (w.reply mg c id r).streams = w.streams := rfl
@[simp] theorem made_reply : (w.reply mg c id r).made = w.made := rfl
@[simp] theorem wakeups_reply : (w.reply mg c id r).wakeups = w.wakeups := rfl

theorem responses_reply (r' : ℕ) : (w.reply mg c id r).responses r' =
    if r' = r then (w.responses r).markCompleted else w.responses r' := by
  simp only [reply, updateResponse, responses_write, modifyAt_apply]

theorem find_mPendingResponses_reply (c' id' : ℕ) :
    (w.reply mg c id r).mPendingResponses.find c' id' =
      if c' = c ∧ id' = id then none else w.mPendingResponses.find c' id' :=
  NestedMap.find_eraseAt ..

theorem connections_reply_of_ne (h : d ≠ c) :
    (w.reply mg c id r).connections d = w.connections d := connections_write_of_ne mg w c d _ _ h

@[simp] theorem status_reply :
    ((w.reply mg c id r).connections d).status = (w.connections d).status :=
  status_write mg w c d _ _

@[simp] theorem fnData_reply :
    ((w.reply mg c id r).connections d).fnData = (w.connections d).fnData :=
  fnData_write mg w c d _ _

theorem log_reply : ((w.reply mg c id r).connections d).log =
    (w.connections d).log ++ if d = c then [w.replyOutput r] else [] := log_write ..

end Reply

/-! ### Wake-ups -/

section Wakeup

variable {mg w c d id r}

theorem handleStream_of_none (h : w.mPendingStreams.find c id = none) :
    w.handleStream mg c id = (w, false) := by
  unfold handleStream
  cases hc : w.mPendingStreams.lookup c with
  | none => rfl
  | some streams =>
      rw [NestedMap.find_of_lookup hc] at h
      simp only [h]

theorem handleStream_of_some {stream : Option StreamRef}
    (h : w.mPendingStreams.find c id = some stream) :
    w.handleStream mg c id = (w.serveStream mg c id stream, true) := by
  obtain ⟨streams, hc, hid⟩ := NestedMap.exists_lookup_of_find h
  simp only [handleStream, hc, hid]

theorem handleResponse_of_none (h : w.mPendingResponses.find c id = none) :
    w.handleResponse mg c id = (w.write mg c (.notFound id) internalServerError, false) := by
  unfold handleResponse
  cases hc : w.mPendingResponses.lookup c with
  | none => rfl
  | some responses =>
      rw [NestedMap.find_of_lookup hc] at h
      simp only [h]

theorem handleResponse_of_some (h : w.mPendingResponses.find c id = some r) :
    w.handleResponse mg c id =
      if (w.responses r).mState = .streaming then (w.handOff c id r).handleStream mg c id
      else (w.reply mg c id r, true) := by
  obtain ⟨responses, hc, hid⟩ := NestedMap.exists_lookup_of_find h
  simp only [handleResponse, hc, hid]

/-- A wake-up for an entry of the stream table serves the stream. -/
theorem handleWakeup_of_stream {stream : Option StreamRef}
    (h : w.mPendingStreams.find c id = some stream) :
    w.handleWakeup mg c id = w.serveStream mg c id stream := by
  simp only [handleWakeup, handleStream_of_some h]

/-- A wake-up for a streaming response hands its stream over and serves it. -/
theorem handleWakeup_of_streaming (hstream : w.mPendingStreams.find c id = none)
    (h : w.mPendingResponses.find c id = some r) (hstate : (w.responses r).mState = .streaming) :
    w.handleWakeup mg c id =
      (w.handOff c id r).serveStream mg c id (w.responses r).mStream := by
  have hentry : (w.handOff c id r).mPendingStreams.find c id = some (w.responses r).mStream := by
    simp [find_mPendingStreams_handOff]
  simp only [handleWakeup, handleStream_of_none hstream, handleResponse_of_some h, hstate,
    if_true, handleStream_of_some hentry]

/-- A wake-up for a response in any other state replies with its payload. -/
theorem handleWakeup_of_response (hstream : w.mPendingStreams.find c id = none)
    (h : w.mPendingResponses.find c id = some r) (hstate : (w.responses r).mState ≠ .streaming) :
    w.handleWakeup mg c id = w.reply mg c id r := by
  simp only [handleWakeup, handleStream_of_none hstream, handleResponse_of_some h, hstate,
    if_false]

/-- A wake-up for an unknown id is answered twice: by `handle_response` and
again by `handle_wakeup`. -/
theorem handleWakeup_of_none (hstream : w.mPendingStreams.find c id = none)
    (h : w.mPendingResponses.find c id = none) :
    w.handleWakeup mg c id =
      (w.write mg c (.notFound id) internalServerError).write mg c (.notFound id)
        internalServerError := by
  simp only [handleWakeup, handleStream_of_none hstream, handleResponse_of_none h]

/-- The four things a delivered wake-up can lead to. -/
theorem handleWakeup_elim {P : World → Prop}
    (hstream : ∀ stream, w.mPendingStreams.find c id = some stream →
      P (w.serveStream mg c id stream))
    (hstreaming : ∀ r, w.mPendingStreams.find c id = none →
      w.mPendingResponses.find c id = some r → (w.responses r).mState = .streaming →
      P ((w.handOff c id r).serveStream mg c id (w.responses r).mStream))
    (hreply : ∀ r, w.mPendingStreams.find c id = none →
      w.mPendingResponses.find c id = some r → (w.responses r).mState ≠ .streaming →
      P (w.reply mg c id r))
    (hnone : w.mPendingStreams.find c id = none → w.mPendingResponses.find c id = none →
      P ((w.write mg c (.notFound id) internalServerError).write mg c (.notFound id)
        internalServerError)) :
    P (w.handleWakeup mg c id) := by
  cases hs : w.mPendingStreams.find c id with
  | some stream => exact handleWakeup_of_stream hs ▸ hstream stream hs
  | none =>
      cases hr : w.mPendingResponses.find c id with
      | none => exact handleWakeup_of_none hs hr ▸ hnone hs hr
      | some r =>
          by_cases hstate : (w.responses r).mState = .streaming
          · exact handleWakeup_of_streaming hs hr hstate ▸ hstreaming r hs hr hstate
          · exact handleWakeup_of_response hs hr hstate ▸ hreply r hs hr hstate

variable (mg w c id) in
theorem streams_serveStream_cases (stream : Option StreamRef) (s : StreamRef) :
    (w.serveStream mg c id stream).streams s = w.streams s ∨
      (w.serveStream mg c id stream).streams s = (w.streams s).serve := by
  cases stream with
  | none => exact Or.inl rfl
  | some s' =>
      rw [streams_serveStream, modifyAt_apply]
      split_ifs with hs
      · exact Or.inr (hs ▸ rfl)
      · exact Or.inl rfl

variable (mg w c id) in
/-- A wake-up leaves a stream alone or serves it. -/
theorem streams_handleWakeup (s : StreamRef) :
    (w.handleWakeup mg c id).streams s = w.streams s ∨
      (w.handleWakeup mg c id).streams s = (w.streams s).serve := by
  refine handleWakeup_elim
    (P := fun w' => w'.streams s = w.streams s ∨ w'.streams s = (w.streams s).serve) ?_ ?_ ?_ ?_
  · exact fun stream _ => streams_serveStream_cases mg w c id stream s
  · exact fun r _ _ _ => streams_serveStream_cases mg (w.handOff c id r) c id _ s
  · exact fun r _ _ _ => Or.inl rfl
  · exact fun _ _ => Or.inl rfl

variable (mg w c id) in
@[simp] theorem made_handleWakeup : (w.handleWakeup mg c id).made = w.made := by
  apply handleWakeup_elim (P := fun w' => w'.made = w.made) <;> intros <;> simp

@[simp] theorem mRequestCounter_handleWakeup :
    (w.handleWakeup mg c id).mRequestCounter = w.mRequestCounter := by
  apply handleWakeup_elim (P := fun w' => w'.mRequestCounter = w.mRequestCounter) <;>
    intros <;> simp

@[simp] theorem mConn_handleWakeup :
    ((w.handleWakeup mg c id).responses r).mConn = (w.responses r).mConn := by
  apply handleWakeup_elim (P := fun w' => (w'.responses r).mConn = (w.responses r).mConn)
  · intros
    simp
  · intro r' _ _ _
    rw [responses_serveStream, responses_handOff]
    split_ifs with h
    · rw [h]; rfl
    · rfl
  · intro r' _ _ _
    rw [responses_reply]
    split_ifs with h
    · rw [h]; rfl
    · rfl
  · intros
    simp

@[simp] theorem status_handleWakeup :
    ((w.handleWakeup mg c id).connections d).status = (w.connections d).status := by
  apply handleWakeup_elim
    (P := fun w' => (w'.connections d).status = (w.connections d).status) <;> intros <;> simp

@[simp] theorem fnData_handleWakeup :
    ((w.handleWakeup mg c id).connections d).fnData = (w.connections d).fnData := by
  apply handleWakeup_elim
    (P := fun w' => (w'.connections d).fnData = (w.connections d).fnData) <;> intros <;> simp

theorem connections_handleWakeup_of_ne (h : d ≠ c) :
    (w.handleWakeup mg c id).connections d = w.connections d := by
  apply handleWakeup_elim (P := fun w' => w'.connections d = w.connections d) <;> intros
  · rw [connections_serveStream_of_ne _ _ _ _ _ _ h]
  · rw [connections_serveStream_of_ne _ _ _ _ _ _ h, connections_handOff]
  · rw [connections_reply_of_ne _ _ _ _ _ _ h]
  · rw [connections_write_of_ne _ _ _ _ _ _ h, connections_write_of_ne _ _ _ _ _ _ h]

end Wakeup

/-! ### Polls -/

def failedIds : List ℕ :=
  match w.mPendingResponses.lookup c with
  | none => []
  | some responses =>
      (responses.entries.filter fun entry => (w.responses entry.2).mState = .failed).map Sigma.fst

def fail (w : World) (id : ℕ) : World :=
  let w := w.write mg c (.failed id) internalServerError
  { w with mPendingResponses := w.mPendingResponses.eraseAt c id }

section Poll

theorem foldl_pollEntry (entries : List (Σ _ : ℕ, ℕ)) :
    entries.foldl (pollEntry mg c) w =
      ((entries.filter fun entry => (w.responses entry.2).mState = .failed).map Sigma.fst).foldl
        (fail mg c) w := by
  induction entries generalizing w with
  | nil => rfl
  | cons entry entries ih =>
      rw [List.foldl_cons, ih]
      by_cases h : (w.responses entry.2).mState = .failed
      · have hresponses : (pollEntry mg c w entry).responses = w.responses := by
          simp [pollEntry, h]
        simp only [hresponses]
        simp [h, pollEntry, fail]
      · simp [h, pollEntry]

theorem handlePoll_eq : w.handlePoll mg c = (w.failedIds c).foldl (fail mg c) w := by
  unfold handlePoll failedIds
  cases w.mPendingResponses.lookup c with
  | none => rfl
  | some responses => exact foldl_pollEntry mg w c responses.entries

theorem mem_failedIds : id ∈ w.failedIds c ↔
    ∃ r, w.mPendingResponses.find c id = some r ∧ (w.responses r).mState = .failed := by
  unfold failedIds
  cases hc : w.mPendingResponses.lookup c with
  | none => simp [NestedMap.find_of_lookup_none hc]
  | some responses =>
      simp only [NestedMap.find_of_lookup hc, List.mem_map, List.mem_filter, decide_eq_true_eq]
      constructor
      · rintro ⟨⟨_, r⟩, ⟨hmem, hr⟩, rfl⟩
        exact ⟨r, AList.mem_lookup_iff.mpr hmem, hr⟩
      · rintro ⟨r, hid, hr⟩
        exact ⟨⟨id, r⟩, ⟨AList.mem_lookup_iff.mp hid, hr⟩, rfl⟩

theorem nodup_failedIds : (w.failedIds c).Nodup := by
  unfold failedIds
  cases w.mPendingResponses.lookup c with
  | none => exact List.nodup_nil
  | some responses => exact List.Nodup.sublist (List.filter_sublist.map _) responses.nodupKeys

variable (ids : List ℕ)

/-- A poll changes one connection and the table of responses. -/
theorem foldl_fail : ids.foldl (fail mg c) w =
    { w with
      connections := ids.foldl (fun conns id => modifyAt conns c fun conn =>
        conn.write mg (.failed id) internalServerError) w.connections
      mPendingResponses := ids.foldl (fun m id => m.eraseAt c id) w.mPendingResponses } := by
  induction ids generalizing w with
  | nil => rfl
  | cons id ids ih => rw [List.foldl_cons, ih]; rfl

theorem find_foldl_eraseAt (m : NestedMap ℕ ℕ ℕ) (c' id' : ℕ) :
    (ids.foldl (fun m id => m.eraseAt c id) m).find c' id' =
      if c' = c ∧ id' ∈ ids then none else m.find c' id' := by
  induction ids generalizing m with
  | nil => simp
  | cons id ids ih =>
      rw [List.foldl_cons, ih, NestedMap.find_eraseAt]
      by_cases hc : c' = c <;> by_cases hid : id' = id <;> by_cases hmem : id' ∈ ids <;>
        simp [hc, hid, hmem]

theorem foldl_write_apply (conns : ℕ → Connection) :
    let conns' := ids.foldl (fun conns id => modifyAt conns c fun conn =>
      conn.write mg (.failed id) internalServerError) conns
    (∀ d, d ≠ c → conns' d = conns d) ∧ (conns' c).status = (conns c).status ∧
      (conns' c).fnData = (conns c).fnData ∧
      (conns' c).log = (conns c).log ++ ids.map fun id => ⟨.failed id, internalServerError⟩ := by
  induction ids generalizing conns with
  | nil => simp
  | cons id ids ih =>
      obtain ⟨hne, hstatus, hdata, hlog⟩ := ih (modifyAt conns c fun conn =>
        conn.write mg (.failed id) internalServerError)
      refine ⟨fun d hd => (hne d hd).trans (modifyAt_of_ne hd ..), ?_, ?_, ?_⟩
      · simpa using hstatus
      · simpa using hdata
      · simpa using hlog

@[simp] theorem responses_handlePoll : (w.handlePoll mg c).responses = w.responses := by
  rw [handlePoll_eq, foldl_fail]

@[simp] theorem streams_handlePoll : (w.handlePoll mg c).streams = w.streams := by
  rw [handlePoll_eq, foldl_fail]

@[simp] theorem made_handlePoll : (w.handlePoll mg c).made = w.made := by
  rw [handlePoll_eq, foldl_fail]

@[simp] theorem wakeups_handlePoll : (w.handlePoll mg c).wakeups = w.wakeups := by
  rw [handlePoll_eq, foldl_fail]

@[simp] theorem mRequestCounter_handlePoll :
    (w.handlePoll mg c).mRequestCounter = w.mRequestCounter := by
  rw [handlePoll_eq, foldl_fail]

@[simp] theorem mPendingStreams_handlePoll :
    (w.handlePoll mg c).mPendingStreams = w.mPendingStreams := by
  rw [handlePoll_eq, foldl_fail]

theorem find_mPendingResponses_handlePoll (c' id' : ℕ) :
    (w.handlePoll mg c).mPendingResponses.find c' id' =
      if c' = c ∧ id' ∈ w.failedIds c then none else w.mPendingResponses.find c' id' := by
  rw [handlePoll_eq, foldl_fail]
  exact find_foldl_eraseAt c _ _ c' id'

theorem connections_handlePoll_of_ne (h : d ≠ c) :
    (w.handlePoll mg c).connections d = w.connections d := by
  rw [handlePoll_eq, foldl_fail]
  exact (foldl_write_apply mg c _ w.connections).1 d h

@[simp] theorem status_handlePoll :
    ((w.handlePoll mg c).connections d).status = (w.connections d).status := by
  by_cases h : d = c
  · subst d
    rw [handlePoll_eq, foldl_fail]
    exact (foldl_write_apply mg c _ w.connections).2.1
  · rw [connections_handlePoll_of_ne mg w c d h]

@[simp] theorem fnData_handlePoll :
    ((w.handlePoll mg c).connections d).fnData = (w.connections d).fnData := by
  by_cases h : d = c
  · subst d
    rw [handlePoll_eq, foldl_fail]
    exact (foldl_write_apply mg c _ w.connections).2.2.1
  · rw [connections_handlePoll_of_ne mg w c d h]

theorem log_handlePoll : ((w.handlePoll mg c).connections d).log = (w.connections d).log ++
    if d = c then (w.failedIds c).map fun id => ⟨.failed id, internalServerError⟩ else [] := by
  by_cases h : d = c
  · subst d
    rw [handlePoll_eq, foldl_fail, if_pos rfl]
    exact (foldl_write_apply mg c _ w.connections).2.2.2
  · rw [connections_handlePoll_of_ne mg w c d h, if_neg h, List.append_nil]

end Poll

/-! ### Write events -/

section HandleWrite

/-- Whether `pump_async_stream` finds no room on the connection being pumped. -/
def blocked : Bool := mg.ioSize ≤ ((w.pumpStream mg c).connections c).send.length

theorem pumpAsyncStream_some (s : StreamRef) : pumpAsyncStream mg c w (some s) =
    w.updateStream s (AsyncStream.release (mg.ioSize ≤ (w.connections c).send.length)) := by
  by_cases hs : (w.streams s).mState = .flush
  · by_cases hroom : mg.ioSize ≤ (w.connections c).send.length
    · rw [updateStream, modifyAt_of_fixed (by simp [AsyncStream.release, hroom])]
      simp [pumpAsyncStream, hs, hroom]
    · have hempty : (w.streams s).release (mg.ioSize ≤ (w.connections c).send.length) =
          (w.streams s).markEmpty := by simp [AsyncStream.release, hs, hroom]
      rw [updateStream, modifyAt_congr hempty]
      simp [pumpAsyncStream, hs, hroom, updateStream]
  · rw [updateStream, modifyAt_of_fixed (by simp [AsyncStream.release, hs])]
    simp [pumpAsyncStream, hs]

theorem foldl_pumpAsyncStream (l : List (Option StreamRef)) :
    l.foldl (pumpAsyncStream mg c) w =
      { w with streams := l.reduceOption.foldl (fun heap s => modifyAt heap s
          (AsyncStream.release (mg.ioSize ≤ (w.connections c).send.length))) w.streams } := by
  induction l generalizing w with
  | nil => rfl
  | cons p l ih =>
      cases p with
      | none => exact ih w
      | some s => rw [List.foldl_cons, pumpAsyncStream_some, ih]; rfl

/-- The streams of the table, on whatever connection. -/
def tableStreams : List StreamRef := w.mPendingStreams.values.reduceOption

theorem mem_tableStreams (s : StreamRef) :
    s ∈ w.tableStreams ↔ ∃ d id, w.mPendingStreams.find d id = some (some s) := by
  rw [tableStreams, List.reduceOption_mem_iff, NestedMap.mem_values]

theorem handleWrite_eq : w.handleWrite mg c =
    { w.pumpStream mg c with
      streams := w.tableStreams.foldl (fun heap s => modifyAt heap s
        (AsyncStream.release (w.blocked mg c))) w.streams } :=
  foldl_pumpAsyncStream ..

@[simp] theorem toEndpoint_handleWrite : (w.handleWrite mg c).toEndpoint = w.toEndpoint := by
  rw [handleWrite_eq]
  rfl

@[simp] theorem responses_handleWrite : (w.handleWrite mg c).responses = w.responses := by
  rw [handleWrite_eq]
  rfl

@[simp] theorem made_handleWrite : (w.handleWrite mg c).made = w.made := by
  rw [handleWrite_eq]
  rfl

@[simp] theorem wakeups_handleWrite : (w.handleWrite mg c).wakeups = w.wakeups := by
  rw [handleWrite_eq]
  rfl

/-- A write event on any connection reaches every stream of the table. -/
theorem streams_handleWrite (s : StreamRef) : (w.handleWrite mg c).streams s =
    if s ∈ w.tableStreams then (w.streams s).release (w.blocked mg c) else w.streams s := by
  simp only [handleWrite_eq]
  exact foldl_modifyAt_apply (AsyncStream.release_release _) ..

theorem connections_handleWrite : (w.handleWrite mg c).connections =
    modifyAt w.connections c fun conn => conn.pumpStream mg := by
  rw [handleWrite_eq]
  rfl

theorem connections_handleWrite_of_ne (h : d ≠ c) :
    (w.handleWrite mg c).connections d = w.connections d := by
  rw [connections_handleWrite, modifyAt_of_ne h]

@[simp] theorem status_handleWrite :
    ((w.handleWrite mg c).connections d).status = (w.connections d).status := by
  rw [connections_handleWrite, modifyAt_apply]
  split <;> simp [*]

/-- A write event writes for the producer of a synchronous stream only. -/
theorem log_handleWrite : ∃ out, ((w.handleWrite mg c).connections d).log =
    (w.connections d).log ++ out ∧ ∀ o ∈ out, o.source = .producer := by
  by_cases h : d = c
  · subst d
    rw [connections_handleWrite, modifyAt_self]
    exact Connection.log_pumpStream mg (w.connections c)
  · exact ⟨[], by rw [connections_handleWrite_of_ne mg w c d h, List.append_nil], by simp⟩

end HandleWrite

/-! ### Closing a connection -/

section HandleClose

theorem foldl_updateResponse (rs : List ℕ) (f : AsyncResponse → AsyncResponse) :
    rs.foldl (fun w r => updateResponse w r f) w =
      { w with responses := rs.foldl (fun heap r => modifyAt heap r f) w.responses } := by
  induction rs generalizing w with
  | nil => rfl
  | cons r rs ih => rw [List.foldl_cons, ih]; rfl

theorem foldl_updateStream (ss : List StreamRef) (f : AsyncStream → AsyncStream) :
    ss.foldl (fun w s => updateStream w s f) w =
      { w with streams := ss.foldl (fun heap s => modifyAt heap s f) w.streams } := by
  induction ss generalizing w with
  | nil => rfl
  | cons s ss ih => rw [List.foldl_cons, ih]; rfl

def responsesOf : List ℕ :=
  ((w.mPendingResponses.lookup c).getD ∅).entries.map Sigma.snd

def streamsOf : List StreamRef :=
  ((w.mPendingStreams.lookup c).getD ∅).entries.filterMap Sigma.snd

theorem mem_responsesOf : r ∈ w.responsesOf c ↔ ∃ id, w.mPendingResponses.find c id = some r := by
  unfold responsesOf
  cases hc : w.mPendingResponses.lookup c with
  | none => simp [NestedMap.find_of_lookup_none hc]
  | some responses =>
      simp only [NestedMap.find_of_lookup hc, Option.getD_some, List.mem_map]
      constructor
      · rintro ⟨⟨id, _⟩, hmem, rfl⟩
        exact ⟨id, AList.mem_lookup_iff.mpr hmem⟩
      · rintro ⟨id, hid⟩
        exact ⟨⟨id, r⟩, AList.mem_lookup_iff.mp hid, rfl⟩

theorem mem_streamsOf (s : StreamRef) :
    s ∈ w.streamsOf c ↔ ∃ id, w.mPendingStreams.find c id = some (some s) := by
  unfold streamsOf
  cases hc : w.mPendingStreams.lookup c with
  | none => simp [NestedMap.find_of_lookup_none hc]
  | some streams =>
      simp only [NestedMap.find_of_lookup hc, Option.getD_some, List.mem_filterMap]
      constructor
      · rintro ⟨⟨id, p⟩, hmem, rfl⟩
        exact ⟨id, AList.mem_lookup_iff.mpr hmem⟩
      · rintro ⟨id, hid⟩
        exact ⟨⟨id, some s⟩, AList.mem_lookup_iff.mp hid, rfl⟩

theorem erase_of_lookup_none {β : Type} {m : NestedMap ℕ ℕ β} (h : m.lookup c = none) :
    m.erase c = m :=
  AList.ext (List.kerase_of_notMem_keys (AList.lookup_eq_none.mp h))

/-- Closing fails what the two tables hold for the connection. -/
theorem handleClose_eq : w.handleClose c =
    { w with
      responses := (w.responsesOf c).foldl
        (fun heap r => modifyAt heap r AsyncResponse.markFailed) w.responses
      streams := (w.streamsOf c).foldl
        (fun heap s => modifyAt heap s AsyncStream.markFailed) w.streams
      mPendingResponses := w.mPendingResponses.erase c
      mPendingStreams := w.mPendingStreams.erase c
      connections := modifyAt w.connections c fun conn => { conn with fnData := none } } := by
  unfold handleClose responsesOf streamsOf
  cases hr : w.mPendingResponses.lookup c <;> cases hs : w.mPendingStreams.lookup c <;>
    simp [hs, foldl_updateResponse, foldl_updateStream, erase_of_lookup_none, hr]

@[simp] theorem made_handleClose : (w.handleClose c).made = w.made := by
  rw [handleClose_eq]

@[simp] theorem wakeups_handleClose : (w.handleClose c).wakeups = w.wakeups := by
  rw [handleClose_eq]

@[simp] theorem mRequestCounter_handleClose :
    (w.handleClose c).mRequestCounter = w.mRequestCounter := by
  rw [handleClose_eq]

theorem find_mPendingResponses_handleClose (c' id' : ℕ) :
    (w.handleClose c).mPendingResponses.find c' id' =
      if c' = c then none else w.mPendingResponses.find c' id' := by
  rw [handleClose_eq]
  exact NestedMap.find_erase ..

theorem find_mPendingStreams_handleClose (c' id' : ℕ) :
    (w.handleClose c).mPendingStreams.find c' id' =
      if c' = c then none else w.mPendingStreams.find c' id' := by
  rw [handleClose_eq]
  exact NestedMap.find_erase ..

theorem responses_handleClose : (w.handleClose c).responses r =
    if r ∈ w.responsesOf c then (w.responses r).markFailed else w.responses r := by
  have hidem (x : AsyncResponse) : x.markFailed.markFailed = x.markFailed := rfl
  rw [handleClose_eq]
  exact foldl_modifyAt_apply hidem ..

@[simp] theorem mConn_handleClose :
    ((w.handleClose c).responses r).mConn = (w.responses r).mConn := by
  rw [responses_handleClose]
  split_ifs <;> rfl

theorem streams_handleClose (s : StreamRef) : (w.handleClose c).streams s =
    if s ∈ w.streamsOf c then (w.streams s).markFailed else w.streams s := by
  have hidem (x : AsyncStream) : x.markFailed.markFailed = x.markFailed := rfl
  rw [handleClose_eq]
  exact foldl_modifyAt_apply hidem ..

theorem connections_handleClose_of_ne (h : d ≠ c) :
    (w.handleClose c).connections d = w.connections d := by
  simp [handleClose_eq, modifyAt_of_ne h]

@[simp] theorem status_handleClose :
    ((w.handleClose c).connections d).status = (w.connections d).status := by
  rw [handleClose_eq]
  by_cases h : d = c <;> simp [h, modifyAt_of_ne]

@[simp] theorem log_handleClose :
    ((w.handleClose c).connections d).log = (w.connections d).log := by
  rw [handleClose_eq]
  by_cases h : d = c <;> simp [h, modifyAt_of_ne]

end HandleClose

/-! ### HTTP messages -/

section HandleHttpMessage

variable {mg w c}

theorem invoke_cases (listener : Listener) (calls : List ResponseCall) :
    w.invoke mg c listener calls = w.addResponse c ∨
      ∃ conns, w.invoke mg c listener calls = { w with connections := conns } ∧
        Response.ActsOnly c w.connections conns := by
  unfold invoke
  split
  · exact Or.inl rfl
  · exact Or.inr ⟨_, rfl, Response.calls_actsOnly (Or.inl rfl) calls⟩

variable (mg w c) in
/-- A request is entered in the table, or something is written on its connection. -/
theorem handleHttpMessage_cases (msg : HttpMessage) (calls : List ResponseCall) :
    w.handleHttpMessage mg c msg calls = w.addResponse c ∨
      ∃ conns, w.handleHttpMessage mg c msg calls = { w with connections := conns } ∧
        Response.ActsOnly c w.connections conns := by
  have hwrite (o : Write) : ∃ conns, w.write mg c .handler o = { w with connections := conns } ∧
      Response.ActsOnly c w.connections conns :=
    ⟨_, rfl, Response.actsOnly_modifyAt (fun _ => rfl) ⟨_, rfl, by simp⟩
      fun h => h.write mg .handler o⟩
  unfold handleHttpMessage
  cases dispatch mg w.toEndpoint msg with
  | listener path listener groups => exact invoke_cases listener calls
  | asset path asset => exact Or.inr (hwrite _)
  | fallback listener => exact invoke_cases listener calls
  | notFound => exact Or.inr (hwrite _)

@[simp] theorem status_handleHttpMessage (d : ℕ) (msg : HttpMessage) (calls : List ResponseCall) :
    ((w.handleHttpMessage mg c msg calls).connections d).status = (w.connections d).status := by
  rcases handleHttpMessage_cases mg w c msg calls with hadd | ⟨conns, hconns, hacts⟩
  · rw [hadd]
    rfl
  · rw [hconns]
    by_cases hd : d = c
    · subst d
      exact hacts.status
    · simp only [hacts.others d hd]

theorem responses_handleHttpMessage {r : ℕ} (hr : r < w.mRequestCounter) (msg : HttpMessage)
    (calls : List ResponseCall) :
    (w.handleHttpMessage mg c msg calls).responses r = w.responses r := by
  rcases handleHttpMessage_cases mg w c msg calls with hadd | ⟨conns, hconns, -⟩
  · simp [hadd, addResponse, modifyAt_of_ne (Nat.ne_of_lt hr)]
  · rw [hconns]

theorem fnData_handleHttpMessage (msg : HttpMessage) {calls : List ResponseCall}
    (hcalls : ∀ call ∈ calls, call.isStream = false) (d : ℕ) :
    ((w.handleHttpMessage mg c msg calls).connections d).fnData = (w.connections d).fnData := by
  have hinvoke (listener : Listener) :
      ((w.invoke mg c listener calls).connections d).fnData = (w.connections d).fnData := by
    unfold invoke
    split
    · rfl
    · exact Response.fnData_calls hcalls d
  unfold handleHttpMessage
  cases dispatch mg w.toEndpoint msg with
  | listener path listener groups => exact hinvoke listener
  | asset path asset => exact fnData_write mg w c d _ _
  | fallback listener => exact hinvoke listener
  | notFound => exact fnData_write mg w c d _ _

end HandleHttpMessage

end World

end Mgxx.Http
