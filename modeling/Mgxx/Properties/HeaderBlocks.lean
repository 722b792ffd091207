import Mgxx.Properties.Bodies
import Mgxx.Properties.HeadFrames
import Mgxx.Http.Routes

/-!
Header maps and the blocks they are written as: the two correspond exactly as
long as the names and values hold no separators.
-/

namespace Mgxx.Http

open Mgxx.Library

namespace Headers

/-- The map that `stream` formats: framed by an encoding, not by a length. -/
def framed (headers : Headers) (encoding : Bytes) : Headers :=
  (headers.remove (text "Content-Length")).set (text "Transfer-Encoding") encoding

theorem entries_set_ne_nil (headers : Headers) (name value : Bytes) :
    (headers.set name value).entries ≠ [] := by
  unfold set
  split
  · rename_i h
    intro hnil
    have hempty : headers.entries = [] := List.map_eq_nil_iff.mp hnil
    simp [has, hempty] at h
  · simp

theorem sentFields_framed (headers : Headers) (encoding : Bytes) :
    (headers.framed encoding).sentFields = (headers.framed encoding).entries :=
  if_neg (entries_set_ne_nil _ _ _)

/-- A block has as many lines as the map has entries exactly when no line ends
inside an entry. -/
theorem length_lines_format_iff (headers : Headers) :
    (Fields.lines 13 10 (headers.format true)).1.length = headers.size ↔
      ∀ entry ∈ headers.entries, ¬ [13, 10] <:+: entry.1 ∧ ¬ [13, 10] <:+: entry.2 := by
  have hsize : headers.size =
      (headers.entries.map fun entry => entry.1 ++ 58 :: 32 :: entry.2).length := by simp [size]
  rw [format_true, fieldBlock, Fields.block, hsize, Fields.length_lines_unlines_iff (by decide),
    List.forall_mem_map]
  refine forall₂_congr fun entry _ => ?_
  rw [Fields.infix_field (by decide) (by decide) (by decide) (by decide), not_or]

theorem readFields_format_iff (headers : Headers) :
    readFields (headers.format true) = some headers.entries ↔
      ∀ entry ∈ headers.entries, Intact entry := by
  rw [format_true, readFields_fieldBlock_iff]

end Headers

/-! ### The preambles -/

theorem formatPreamble_framed (code : ℤ) (headers : Headers) (encoding : Bytes) :
    formatPreamble code (headers.framed encoding).format =
      (preambleFrame code).bytes (fieldBlock (headers.framed encoding).entries) := by
  rw [formatPreamble_eq, Headers.format_false, Headers.sentFields_framed]

/-- `response::stream` writes a preamble and nothing else. -/
theorem Response.send_stream (mg : Mongoose) (conns : ℕ → Connection) {res : Response} {c : ℕ}
    (hres : res.mConn = some c) (code : ℤ) (encoding : Bytes) (results : ℕ → Option Bytes) :
    ((res.stream mg conns code encoding results).1 c).send = (conns c).send ++
      (preambleFrame code).bytes (fieldBlock (res.mHeaders.framed encoding).entries) := by
  rw [← formatPreamble_framed]
  simp [Response.stream, hres, Connection.write, Write.bytes, Connection.setStream, Headers.framed]

structure View.Opened (s : StreamRef) (preamble : Bytes) (v : View) : Prop where
  pending : v.pending = true
  table : v.table = none
  mState : v.shared.response.mState = .streaming
  mStream : v.shared.response.mStream = some s
  start : (v.shared.stream s.number).mState = .start
  mData : (v.shared.stream s.number).mData = preamble

/-- No one but a producer that does not wait, and a delivery, touches the preamble. -/
theorem View.Opened.atomicStep {s : StreamRef} {preamble : Bytes} {v : View} {r : ℕ}
    {ve : View.AtomicEvent} (h : v.Opened s preamble) (hdeliver : ve ≠ .deliver)
    (hput : ∀ s op wake, ve ≠ .put s op wake) : (v.atomicStep r ve).Opened s preamble := by
  rcases View.atomicStep_settled (r := r) h.table (by simp [h.mState]) (by simp [h.mState]) hdeliver
    hput with hsame | ⟨headers, hsame⟩ | ⟨call, hsame⟩
  · rwa [hsame]
  · rw [hsame]
    exact ⟨h.pending, h.table, h.mState, h.mStream, h.start, h.mData⟩
  · rw [hsame]
    exact ⟨h.pending, h.table, h.mState, h.mStream, h.start, h.mData⟩

namespace Config

variable {mg : Mongoose} {cfg cfg₀ cfg₁ cfg₂ cfg₃ : Config} {r : ℕ}

/-- No wake-up of `r` is delivered, and no stream of `r` is written. -/
def Untouched (r : ℕ) (_ : Config) (e : AtomicEvent) : Prop :=
  (∀ c, e ≠ .loop (.wakeup c r)) ∧ ∀ s op wake, s.response = r → e ≠ .put s op wake

theorem opened_of_call {code : ℤ} {encoding : Bytes} (hinit : cfg₀.Initial)
    (h : Reaches (atomicStep mg) anyEvent cfg₀ cfg)
    (hstate : (cfg.world.responses r).mState = .pending)
    (hcall : cfg.atomicStep mg (.call r (.stream code encoding) .accepted) = some cfg₁)
    (hopen : cfg₁.IsOpen r) :
    (cfg₁.view r).Opened ⟨r, cfg.world.made r⟩
      ((cfg.world.responses r).preamble code encoding) := by
  obtain ⟨hunasked, hview⟩ := unasked_of_call hinit h hstate hcall hopen
  have hresponse : (cfg.view r).shared.response = cfg.world.responses r := rfl
  have hmade : (cfg.view r).shared.made = cfg.world.made r := rfl
  rw [hview]
  refine ⟨hunasked.pending, hunasked.table, ?_, ?_, ?_, ?_⟩ <;>
    simp [View.atomicStep, Shared.wholeCall, AsyncResponse.stream, hresponse, hstate, hmade]

/-- The preamble that `stream` has formatted is written when its wake-up is
delivered, whatever happens in between, unless the stream is written first. -/
theorem preamble_of_stream {code : ℤ} {encoding : Bytes} {c : ℕ} (hinit : cfg₀.Initial)
    (h : Reaches (atomicStep mg) anyEvent cfg₀ cfg)
    (hstate : (cfg.world.responses r).mState = .pending)
    (hcall : cfg.atomicStep mg (.call r (.stream code encoding) .accepted) = some cfg₁)
    (h₂ : Reaches (atomicStep mg) (Untouched r) cfg₁ cfg₂)
    (hdeliver : cfg₂.atomicStep mg (.loop (.wakeup c r)) = some cfg₃) :
    (cfg₃.world.connections c).send = (cfg₂.world.connections c).send ++
      (cfg.world.responses r).preamble code encoding := by
  have h₁ := h.next (e := .call r (.stream code encoding) .accepted) trivial hcall
  have hreach₂ := h₁.trans (h₂.mono fun _ _ _ => trivial)
  have howned := Owned.of_atomic hinit hreach₂
  obtain ⟨hraises, rfl⟩ := step_loop hdeliver
  obtain ⟨hr, hconn⟩ := howned.wakeup c r hraises.2
  have hconn : cfg₂.conn r = c := hconn
  have hopened : (cfg₂.view r).Opened ⟨r, cfg.world.made r⟩
      ((cfg.world.responses r).preamble code encoding) := by
    refine view_invariant (P := fun v => v.Opened _ _) hinit h₁ h₂ ?_ ?_ ?_ hr ?_
    · exact fun _ => opened_of_call hinit h hstate hcall
    · intro hle
      obtain ⟨hlt, rfl⟩ := atomicStep_call hcall
      exact absurd hlt (Nat.not_lt.mpr hle)
    · intro cfg e ve _ hok habout _ hv
      have hevent := atomicEvent_of_about habout
      refine hv.atomicStep ?_ ?_
      · rintro rfl
        obtain ⟨c', rfl⟩ := hevent
        exact hok.1 c' rfl
      · rintro s op wake rfl
        exact hok.2 s op wake hevent.2 hevent.1
    · rw [IsOpen, hconn]
      exact hraises.1
  obtain ⟨r', hentry⟩ := Option.isSome_iff_exists.mp hopened.pending
  obtain ⟨rfl, -⟩ := howned.responseEntry _ _ _ hentry
  rw [hconn] at hentry
  have hstream : cfg₂.world.mPendingStreams.find c r' = none :=
    hconn ▸ find_mPendingStreams_of_table howned hopened.table
  have hstate₂ : (cfg₂.world.responses r').mState = .streaming := hopened.mState
  have hmStream : (cfg₂.world.responses r').mStream = some ⟨r', cfg.world.made r'⟩ :=
    hopened.mStream
  have hstart : (cfg₂.world.streams ⟨r', cfg.world.made r'⟩).mState = .start := hopened.start
  have hdata : (cfg₂.world.streams ⟨r', cfg.world.made r'⟩).mData = _ := hopened.mData
  have hserve : (cfg₂.world.take c r').handleWakeup mg c r' =
      ((cfg₂.world.take c r').handOff c r' r').serveStream mg c r'
        (some ⟨r', cfg.world.made r'⟩) := by
    rw [World.handleWakeup_of_streaming (w := cfg₂.world.take c r') hstream hentry hstate₂]
    exact congrArg _ hmStream
  rw [World.handle, hserve]
  simp [World.serveStream, World.updateStream, World.write, World.take, World.handOff, hstart,
    Connection.write, Write.bytes, AsyncStream.getData, hdata]

/-- A header map is read back from its block, and from each head the block is
written in, exactly when its entries are intact and, where the block is printed
as a C string, have no NUL. -/
theorem header_blocks_iff (hinit : cfg₀.Initial) :
    (∀ headers : Headers, (Fields.lines 13 10 (headers.format true)).2 = [] ∧
      ((Fields.lines 13 10 (headers.format true)).1.length = headers.size ↔
        ∀ entry ∈ headers.entries, ¬ [13, 10] <:+: entry.1 ∧ ¬ [13, 10] <:+: entry.2)) ∧
      (∀ headers : Headers, readFields (headers.format true) = some headers.entries ↔
        ∀ entry ∈ headers.entries, Intact entry) ∧
      (∀ headers headers' : Headers, (∀ entry ∈ headers.entries, Intact entry) →
        (∀ entry ∈ headers'.entries, Intact entry) →
        headers.format true = headers'.format true → headers.entries = headers'.entries) ∧
      (∀ reply, mg.RepliesIn reply → ∀ conns c res code body, res.mConn = some c → ∃ response,
        ((Response.send mg conns res code body).1 c).send = (conns c).send ++ response ∧
        ((reply code (sentBody body)).Carries res.mHeaders.sentFields response ↔
          ∀ field ∈ res.mHeaders.sentFields, Intact field ∧ NulFree field)) ∧
      (∀ reply, mg.RepliesIn reply → ∀ cfg cfg₁ cfg₂ cfg₃ r c code body,
        Reaches (atomicStep mg) anyEvent cfg₀ cfg →
        (cfg.world.responses r).mState = .pending →
        cfg.atomicStep mg (.call r (.send code body) .accepted) = some cfg₁ →
        Reaches (atomicStep mg) (Undelivered r) cfg₁ cfg₂ →
        cfg₂.atomicStep mg (.loop (.wakeup c r)) = some cfg₃ → ∃ response,
        (cfg₃.world.connections c).send = (cfg₂.world.connections c).send ++ response ∧
        ((reply code (sentBody body)).Carries
            (cfg.world.responses r).mHeaders.sentFields response ↔
          ∀ field ∈ (cfg.world.responses r).mHeaders.sentFields, Intact field ∧ NulFree field)) ∧
      (∀ conns c res code encoding results, res.mConn = some c → ∃ preamble,
        ((Response.stream mg conns res code encoding results).1 c).send =
          (conns c).send ++ preamble ∧
        ((preambleFrame code).Carries (res.mHeaders.framed encoding).entries preamble ↔
          ∀ field ∈ (res.mHeaders.framed encoding).entries, Intact field)) ∧
      (∀ cfg cfg₁ cfg₂ cfg₃ r c code encoding, Reaches (atomicStep mg) anyEvent cfg₀ cfg →
        (cfg.world.responses r).mState = .pending →
        cfg.atomicStep mg (.call r (.stream code encoding) .accepted) = some cfg₁ →
        Reaches (atomicStep mg) (Untouched r) cfg₁ cfg₂ →
        cfg₂.atomicStep mg (.loop (.wakeup c r)) = some cfg₃ → ∃ preamble,
        (cfg₃.world.connections c).send = (cfg₂.world.connections c).send ++ preamble ∧
        ((preambleFrame code).Carries
            ((cfg.world.responses r).mHeaders.framed encoding).entries preamble ↔
          ∀ field ∈ ((cfg.world.responses r).mHeaders.framed encoding).entries, Intact field)) ∧
      ∀ frames, mg.ServesIn frames →
        ∀ (e : Endpoint) path asset mimeType (headers : Headers), ∃ stored,
        (e.onAsset path asset mimeType headers).mAssets.lookup path = some stored ∧
        (stored.isDir = false → ¬ [13, 10] <:+: mimeType →
          ∀ msg, (frames.asset msg path stored).isSome = true) ∧
        ∀ msg, ∀ frame ∈ frames.asset msg path stored,
          frame.Carries headers.entries (World.serveAsset mg msg path stored) ↔
            ∀ field ∈ headers.entries, Intact field ∧ NulFree field := by
  refine ⟨fun headers => ⟨?_, headers.length_lines_format_iff⟩,
    fun headers => headers.readFields_format_iff, ?_, ?_, ?_, ?_, ?_, ?_⟩
  · rw [Headers.format_true]
    exact Fields.lines_unlines_snd (by decide) _
  · intro headers headers' h h' heq
    have hread := headers.readFields_format_iff.mpr h
    rw [heq, headers'.readFields_format_iff.mpr h'] at hread
    exact (Option.some.inj hread).symm
  · intro reply hreply conns c res code body hres
    refine ⟨(reply code (sentBody body)).bytes (cString res.mHeaders.format), ?_, ?_⟩
    · rw [sentBody, ← hreply]
      simp [Response.send, hres, Connection.write, Write.bytes]
    · rw [Headers.format_false, HeadFrame.carries_cString_iff]
  · intro reply hreply cfg cfg₁ cfg₂ cfg₃ r c code body h hstate hcall h₂ hdeliver
    refine ⟨(reply code (sentBody body)).bytes
      (cString (cfg.world.responses r).mHeaders.format), ?_, ?_⟩
    · rw [reply_of_send hinit h hstate hcall h₂ hdeliver, hreply]
      rfl
    · rw [Headers.format_false, HeadFrame.carries_cString_iff]
  · intro conns c res code encoding results hres
    exact ⟨_, Response.send_stream mg conns hres code encoding results, HeadFrame.carries_iff ..⟩
  · intro cfg cfg₁ cfg₂ cfg₃ r c code encoding h hstate hcall h₂ hdeliver
    refine ⟨_, preamble_of_stream hinit h hstate hcall h₂ hdeliver, ?_⟩
    rw [← HeadFrame.carries_iff, ← formatPreamble_framed]
    rfl
  · intro frames hframes e path asset mimeType headers
    refine ⟨_, AList.lookup_insert _,
      fun hfile htype msg => frames.isSome_asset msg path hfile htype, fun msg frame hframe => ?_⟩
    have hheaders : (Endpoint.setFile asset mimeType headers
        ((e.mAssets.lookup path).getD {})).headers = headers.format true := rfl
    rw [hframes.serveAsset hframe, hheaders, Headers.format_true, HeadFrame.carries_cString_iff]

def plainHeaders : Headers := Headers.build [.set (text "X") (text "a")]

theorem header_blocks_iff_plain :
    readFields (plainHeaders.format true) = some [(text "X", text "a")] ∧
      (∃ response, ((Response.send .framed (fun _ => {}) { mConn := some 0, mHeaders := plainHeaders }
          200 []).1 0).send = [] ++ response ∧
        (replyFrame 200 []).Carries [(text "X", text "a")] response) ∧
      ∃ stored, (Endpoint.onAsset {} (text "/") [] [] plainHeaders).mAssets.lookup (text "/") =
          some stored ∧
        (replyFrame 404 (text "Not found\n")).Carries [(text "X", text "a")]
          (World.serveAsset .framed ⟨text "/", []⟩ (text "/") stored) := by
  have hall := @header_blocks_iff .framed _ (initial_start asyncRoutes)
  have hplain : ∀ entry ∈ plainHeaders.entries, Intact entry ∧ NulFree entry := by decide
  refine ⟨(hall.2.1 plainHeaders).mpr fun entry h => (hplain entry h).1, ?_, ?_⟩
  · obtain ⟨response, hsend, hcarries⟩ :=
      hall.2.2.2.1 replyFrame Mongoose.repliesIn_framed (fun _ => {}) 0
        { mConn := some 0, mHeaders := plainHeaders } 200 [] rfl
    exact ⟨response, hsend, hcarries.mpr hplain⟩
  · obtain ⟨stored, hstored, -, hserved⟩ := hall.2.2.2.2.2.2.2 AssetFrames.framed
      Mongoose.servesIn_framed {} (text "/") [] [] plainHeaders
    refine ⟨stored, hstored, (hserved ⟨text "/", []⟩ _ ?_).mpr hplain⟩
    obtain rfl := Option.some.inj hstored
    rfl

def splitHeaders : Headers := Headers.build [.set (text "X") (text "a\r\nY: b")]

/-- One entry becomes two fields of a head, and the map is not read back. -/
theorem header_splits :
    splitHeaders.size = 1 ∧ (Fields.lines 13 10 (splitHeaders.format true)).1.length = 2 ∧
      readFields (splitHeaders.format true) ≠ some splitHeaders.entries ∧
      headFields ((Response.send .framed (fun _ => {})
          { mConn := some 0, mHeaders := splitHeaders } 200 []).1 0).send =
        some [(text "X", text "a"), (text "Y", text "b"), (text "Content-Length", text "0")] := by
  decide

end Config

end Mgxx.Http
