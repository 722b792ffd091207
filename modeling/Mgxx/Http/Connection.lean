import Mgxx.Http.AsyncStream
import Mgxx.Library.ChunkedCoding
import Mathlib.Data.List.TakeWhile
import Mathlib.Tactic.SplitIfs

/-!
The mongoose side of a connection, and the `remote_context` the endpoint hangs
on it.

Mongoose is not part of the repository.  What the library relies on is the
structure `Mongoose`: a build-time constant, a pattern predicate, and the bytes
that each output function appends to the send buffer.  Nothing is assumed of
these unless a result says so.

Every write also goes into a log together with the place it comes from.  The
program keeps no such log; it is there to state what was written.
-/

namespace Mgxx.Http

structure HttpMessage where
  uri : Bytes
  message : Bytes

/-- `mg_http_serve_opts`, without the file system, which is always the default. -/
structure ServeOpts where
  rootDir : Option Bytes := none
  extraHeaders : Option Bytes := none
  mimeTypes : Option Bytes := none

/-- The body argument of `mg_http_reply`: a format without conversions, or
`"%.*s"` with a size and a pointer to the bytes of a string. -/
inductive ReplyBody | literal (format : Bytes) | sized (size : ℕ) (data : Bytes)
  deriving DecidableEq

structure Mongoose where
  /-- `MG_IO_SIZE` -/
  ioSize : ℕ
  /-- `mg_match(uri, pattern)`: the captures of a match. -/
  mgMatch : Bytes → Bytes → Option (List Bytes)
  mgHttpReply : ℤ → Bytes → ReplyBody → Bytes
  mgHttpWriteChunk : Bytes → Bytes
  mgHttpServeDir : HttpMessage → ServeOpts → Bytes
  mgHttpServeFile : HttpMessage → Bytes → ServeOpts → Bytes

/-- A size as the `int` that `"%.*s"` reads. -/
def toInt (size : ℕ) : ℤ := (size : ℤ).bmod (2 ^ 32)

def cString (data : Bytes) : Bytes := data.takeWhile (· ≠ 0)

theorem cString_eq_self_iff (data : Bytes) : cString data = data ↔ 0 ∉ data := by
  rw [cString, List.takeWhile_eq_self_iff]
  simp only [decide_eq_true_eq]
  exact ⟨fun h h0 => h 0 h0 rfl, fun h a ha h0 => h (h0 ▸ ha)⟩

/-- The bytes that printf makes of a reply body: a string is copied up to its
first NUL, and cut at the precision unless that is negative. -/
def ReplyBody.bytes : ReplyBody → Bytes
  | literal format => format
  | sized size data =>
      if toInt size < 0 then cString data else (cString data).take (toInt size).toNat

/-- Mongoose with patterns that match only themselves and no files to serve. -/
def Mongoose.plain : Mongoose where
  ioSize := 16384
  mgMatch uri pattern := if uri = pattern then some [] else none
  mgHttpReply code headers body :=
    text "HTTP/1.1 " ++ text (toString code) ++ text " " ++ formatStatusCode code ++
      text "\r\n" ++ headers ++ text "Content-Length: " ++
      text (toString body.bytes.length) ++ text "\r\n\r\n" ++ body.bytes
  mgHttpWriteChunk := Library.Chunked.encodeChunk
  mgHttpServeDir _ _ := []
  mgHttpServeFile _ _ _ := []

inductive Write
  | reply (code : ℤ) (headers : Bytes) (body : ReplyBody)
  | send (bytes : Bytes)
  | chunk (data : Bytes)
  | serve (bytes : Bytes)
  deriving DecidableEq

namespace Write

def bytes (mg : Mongoose) : Write → Bytes
  | reply code headers body => mg.mgHttpReply code headers body
  | send bytes => bytes
  | chunk data => mg.mgHttpWriteChunk data
  | serve bytes => bytes

def isReply : Write → Bool
  | reply .. => true
  | _ => false

/-- The library starts a response with a reply, or with the preamble of a stream. -/
def isHead : Write → Bool
  | reply .. | send _ => true
  | chunk _ | serve _ => false

end Write

inductive Source
  /-- A synchronous handler, an asset, or the answer 404. -/
  | handler
  /-- `pump_stream`, for the producer of a synchronous stream. -/
  | producer
  /-- `handle_poll`, for a failed response. -/
  | failed (id : ℕ)
  /-- `handle_response`, with the payload of a response. -/
  | response (id : ℕ)
  /-- `handle_stream`. -/
  | stream (ref : StreamRef)
  /-- The error replies of `handle_response` and `handle_wakeup`. -/
  | notFound (id : ℕ)
  deriving DecidableEq

def Source.request : Source → Option ℕ
  | handler | producer => none
  | failed id | response id | notFound id => some id
  | stream ref => some ref.response

structure Output where
  source : Source
  write : Write
  deriving DecidableEq

/-- A `stream_producer`: the answer of each of its calls, and the calls made. -/
structure StreamProducer where
  results : ℕ → Option Bytes
  calls : ℕ := 0

def StreamProducer.get (producer : StreamProducer) : Option Bytes × StreamProducer :=
  (producer.results producer.calls, { producer with calls := producer.calls + 1 })

/-- `remote_context`, as far as it takes part in answering requests. -/
structure RemoteContext where
  mStream : Option StreamProducer := none

/-- Connection ids are not reused: a connection is accepted once and closed once. -/
inductive Status | unused | live | closed
  deriving DecidableEq

structure Connection where
  status : Status := .unused
  /-- The contents of `conn->send`. -/
  send : Bytes := []
  /-- Bytes of it have been sent, and the write event for these is due. -/
  sent : Bool := false
  fnData : Option RemoteContext := none
  log : List Output := []

namespace Connection

def write (mg : Mongoose) (conn : Connection) (source : Source) (write : Write) : Connection :=
  { conn with
    send := conn.send ++ write.bytes mg
    log := conn.log ++ [⟨source, write⟩] }

def setStream (conn : Connection) (producer : StreamProducer) : Connection :=
  { conn with fnData := conn.fnData.map fun _ => { mStream := some producer } }

def pumpStream (mg : Mongoose) (conn : Connection) : Connection :=
  match conn.fnData.bind RemoteContext.mStream with
  | none => conn
  | some producer =>
      -- the callback is not asked while the send buffer is full
      if mg.ioSize ≤ conn.send.length then conn
      else match producer.get with
        | (none, _) =>
            { conn.write mg .producer (.chunk []) with fnData := some { mStream := none } }
        | (some chunk, producer) => (conn.write mg .producer (.chunk chunk)).setStream producer

section Fields

variable (mg : Mongoose) (conn : Connection)

@[simp] theorem status_write (source : Source) (write : Write) :
    (conn.write mg source write).status = conn.status := rfl
@[simp] theorem log_write (source : Source) (write : Write) :
    (conn.write mg source write).log = conn.log ++ [⟨source, write⟩] := rfl
@[simp] theorem fnData_write (source : Source) (write : Write) :
    (conn.write mg source write).fnData = conn.fnData := rfl

@[simp] theorem status_setStream (producer : StreamProducer) :
    (conn.setStream producer).status = conn.status := rfl
@[simp] theorem log_setStream (producer : StreamProducer) :
    (conn.setStream producer).log = conn.log := rfl

@[simp] theorem status_pumpStream : (conn.pumpStream mg).status = conn.status := by
  unfold pumpStream
  split
  · rfl
  · split_ifs
    · rfl
    · split <;> rfl

/-- There are bytes to send, or a write event is due for bytes that have been sent. -/
def Busy (conn : Connection) : Prop := conn.send ≠ [] ∨ conn.sent = true

variable {conn} in
theorem Busy.write (h : conn.Busy) (source : Source) (o : Write) :
    (conn.write mg source o).Busy :=
  h.imp_left fun hsend => List.append_ne_nil_of_left_ne_nil hsend _

/-- The callbacks are asked whether or not a write event is due. -/
theorem pumpStream_sent (sent : Bool) :
    ({ conn with sent } : Connection).pumpStream mg = { conn.pumpStream mg with sent } := by
  simp only [pumpStream]
  split
  · rfl
  · split_ifs
    · rfl
    · split <;> rfl

/-- `pump_stream` writes for the producer only. -/
theorem log_pumpStream :
    ∃ out, (conn.pumpStream mg).log = conn.log ++ out ∧ ∀ o ∈ out, o.source = .producer := by
  unfold pumpStream
  split
  · exact ⟨[], by simp⟩
  · split_ifs
    · exact ⟨[], by simp⟩
    · split
      · exact ⟨[⟨.producer, .chunk []⟩], by simp⟩
      · rename_i chunk producer _
        exact ⟨[⟨.producer, .chunk chunk⟩], by simp⟩

end Fields

end Connection

end Mgxx.Http
