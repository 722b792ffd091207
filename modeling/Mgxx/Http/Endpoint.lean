import Mgxx.Http.AsyncResponse
import Mgxx.Http.Response

/-!
The endpoint: its routes and pending tables, the objects these point to, and
the handler of every mongoose event.

Shared objects live in heaps, since a response or a stream stays with its
worker after the endpoint has dropped it.  A response object is named by the
value `m_request_counter` had when it was made; the counter is a natural number
here, as it is in every run that makes fewer requests than a `size_t` can count.
-/

namespace Mgxx.Http

open Mgxx.Library

structure Asset where
  isDir : Bool := false
  path : Bytes := []
  mimeType : Bytes := []
  headers : Bytes := []

structure Listener where
  mGroups : ℕ
  mIsAsync : Bool
  /-- Which callback was registered. -/
  callback : ℕ

structure Endpoint where
  /-- The keys are views.  They stand for their bytes as long as the memory of
  each is there; `AssetTable` keeps the views themselves. -/
  mAssets : UnorderedMap Bytes Asset := ∅
  mListeners : UnorderedMap Bytes Listener := ∅
  mFallback : Option Listener := none
  mRequestCounter : ℕ := 0
  mPendingResponses : NestedMap ℕ ℕ ℕ := ∅
  /-- A shared pointer may be null; `Owned.streamEntry` says that none is. -/
  mPendingStreams : NestedMap ℕ ℕ (Option StreamRef) := ∅

/-- The endpoint with everything its handlers and its workers read and write. -/
structure World extends Endpoint where
  responses : ℕ → AsyncResponse
  streams : StreamRef → AsyncStream
  /-- How many stream objects a response has made. -/
  made : ℕ → ℕ
  connections : ℕ → Connection
  /-- The wake-ups posted and not yet delivered: connection and request id. -/
  wakeups : List (ℕ × ℕ)

/-- `mg_http_reply(conn, internal_server_error::k_code, k_header, k_body)`. -/
def internalServerError : Write :=
  .reply 500 (text "Content-Type: text/plain\r\n") (.literal (text "Internal Server Error\n"))

/-- `mg_http_reply(conn, not_found::k_code, k_header, k_body)`. -/
def notFound : Write :=
  .reply 404 (text "Content-Type: text/plain\r\n") (.literal (text "Not Found\n"))

namespace World

def write (mg : Mongoose) (w : World) (c : ℕ) (source : Source) (write : Write) : World :=
  { w with connections := modifyAt w.connections c fun conn => conn.write mg source write }

def updateResponse (w : World) (r : ℕ) (f : AsyncResponse → AsyncResponse) : World :=
  { w with responses := modifyAt w.responses r f }

def updateStream (w : World) (s : StreamRef) (f : AsyncStream → AsyncStream) : World :=
  { w with streams := modifyAt w.streams s f }

/-! ### Dispatch -/

/-- The vector of capture groups after a match: the captures in order, and null
strings in the slots that are left. -/
def groupSlots (slots : ℕ) (captures : List Bytes) : List (Option Bytes) :=
  captures.map some ++ List.replicate (slots - captures.length) none

inductive Dispatch
  | listener (path : Bytes) (listener : Listener) (groups : List (Option Bytes))
  | asset (path : Bytes) (asset : Asset)
  | fallback (listener : Listener)
  | notFound

def dispatch (mg : Mongoose) (e : Endpoint) (msg : HttpMessage) : Dispatch :=
  let matched := e.mListeners.entries.findSome? fun entry =>
    (mg.mgMatch msg.uri entry.1).map fun captures =>
      Dispatch.listener entry.1 entry.2 (groupSlots (entry.2.mGroups + 1) captures)
  match matched with
  | some action => action
  | none =>
      -- the first match in the order of enumeration, here as above
      match e.mAssets.entries.find? fun entry => (mg.mgMatch msg.uri entry.1).isSome with
      | some entry => .asset entry.1 entry.2
      | none =>
          match e.mFallback with
          | some listener => .fallback listener
          | none => .notFound

/-- `path.size() - 2` in `size_t` arithmetic. -/
def prefixLength (path : Bytes) : ℕ := (path.length + 2 ^ 64 - 2) % 2 ^ 64

/-- `std::format("{}={}", path.substr(0, path.size() - 2), asset.path)`. -/
def rootDir (path : Bytes) (asset : Asset) : Bytes :=
  path.take (prefixLength path) ++ text "=" ++ asset.path

def serveAsset (mg : Mongoose) (msg : HttpMessage) (path : Bytes) (asset : Asset) : Bytes :=
  let opts : ServeOpts :=
    { extraHeaders := if asset.headers.isEmpty then none else some asset.headers
      mimeTypes := if asset.mimeType.isEmpty then none else some asset.mimeType }
  if asset.isDir then mg.mgHttpServeDir msg { opts with rootDir := some (rootDir path asset) }
  else mg.mgHttpServeFile msg asset.path opts

/-- The asynchronous branch: a new response, entered in `m_pending_responses`. -/
def addResponse (w : World) (c : ℕ) : World :=
  let id := w.mRequestCounter
  { w with
    mRequestCounter := id + 1
    responses := modifyAt w.responses id fun _ => { mConn := c, mId := id }
    mPendingResponses := w.mPendingResponses.set c id id }

/-- The listener is invoked.  `calls` is what a synchronous callback does with
its response; an asynchronous one leaves its response to the workers. -/
def invoke (mg : Mongoose) (w : World) (c : ℕ) (listener : Listener)
    (calls : List ResponseCall) : World :=
  if listener.mIsAsync then w.addResponse c
  else { w with connections := (Response.calls mg w.connections { mConn := some c } calls).1 }

def handleHttpMessage (mg : Mongoose) (w : World) (c : ℕ) (msg : HttpMessage)
    (calls : List ResponseCall) : World :=
  match dispatch mg w.toEndpoint msg with
  | .listener _ listener _ => w.invoke mg c listener calls
  | .asset path asset => w.write mg c .handler (.serve (serveAsset mg msg path asset))
  | .fallback listener => w.invoke mg c listener calls
  | .notFound => w.write mg c .handler Http.notFound

/-! ### The other events -/

def pollEntry (mg : Mongoose) (c : ℕ) (w : World) (entry : Σ _ : ℕ, ℕ) : World :=
  if (w.responses entry.2).mState = .failed then
    let w := w.write mg c (.failed entry.1) internalServerError
    { w with mPendingResponses := w.mPendingResponses.eraseAt c entry.1 }
  else w

def handlePoll (mg : Mongoose) (w : World) (c : ℕ) : World :=
  match w.mPendingResponses.lookup c with
  | none => w
  -- the loop sees each entry once, and the map stays when it is empty
  | some responses => responses.entries.foldl (pollEntry mg c) w

/-- The switch of `handle_stream`, for the stream entered under `id`. -/
def serveStream (mg : Mongoose) (w : World) (c id : ℕ) : Option StreamRef → World
  | none => w
  | some s =>
      match (w.streams s).mState with
      | .start =>
          let w := w.write mg c (.stream s) (.send (w.streams s).getData.1)
          w.updateStream s fun stream => stream.getData.2.markFlush
      | .hasData =>
          let w := w.write mg c (.stream s) (.chunk (w.streams s).getData.1)
          w.updateStream s fun stream => stream.getData.2.markFlush
      | .close =>
          let w := w.write mg c (.stream s) (.chunk [])
          let w := w.updateStream s AsyncStream.markCompleted
          { w with mPendingStreams := (w.mPendingStreams.eraseAt c id).prune c }
      -- nothing is due, and the wake-up counts as handled
      | .flush | .empty | .completed | .failed => w

def handleStream (mg : Mongoose) (w : World) (c id : ℕ) : World × Bool :=
  match w.mPendingStreams.lookup c with
  | none => (w, false)
  | some streams =>
      match streams.lookup id with
      | none => (w, false)
      | some stream => (w.serveStream mg c id stream, true)

/-- The streaming branch of `handle_response`, up to its last call. -/
def handOff (w : World) (c id r : ℕ) : World :=
  { w with
    mPendingStreams := w.mPendingStreams.set c id (w.responses r).getStream.1
    responses := modifyAt w.responses r fun response => response.getStream.2
    mPendingResponses := w.mPendingResponses.eraseAt c id }

/-- The other branch of `handle_response`: the payload is the answer. -/
def reply (mg : Mongoose) (w : World) (c id r : ℕ) : World :=
  let payload := (w.responses r).mPayload
  let w := w.write mg c (.response r)
    (.reply payload.code payload.headers (.sized payload.body.length payload.body))
  let w := w.updateResponse r AsyncResponse.markCompleted
  { w with mPendingResponses := w.mPendingResponses.eraseAt c id }

def handleResponse (mg : Mongoose) (w : World) (c id : ℕ) : World × Bool :=
  match w.mPendingResponses.lookup c with
  | none => (w.write mg c (.notFound id) internalServerError, false)
  | some responses =>
      match responses.lookup id with
      -- the error is sent here, and once more by `handleWakeup`
      | none => (w.write mg c (.notFound id) internalServerError, false)
      | some r =>
          if (w.responses r).mState = .streaming then (w.handOff c id r).handleStream mg c id
          -- whatever other state it is in
          else (w.reply mg c id r, true)

def handleWakeup (mg : Mongoose) (w : World) (c id : ℕ) : World :=
  match w.handleStream mg c id with
  | (w, true) => w
  | (w, false) =>
      match w.handleResponse mg c id with
      | (w, true) => w
      | (w, false) => w.write mg c (.notFound id) internalServerError

def pumpAsyncStream (mg : Mongoose) (c : ℕ) (w : World) : Option StreamRef → World
  | none => w
  | some s =>
      if (w.streams s).mState ≠ .flush then w
      else if mg.ioSize ≤ (w.connections c).send.length then w
      else w.updateStream s AsyncStream.markEmpty

def pumpStream (mg : Mongoose) (w : World) (c : ℕ) : World :=
  { w with connections := modifyAt w.connections c fun conn => conn.pumpStream mg }

def handleWrite (mg : Mongoose) (w : World) (c : ℕ) : World :=
  let w := w.pumpStream mg c
  -- the streams of all connections, by the send buffer of this one
  w.mPendingStreams.values.foldl (pumpAsyncStream mg c) w

def handleClose (w : World) (c : ℕ) : World :=
  let w := match w.mPendingResponses.lookup c with
    | none => w
    | some responses =>
        { (responses.entries.map Sigma.snd).foldl
            (fun w r => updateResponse w r AsyncResponse.markFailed) w with
          mPendingResponses := w.mPendingResponses.erase c }
  let w := match w.mPendingStreams.lookup c with
    | none => w
    | some streams =>
        { (streams.entries.filterMap Sigma.snd).foldl
            (fun w s => updateStream w s AsyncStream.markFailed) w with
          mPendingStreams := w.mPendingStreams.erase c }
  { w with connections := modifyAt w.connections c fun conn => { conn with fnData := none } }

end World

end Mgxx.Http
