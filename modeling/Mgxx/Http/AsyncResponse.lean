import Mgxx.Http.AsyncStream
import Mgxx.Http.Headers

/-!
`async_response`: a payload or a stream, guarded by an atomic state that every
call loads first and stores last.  Both calls are given twice: as the functions
a caller sees, and as the assignments they are made of, which another thread
can observe one by one.
-/

namespace Mgxx.Http

inductive AsyncResponse.State | pending | sending | streaming | completed | failed
  deriving DecidableEq

structure Payload where
  code : ℤ := -1
  headers : Bytes := []
  body : Bytes := []
  deriving DecidableEq

structure AsyncResponse where
  mConn : ℕ
  mId : ℕ
  mHeaders : Headers := Headers.empty
  mPayload : Payload := {}
  mState : AsyncResponse.State := .pending
  mStream : Option StreamRef := none

namespace AsyncResponse

/-- The three assignments to `m_payload` in `send`. -/
def storePayload (response : AsyncResponse) (code : ℤ) (body : Bytes) : AsyncResponse :=
  { response with mPayload := ⟨code, response.mHeaders.format, body⟩ }

def store (response : AsyncResponse) (state : State) : AsyncResponse :=
  { response with mState := state }

/-- The framing headers that `stream` sets before it formats the preamble. -/
def frameHeaders (response : AsyncResponse) (encoding : Bytes) : AsyncResponse :=
  { response with
    mHeaders := (response.mHeaders.remove (text "Content-Length")).set
      (text "Transfer-Encoding") encoding }

/-- The preamble `stream` hands to the stream object it makes. -/
def preamble (response : AsyncResponse) (code : ℤ) (encoding : Bytes) : Bytes :=
  formatPreamble code (response.frameHeaders encoding).mHeaders.format

/-- `std::make_shared<async_stream>(m_mgr, m_conn, m_id, preamble)`. -/
def makeStream (response : AsyncResponse) (code : ℤ) (encoding : Bytes) : AsyncStream :=
  { mConn := response.mConn, mId := response.mId, mData := response.preamble code encoding }

def openStream (response : AsyncResponse) (encoding : Bytes) (ref : StreamRef) : AsyncResponse :=
  { response.frameHeaders encoding with mStream := some ref }

def markCompleted (response : AsyncResponse) : AsyncResponse := response.store .completed
def markFailed (response : AsyncResponse) : AsyncResponse := response.store .failed

/-- `get_stream()` moves the pointer out. -/
def getStream (response : AsyncResponse) : Option StreamRef × AsyncResponse :=
  (response.mStream, { response with mStream := none })

/-- `send(code, body)`.  The second component says whether a wake-up was posted. -/
def send (response : AsyncResponse) (code : ℤ) (body : Bytes) (wake : Wake) :
    AsyncResponse × Bool :=
  if response.mState ≠ .pending then (response, false)
  else match wake with
    | .expired => (response.store .failed, false)
    | .refused => ((response.storePayload code body).store .failed, false)
    | .accepted => ((response.storePayload code body).store .sending, true)

structure Streamed where
  response : AsyncResponse
  /-- The stream object made by the call. -/
  made : Option AsyncStream := none
  posted : Bool := false
  result : Option StreamRef := none

/-- `stream(code, encoding)`; `ref` is the name of the stream object the call makes. -/
def stream (response : AsyncResponse) (code : ℤ) (encoding : Bytes) (ref : StreamRef)
    (wake : Wake) : Streamed :=
  if response.mState ≠ .pending then { response := response }
  else match wake with
    | .expired => { response := response.store .failed }
    | .refused =>
        { response := (response.openStream encoding ref).store .failed
          made := some (response.makeStream code encoding) }
    | .accepted =>
        { response := (response.openStream encoding ref).store .streaming
          made := some (response.makeStream code encoding)
          posted := true
          result := some ref }

section Fields

variable (response : AsyncResponse)

@[simp] theorem mConn_store (state : State) : (response.store state).mConn = response.mConn := rfl
@[simp] theorem mId_store (state : State) : (response.store state).mId = response.mId := rfl
@[simp] theorem mState_store (state : State) : (response.store state).mState = state := rfl
@[simp] theorem mStream_store (state : State) :
    (response.store state).mStream = response.mStream := rfl
@[simp] theorem mPayload_store (state : State) :
    (response.store state).mPayload = response.mPayload := rfl

@[simp] theorem mConn_storePayload (code : ℤ) (body : Bytes) :
    (response.storePayload code body).mConn = response.mConn := rfl
@[simp] theorem mId_storePayload (code : ℤ) (body : Bytes) :
    (response.storePayload code body).mId = response.mId := rfl
@[simp] theorem mState_storePayload (code : ℤ) (body : Bytes) :
    (response.storePayload code body).mState = response.mState := rfl
@[simp] theorem mStream_storePayload (code : ℤ) (body : Bytes) :
    (response.storePayload code body).mStream = response.mStream := rfl

@[simp] theorem mConn_openStream (encoding : Bytes) (ref : StreamRef) :
    (response.openStream encoding ref).mConn = response.mConn := rfl
@[simp] theorem mId_openStream (encoding : Bytes) (ref : StreamRef) :
    (response.openStream encoding ref).mId = response.mId := rfl
@[simp] theorem mState_openStream (encoding : Bytes) (ref : StreamRef) :
    (response.openStream encoding ref).mState = response.mState := rfl
@[simp] theorem mStream_openStream (encoding : Bytes) (ref : StreamRef) :
    (response.openStream encoding ref).mStream = some ref := rfl

@[simp] theorem mConn_getStream : response.getStream.2.mConn = response.mConn := rfl
@[simp] theorem mId_getStream : response.getStream.2.mId = response.mId := rfl
@[simp] theorem mState_getStream : response.getStream.2.mState = response.mState := rfl
@[simp] theorem mStream_getStream : response.getStream.2.mStream = none := rfl

@[simp] theorem mConn_makeStream (code : ℤ) (encoding : Bytes) :
    (response.makeStream code encoding).mConn = response.mConn := rfl
@[simp] theorem mId_makeStream (code : ℤ) (encoding : Bytes) :
    (response.makeStream code encoding).mId = response.mId := rfl
@[simp] theorem mState_makeStream (code : ℤ) (encoding : Bytes) :
    (response.makeStream code encoding).mState = .start := rfl
@[simp] theorem mData_makeStream (code : ℤ) (encoding : Bytes) :
    (response.makeStream code encoding).mData = response.preamble code encoding := rfl

end Fields

end AsyncResponse

end Mgxx.Http
