import Mgxx.Http.Common

/-!
`async_stream`: one data slot and a seven-valued state, shared by the producer
that calls `wait`, `send` and `close` and by the event loop that takes the data
and moves the state on.
-/

namespace Mgxx.Http

/-- The name of a stream object: the response whose `stream()` made it, and how
many that response had made before. -/
structure StreamRef where
  response : ℕ
  number : ℕ
  deriving DecidableEq

/-- What a call finds when it locks `m_mgr` and calls `mg_wakeup`: no manager,
a wake-up that could not be queued, or a queued one. -/
inductive Wake | expired | refused | accepted
  deriving DecidableEq

inductive AsyncStream.State | start | hasData | flush | empty | close | completed | failed
  deriving DecidableEq

structure AsyncStream where
  mConn : ℕ
  mId : ℕ
  mData : Bytes
  mState : AsyncStream.State := .start
  deriving DecidableEq

/-- The two calls with which a producer fills the data slot. -/
inductive Put | send (body : Bytes) | close
  deriving DecidableEq

def Put.data : Put → Bytes
  | .send body => body
  | .close => []

def Put.state : Put → AsyncStream.State
  | .send _ => .hasData
  | .close => .close

namespace AsyncStream

def State.IsTerminal (state : State) : Prop := state = .completed ∨ state = .failed

instance (state : State) : Decidable state.IsTerminal :=
  inferInstanceAs (Decidable (state = .completed ∨ state = .failed))

/-- `wait()`: the answer, or nothing while the call blocks. -/
def wait (stream : AsyncStream) : Option Bool :=
  match stream.mState with
  | .empty => some true
  | .failed | .completed => some false
  | .start | .hasData | .flush | .close => none

def failed (stream : AsyncStream) : Bool := stream.mState = .failed

/-- First statement of `send` and `close`: the data slot is overwritten. -/
def putData (stream : AsyncStream) (op : Put) : AsyncStream := { stream with mData := op.data }

def store (stream : AsyncStream) (state : State) : AsyncStream := { stream with mState := state }

/-- `send` and `close` differ only in what they leave in the slot and in the
state.  The second component says whether a wake-up was posted. -/
def put (stream : AsyncStream) (op : Put) (wake : Wake) : AsyncStream × Bool :=
  let stored := (stream.putData op).store op.state
  match wake with
  -- no manager, no wake-up, and the state stays
  | .expired => (stored, false)
  | .refused => (stored.store .failed, false)
  | .accepted => (stored, true)

def send (stream : AsyncStream) (body : Bytes) (wake : Wake) : AsyncStream × Bool :=
  stream.put (.send body) wake

def close (stream : AsyncStream) (wake : Wake) : AsyncStream × Bool := stream.put .close wake

def getData (stream : AsyncStream) : Bytes × AsyncStream :=
  (stream.mData, { stream with mData := [] })

def markFlush (stream : AsyncStream) : AsyncStream := stream.store .flush
def markEmpty (stream : AsyncStream) : AsyncStream := stream.store .empty
def markCompleted (stream : AsyncStream) : AsyncStream := stream.store .completed
def markFailed (stream : AsyncStream) : AsyncStream := stream.store .failed

@[simp] theorem mState_store (stream : AsyncStream) (state : State) :
    (stream.store state).mState = state := rfl

@[simp] theorem mData_store (stream : AsyncStream) (state : State) :
    (stream.store state).mData = stream.mData := rfl

@[simp] theorem mConn_store (stream : AsyncStream) (state : State) :
    (stream.store state).mConn = stream.mConn := rfl

@[simp] theorem mId_store (stream : AsyncStream) (state : State) :
    (stream.store state).mId = stream.mId := rfl

@[simp] theorem mState_putData (stream : AsyncStream) (op : Put) :
    (stream.putData op).mState = stream.mState := rfl

@[simp] theorem mData_putData (stream : AsyncStream) (op : Put) :
    (stream.putData op).mData = op.data := rfl

@[simp] theorem mConn_putData (stream : AsyncStream) (op : Put) :
    (stream.putData op).mConn = stream.mConn := rfl

@[simp] theorem mId_putData (stream : AsyncStream) (op : Put) :
    (stream.putData op).mId = stream.mId := rfl

@[simp] theorem mState_getData (stream : AsyncStream) :
    stream.getData.2.mState = stream.mState := rfl

@[simp] theorem mConn_getData (stream : AsyncStream) : stream.getData.2.mConn = stream.mConn := rfl

@[simp] theorem mId_getData (stream : AsyncStream) : stream.getData.2.mId = stream.mId := rfl

theorem wait_eq_true_iff (stream : AsyncStream) :
    stream.wait = some true ↔ stream.mState = .empty := by
  cases h : stream.mState <;> simp [wait, h]

theorem wait_eq_false_iff (stream : AsyncStream) :
    stream.wait = some false ↔ stream.mState.IsTerminal := by
  cases h : stream.mState <;> simp [wait, h, State.IsTerminal]

end AsyncStream

end Mgxx.Http
