import Mgxx.Http.AsyncResponse
import Mathlib.Logic.Function.Basic

/-!
The calls of worker threads, one shared access at a time.  A worker that calls
`send` or `stream` on a response, or `send` or `close` on a stream, reads and
writes the objects of one request; between two of these accesses the event
thread and the other workers may run.
-/

namespace Mgxx.Http

inductive Call
  | send (code : ℤ) (body : Bytes)
  | stream (code : ℤ) (encoding : Bytes)

/-- What a call that is turned away returns: `stream` a null pointer, `send` nothing. -/
def Call.refusal : Call → List (Option StreamRef)
  | .send _ _ => []
  | .stream _ _ => [none]

inductive Pc
  | idle
  /-- In `send`, the state was `pending`. -/
  | sendChecked (r : ℕ) (code : ℤ) (body : Bytes)
  /-- In `send`, the payload is stored. -/
  | sendStored (r : ℕ)
  /-- In `send`, it is decided what will be stored in `m_state`. -/
  | sendDecided (r : ℕ) (ok : Bool)
  /-- In `stream`, the state was `pending`. -/
  | streamChecked (r : ℕ) (code : ℤ) (encoding : Bytes)
  /-- In `stream`, `m_stream` is stored. -/
  | streamOpened (r : ℕ)
  /-- In `stream`, it is decided what will be stored in `m_state`. -/
  | streamDecided (r : ℕ) (ok : Bool)
  /-- In `stream`, `streaming` is stored; `m_stream` has yet to be read for the return. -/
  | streamStored (r : ℕ)
  /-- `wait` has returned true. -/
  | granted (s : StreamRef)
  /-- In `send` or `close` of a stream, the data slot is written. -/
  | putWritten (s : StreamRef) (op : Put)
  /-- The state is stored. -/
  | putStored (s : StreamRef)
  /-- The manager is locked. -/
  | putLocked (s : StreamRef)
  /-- `mg_wakeup` has failed. -/
  | putRefused (s : StreamRef)
  deriving DecidableEq

namespace Pc

def request : Pc → Option ℕ
  | idle => none
  | sendChecked r _ _ | sendStored r | sendDecided r _ | streamChecked r _ _ | streamOpened r
  | streamDecided r _ | streamStored r => some r
  | granted s | putWritten s _ | putStored s | putLocked s | putRefused s => some s.response

/-- The response whose state the thread has found pending and not yet stored anew. -/
def deciding : Pc → Option ℕ
  | sendChecked r _ _ | sendStored r | sendDecided r _ | streamChecked r _ _ | streamOpened r
  | streamDecided r _ => some r
  | idle | streamStored _ | granted _ | putWritten _ _ | putStored _ | putLocked _
  | putRefused _ => none

/-- The response whose call the thread is in, as long as it has posted nothing. -/
def unposted : Pc → Option ℕ
  | sendChecked r _ _ | sendStored r | sendDecided r false | streamChecked r _ _ | streamOpened r
  | streamDecided r false => some r
  | idle | sendDecided _ true | streamDecided _ true | streamStored _ | granted _ | putWritten _ _
  | putStored _ | putLocked _ | putRefused _ => none

/-- The stream the thread may write to, or is writing to. -/
def stream : Pc → Option StreamRef
  | granted s | putWritten s _ | putStored s | putLocked s | putRefused s => some s
  | idle | sendChecked _ _ _ | sendStored _ | sendDecided _ _ | streamChecked _ _ _
  | streamOpened _ | streamDecided _ _ | streamStored _ => none

end Pc

/-- What has happened to a request so far.  The program keeps no such record. -/
structure History where
  /-- The calls that found the response pending. -/
  passes : ℕ := 0
  /-- The wake-ups posted by `send` and `stream` of the response. -/
  posts : ℕ := 0
  /-- The wake-ups delivered. -/
  deliveries : ℕ := 0
  /-- What the calls of `stream` returned. -/
  returned : List (Option StreamRef) := []
  /-- What was sent through each stream. -/
  puts : ℕ → List Put := fun _ => []

instance decidableReturned (s : StreamRef) (returned : List (Option StreamRef)) :
    Decidable (some s ∈ returned) := inferInstance

structure Shared where
  response : AsyncResponse
  /-- The streams the response has made, by number. -/
  stream : ℕ → AsyncStream
  made : ℕ
  history : History

structure Access where
  shared : Shared
  pc : Pc := .idle
  /-- The wake-ups posted: connection and request id. -/
  posted : List (ℕ × ℕ) := []

namespace Shared

def updateResponse (q : Shared) (f : AsyncResponse → AsyncResponse) : Shared :=
  { q with response := f q.response }

def updateStream (q : Shared) (n : ℕ) (f : AsyncStream → AsyncStream) : Shared :=
  { q with stream := Function.update q.stream n (f (q.stream n)) }

def pass (q : Shared) : Shared :=
  { q with history := { q.history with passes := q.history.passes + 1 } }

def post (q : Shared) : Shared :=
  { q with history := { q.history with posts := q.history.posts + 1 } }

def returns (q : Shared) (stream : Option StreamRef) : Shared :=
  { q with history := { q.history with returned := q.history.returned ++ [stream] } }

def openStream (q : Shared) (r : ℕ) (code : ℤ) (encoding : Bytes) : Shared :=
  { q with
    response := q.response.openStream encoding ⟨r, q.made⟩
    stream := Function.update q.stream q.made (q.response.makeStream code encoding)
    made := q.made + 1 }

/-- A call of `send` or `stream`, up to the check of `m_state`. -/
def begin (q : Shared) (r : ℕ) : Call → Access
  | .send code body =>
      if q.response.mState ≠ .pending then { shared := q }
      else { shared := q.pass, pc := .sendChecked r code body }
  | .stream code encoding =>
      if q.response.mState ≠ .pending then { shared := q.returns none }
      else { shared := q.pass, pc := .streamChecked r code encoding }

/-- A call of `send` or `close` on a stream, up to the write of the data slot. -/
def put (q : Shared) (s : StreamRef) (op : Put) : Access where
  shared :=
    { q.updateStream s.number fun stream => stream.putData op with
      history := { q.history with
        puts := Function.update q.history.puts s.number (q.history.puts s.number ++ [op]) } }
  pc := .putWritten s op

/-- The next access of a thread.  `answer` is what `m_mgr.lock()` or `mg_wakeup`
reports, where the access is one of these. -/
def advance (q : Shared) (answer : Bool) : Pc → Access
  | .idle | .granted _ => { shared := q }
  | .sendChecked r code body =>
      if answer then
        { shared := q.updateResponse fun response => response.storePayload code body
          pc := .sendStored r }
      else { shared := q, pc := .sendDecided r false }
  | .sendStored r =>
      if answer then
        { shared := q.post
          pc := .sendDecided r true
          posted := [(q.response.mConn, q.response.mId)] }
      else { shared := q, pc := .sendDecided r false }
  | .sendDecided _ ok =>
      { shared := q.updateResponse fun response => response.store (if ok then .sending else .failed) }
  | .streamChecked r code encoding =>
      if answer then { shared := q.openStream r code encoding, pc := .streamOpened r }
      else { shared := q, pc := .streamDecided r false }
  | .streamOpened r =>
      if answer then
        { shared := q.post
          pc := .streamDecided r true
          posted := [(q.response.mConn, q.response.mId)] }
      else { shared := q, pc := .streamDecided r false }
  | .streamDecided r ok =>
      if ok then
        { shared := q.updateResponse fun response => response.store .streaming
          pc := .streamStored r }
      else { shared := (q.updateResponse fun response => response.store .failed).returns none }
  -- `return m_stream` reads the member once more
  | .streamStored _ => { shared := q.returns q.response.mStream }
  | .putWritten s op =>
      { shared := q.updateStream s.number fun stream => stream.store op.state
        pc := .putStored s }
  -- without a manager the call ends here
  | .putStored s => if answer then { shared := q, pc := .putLocked s } else { shared := q }
  | .putLocked s =>
      if answer then
        { shared := q
          posted := [((q.stream s.number).mConn, (q.stream s.number).mId)] }
      else { shared := q, pc := .putRefused s }
  | .putRefused s => { shared := q.updateStream s.number AsyncStream.markFailed }

/-- A call that finds the response settled returns what it has to, and does nothing else. -/
theorem begin_of_ne {q : Shared} (hstate : q.response.mState ≠ .pending) (r : ℕ) (call : Call) :
    q.begin r call = { shared := { q with
      history := { q.history with returned := q.history.returned ++ call.refusal } } } := by
  cases call <;> simp [begin, hstate, returns, Call.refusal]

end Shared

theorem Call.some_not_mem_refusal (s : StreamRef) (call : Call) : some s ∉ call.refusal := by
  cases call <;> simp [Call.refusal]

/-- A call that is turned away gives nobody a stream. -/
theorem Call.returned_refusal {returned : List (Option StreamRef)} (h : ∀ s, some s ∉ returned)
    (call : Call) (s : StreamRef) : some s ∉ returned ++ call.refusal := fun hs =>
  h s ((List.mem_append.mp hs).resolve_right (call.some_not_mem_refusal s))

end Mgxx.Http
