import Mgxx.Http.Common

/-!
The logger of the server.  mongoose hands over one character at a time; the
listener is given a view of the buffer at a line end and when the buffer is full.
The rest of the server takes no part in this.
-/

namespace Mgxx

open Http

structure Logger where
  buffer : Bytes := []
  offset : ℕ := 0
  /-- The views that the listener was given so far; there is no listener behind a
  null pointer. -/
  listener : Option (List Bytes) := none

/-- What `mg_log_set` and `mg_log_set_fn` set; `fn` says whether messages go to
`event_manager_logger`. -/
structure MgLog where
  level : ℤ
  fn : Bool

structure Server where
  mLogger : Logger := {}
  mgLog : MgLog

def newline : UInt8 := 10

/-- `buffer[i] = ch`, an index below the size. -/
def writeAt (buffer : Bytes) (i : ℕ) (ch : UInt8) : Option Bytes :=
  if i < buffer.length then some (buffer.set i ch) else none

def resize (buffer : Bytes) (size : ℕ) : Bytes :=
  buffer.take size ++ List.replicate (size - buffer.length) 0

def invoke (listener : Option (List Bytes)) (view : Bytes) : Option (List Bytes) :=
  listener.map fun views => views ++ [view]

def eventManagerLogger (server : Server) (ch : UInt8) : Option Server := do
  let buffer ← writeAt server.mLogger.buffer server.mLogger.offset ch
  let offset := server.mLogger.offset + 1
  if ch = newline ∨ buffer.length ≤ offset then
    -- the cells keep what they hold, and are written again from the front
    let views ← invoke server.mLogger.listener (buffer.take offset)
    return { server with mLogger := { buffer, offset := 0, listener := some views } }
  else
    return { server with mLogger := { server.mLogger with buffer, offset } }

namespace Server

def registerLogger (level : ℤ) (size : ℕ) (server : Server) : Server :=
  match server.mLogger.listener with
  | none => server
  | some _ =>
      { mLogger := { server.mLogger with buffer := resize server.mLogger.buffer size }
        mgLog := ⟨level, true⟩ }

/-- The constructor `server(callback, level, size)`. -/
def server (mgLog : MgLog) (level : ℤ) (size : ℕ) : Server :=
  registerLogger level size { mLogger := { listener := some [] }, mgLog }

end Server

@[simp] theorem length_resize (buffer : Bytes) (size : ℕ) : (resize buffer size).length = size := by
  simp [resize]
  omega

theorem writeAt_of_lt {buffer : Bytes} {i : ℕ} (h : i < buffer.length) (ch : UInt8) :
    writeAt buffer i ch = some (buffer.set i ch) := if_pos h

/-- A write behind the cells in use keeps them. -/
theorem take_set_succ {buffer : Bytes} {i : ℕ} (h : i < buffer.length) (ch : UInt8) :
    (buffer.set i ch).take (i + 1) = buffer.take i ++ [ch] := by
  rw [List.take_add_one, List.take_set_of_le (Nat.le_refl i)]
  simp [h]

end Mgxx
