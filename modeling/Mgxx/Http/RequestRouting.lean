import Mgxx.Http.Requests
import Mgxx.Http.Routes

/-!
The request that `handle_http_message` makes for a handler, in memory: the
URI is matched in place, and the slots of the capture groups are left as
mongoose fills them.
-/

namespace Mgxx.Http

open Mgxx.Library

/-- `mg_match(uri, pattern, slots)`: whether there is a match, and the slots as
they are left.  There are none behind a null pointer. -/
abbrev MgMatch := Memory → MgStr → Bytes → List MgStr → Bool × List MgStr

/-- What a request takes from the `remote_context` of the connection. -/
structure ClientInfo where
  mIp : MgStr
  mTlsCertInfo : Option ℕ

variable {maxHeaders : ℕ}

/-- The constructors `request(msg, context, groups)`; the shorter one passes no groups. -/
def Request.request (msg : MgHttpMessage maxHeaders) (context : ClientInfo)
    (groups : List MgStr) : Request maxHeaders where
  mMsg := msg
  mGroups := groups
  mIp := context.mIp
  mTlsCertInfo := context.mTlsCertInfo

inductive Route | path (path : Bytes) | fallback

structure Invocation (maxHeaders : ℕ) where
  route : Route
  listener : Listener
  request : Request maxHeaders

namespace Endpoint

variable (mgMatch : MgMatch) (memory : Memory) (msg : MgHttpMessage maxHeaders)
  (context : ClientInfo)

def tryRoute (path : Bytes) (listener : Listener) : Option (Invocation maxHeaders) :=
  match mgMatch memory msg.uri path (List.replicate (listener.mGroups + 1) Span.null) with
  | (true, groups) => some ⟨.path path, listener, Request.request msg context groups⟩
  | (false, _) => none

/-- The listener that `handle_http_message` invokes, if it does: not when there
is an asset for the URI, nor when there is nothing. -/
def invocation (e : Endpoint) : Option (Invocation maxHeaders) :=
  match e.mListeners.entries.findSome? fun entry =>
      tryRoute mgMatch memory msg context entry.1 entry.2 with
  | some invocation => some invocation
  | none =>
      if e.mAssets.entries.any fun entry => (mgMatch memory msg.uri entry.1 []).1 then none
      else e.mFallback.map fun listener =>
        ⟨.fallback, listener, Request.request msg context []⟩

end Endpoint

inductive SetUpCall
  | register (r : Registration)
  | fallback (callback : ℕ)
  | asyncFallback (callback : ℕ)

def Endpoint.setUp (e : Endpoint) : SetUpCall → Endpoint
  | .register r => e.register r
  | .fallback callback => e.onFallback callback
  | .asyncFallback callback => e.onAsyncFallback callback

end Mgxx.Http
