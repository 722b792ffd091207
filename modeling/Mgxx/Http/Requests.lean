import Mgxx.Http.Connection
import Mgxx.Library.Spans

/-!
`request` and `async_request`.  A request reads mongoose's message in place; an
async request owns a copy of the message buffer and points into that.
-/

namespace Mgxx.Http

open Mgxx.Library

abbrev Memory := ℕ → UInt8

/-- `mg_str`, and a `std::string_view` into memory. -/
abbrev MgStr := Span

structure MgHttpHeader where
  name : MgStr
  value : MgStr
deriving DecidableEq, Repr

/-- `mg_http_message`, with the fields an async request copies;
`maxHeaders` is `MG_MAX_HTTP_HEADERS`. -/
structure MgHttpMessage (maxHeaders : ℕ) where
  method : MgStr
  uri : MgStr
  query : MgStr
  proto : MgStr
  headers : Vector MgHttpHeader maxHeaders
  body : MgStr
  message : MgStr

variable {maxHeaders : ℕ}

namespace MgHttpMessage

/-- Every `mg_str` that points into the message buffer. -/
def spans (msg : MgHttpMessage maxHeaders) : List MgStr :=
  [msg.method, msg.uri, msg.query, msg.proto, msg.body] ++
    msg.headers.toList.flatMap fun header => [header.name, header.value]

end MgHttpMessage

/-- The loop of `mg_http_get_header`, which ends at the first empty name;
`same` is its comparison of a header's name with the name asked for. -/
def findHeader (same : Bytes → Bytes → Bool) (memory : Memory) (name : Bytes) :
    List MgHttpHeader → Option MgStr
  | [] => none
  | header :: rest =>
      if header.name.len = 0 then none
      else if same (header.name.read memory) name then some header.value
      else findHeader same memory name rest

def mgHttpGetHeader (same : Bytes → Bytes → Bool) (memory : Memory)
    (msg : MgHttpMessage maxHeaders) (name : Bytes) : Option MgStr :=
  findHeader same memory name msg.headers.toList

/-- `request`; `mTlsCertInfo` is the weak pointer it hands on. -/
structure Request (maxHeaders : ℕ) where
  mMsg : MgHttpMessage maxHeaders
  mGroups : List MgStr
  mIp : MgStr
  mTlsCertInfo : Option ℕ

namespace Request

variable (memory : Memory) (request : Request maxHeaders)

def getRemoteIp : Bytes := request.mIp.read memory

def getTlsCertInfo : Option ℕ := request.mTlsCertInfo

def method : Bytes := request.mMsg.method.read memory

def uri : Bytes := request.mMsg.uri.read memory

def getParam (index : ℕ) : Option Bytes := request.mGroups[index]?.map (Span.read memory)

def query : Bytes := request.mMsg.query.read memory

def version : Bytes := request.mMsg.proto.read memory

def getHeader (same : Bytes → Bytes → Bool) (name : Bytes) : Option Bytes :=
  (mgHttpGetHeader same memory request.mMsg (cString name)).map (Span.read memory)

def body : Bytes := request.mMsg.body.read memory

def spans (request : Request maxHeaders) : List MgStr := request.mMsg.spans ++ request.mGroups

end Request

/-- `async_request`, which owns the buffer `mMsg.message`. -/
structure AsyncRequest (maxHeaders : ℕ) where
  mMsg : MgHttpMessage maxHeaders
  mGroups : List MgStr
  mIp : Bytes
  mTlsCertInfo : Option ℕ

namespace AsyncRequest

section Construction

variable (delta : ℤ)

def rebase (str : MgStr) : MgStr := if str.buf = 0 then Span.null else str.advance delta

/-- The loop over `headers`; from the first null name on, the fields of
`m_msg{}` keep their initial value. -/
def rebaseHeaders : List MgHttpHeader → List MgHttpHeader
  | [] => []
  | header :: rest =>
      let mHeader : MgHttpHeader := ⟨rebase delta header.name, rebase delta header.value⟩
      if mHeader.name.buf = 0 then
        mHeader :: List.replicate rest.length ⟨Span.null, Span.null⟩
      else mHeader :: rebaseHeaders rest

@[simp] theorem length_rebaseHeaders (headers : List MgHttpHeader) :
    (rebaseHeaders delta headers).length = headers.length := by
  induction headers with
  | nil => rfl
  | cons header rest ih =>
      simp only [rebaseHeaders]
      split
      · simp
      · simp [ih]

/-- The constructor `async_request(msg, groups, ip, tls_cert_info)`, with the
memory it leaves; `mgStrdup` copies a string into a buffer of its own. -/
def asyncRequest (mgStrdup : Memory → MgStr → Memory × MgStr) (memory : Memory)
    (msg : MgHttpMessage maxHeaders) (groups : List MgStr) (ip : MgStr)
    (tlsCertInfo : Option ℕ) : Memory × AsyncRequest maxHeaders :=
  let (after, message) := mgStrdup memory msg.message
  let delta : ℤ := message.buf - msg.message.buf
  (after, {
    mMsg := {
      method := rebase delta msg.method
      uri := rebase delta msg.uri
      query := rebase delta msg.query
      proto := rebase delta msg.proto
      headers := ⟨(rebaseHeaders delta msg.headers.toList).toArray, by simp⟩
      body := rebase delta msg.body
      message := message }
    mGroups := groups.map (rebase delta)
    mIp := ip.read memory
    mTlsCertInfo := tlsCertInfo })

end Construction

variable (memory : Memory) (request : AsyncRequest maxHeaders)

def getRemoteIp : Bytes := request.mIp

def getTlsCertInfo : Option ℕ := request.mTlsCertInfo

def method : Bytes := request.mMsg.method.read memory

def uri : Bytes := request.mMsg.uri.read memory

def getParam (index : ℕ) : Option Bytes := request.mGroups[index]?.map (Span.read memory)

def query : Bytes := request.mMsg.query.read memory

def version : Bytes := request.mMsg.proto.read memory

def getHeader (same : Bytes → Bytes → Bool) (name : Bytes) : Option Bytes :=
  (mgHttpGetHeader same memory request.mMsg (cString name)).map (Span.read memory)

def body : Bytes := request.mMsg.body.read memory

def spans (request : AsyncRequest maxHeaders) : List MgStr := request.mMsg.spans ++ request.mGroups

end AsyncRequest

def Request.toAsync (mgStrdup : Memory → MgStr → Memory × MgStr) (memory : Memory)
    (request : Request maxHeaders) : Memory × AsyncRequest maxHeaders :=
  AsyncRequest.asyncRequest mgStrdup memory request.mMsg request.mGroups request.mIp
    request.mTlsCertInfo

end Mgxx.Http
