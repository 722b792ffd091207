import Mgxx.Http.Common

/-!
The TLS members of the endpoint.  A member points to a buffer that `mg_strdup`
has allocated, or into memory of the caller; one flag says for all three which
it is.  The other members of the endpoint take no part in this.
-/

namespace Mgxx.Http

inductive TlsField | ca | cert | key
  deriving DecidableEq

inductive Buffer
  /-- Allocated by `mg_strdup` for this member in call number `call`. -/
  | duplicate (call : ℕ) (field : TlsField)
  /-- Memory of a caller. -/
  | borrowed (address : ℕ)
  deriving DecidableEq

/-- `mg_str`, with the bytes it stands for. -/
structure TlsStr where
  buf : Option Buffer := none
  data : Bytes := []
  deriving DecidableEq

inductive TlsCall
  | string (cert key : Bytes)
  | stringCa (ca cert key : Bytes)
  | view (cert key : StringView)
  | viewCa (ca cert key : StringView)

def mgStrN (view : StringView) : TlsStr := ⟨view.address.map .borrowed, view.data⟩

/-- `mg_strdup`; `copy` is the new buffer, if there is one. -/
def mgStrdup (copy : Bytes → Option Bytes) (call : ℕ) (field : TlsField) (data : Bytes) : TlsStr :=
  match copy data with
  | none => {}
  | some data => ⟨some (.duplicate call field), data⟩

/-- The pointers that `mg_free` gives back: not a null pointer. -/
def mgFree (str : TlsStr) : List Buffer := str.buf.toList

structure Tls where
  mTlsCa : TlsStr := {}
  mTlsCert : TlsStr := {}
  mTlsKey : TlsStr := {}
  mTlsAlloc : Bool := false
  /-- How many calls of `use_tls` there have been.  The program keeps no such count. -/
  calls : ℕ := 0

/-- `mg_tls_opts`, as far as the endpoint fills it. -/
structure MgTlsOpts where
  ca : TlsStr := {}
  cert : TlsStr
  key : TlsStr

namespace Tls

def isMtls (tls : Tls) : Bool := 0 < tls.mTlsCa.data.length

variable (copy : Bytes → Option Bytes)

def useTls (tls : Tls) : TlsCall → Tls
  | .string cert key =>
      { tls with
        mTlsCert := mgStrdup copy tls.calls .cert cert
        mTlsKey := mgStrdup copy tls.calls .key key
        mTlsAlloc := true
        calls := tls.calls + 1 }
  | .stringCa ca cert key =>
      { tls with
        mTlsCa := mgStrdup copy tls.calls .ca ca
        mTlsCert := mgStrdup copy tls.calls .cert cert
        mTlsKey := mgStrdup copy tls.calls .key key
        mTlsAlloc := true
        calls := tls.calls + 1 }
  | .view cert key =>
      { tls with
        mTlsCert := mgStrN cert
        mTlsKey := mgStrN key
        calls := tls.calls + 1 }
  | .viewCa ca cert key =>
      { tls with
        mTlsCa := mgStrN ca
        mTlsCert := mgStrN cert
        mTlsKey := mgStrN key
        calls := tls.calls + 1 }

def configure (calls : List TlsCall) : Tls := calls.foldl (useTls copy) {}

/-- `~endpoint`: the pointers it frees. -/
def destroy (tls : Tls) : List Buffer :=
  if tls.mTlsAlloc then
    (if tls.isMtls then mgFree tls.mTlsCa else []) ++ mgFree tls.mTlsCert ++ mgFree tls.mTlsKey
  else []

/-- `handle_secure`: what `mg_tls_init` is given, if it is called. -/
def handleSecure (tls : Tls) (isTls : Bool) : Option MgTlsOpts :=
  if !isTls || tls.mTlsCert.data.length == 0 || tls.mTlsKey.data.length == 0 then none
  else some
    { ca := if tls.isMtls then tls.mTlsCa else {}
      cert := tls.mTlsCert
      key := tls.mTlsKey }

end Tls

end Mgxx.Http
