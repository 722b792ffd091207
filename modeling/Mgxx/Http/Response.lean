import Mgxx.Http.Connection
import Mgxx.Http.Headers
import Mgxx.Library.NestedMap

/-!
`response`, the synchronous answer.  The object holds a raw pointer to its
connection, and a null pointer once it has answered.
-/

namespace Mgxx.Http

open Mgxx.Library

/-- `mgxx::http::response`; the pointer is the id of the connection. -/
structure Response where
  mConn : Option ℕ
  mHeaders : Headers := Headers.empty

inductive ResponseCall
  | setHeader (name value : Bytes)
  | removeHeader (name : Bytes)
  | clearHeaders
  | send (code : ℤ) (body : Bytes)
  | stream (code : ℤ) (encoding : Bytes) (results : ℕ → Option Bytes)

def ResponseCall.isStream : ResponseCall → Bool
  | stream .. => true
  | setHeader .. | removeHeader .. | clearHeaders | send .. => false

namespace Response

def send (mg : Mongoose) (conns : ℕ → Connection) (res : Response) (code : ℤ) (body : Bytes) :
    (ℕ → Connection) × Response :=
  match res.mConn with
  | none => (conns, res)
  | some c =>
      (modifyAt conns c fun conn =>
        conn.write mg .handler (.reply code res.mHeaders.format (.sized body.length body)),
      { res with mConn := none })

def stream (mg : Mongoose) (conns : ℕ → Connection) (res : Response) (code : ℤ)
    (encoding : Bytes) (results : ℕ → Option Bytes) : (ℕ → Connection) × Response :=
  match res.mConn with
  | none => (conns, res)
  | some c =>
      let headers := (res.mHeaders.remove (text "Content-Length")).set
        (text "Transfer-Encoding") encoding
      let preamble := formatPreamble code headers.format
      (modifyAt conns c fun conn =>
        (conn.write mg .handler (.send preamble)).setStream { results := results },
      { mConn := none, mHeaders := headers })

def call (mg : Mongoose) (conns : ℕ → Connection) (res : Response) :
    ResponseCall → (ℕ → Connection) × Response
  | .setHeader name value => (conns, { res with mHeaders := res.mHeaders.set name value })
  | .removeHeader name => (conns, { res with mHeaders := res.mHeaders.remove name })
  | .clearHeaders => (conns, { res with mHeaders := res.mHeaders.clear })
  | .send code body => res.send mg conns code body
  | .stream code encoding results => res.stream mg conns code encoding results

def calls (mg : Mongoose) (conns : ℕ → Connection) (res : Response) :
    List ResponseCall → (ℕ → Connection) × Response
  | [] => (conns, res)
  | c :: cs => (res.call mg conns c).2.calls mg (res.call mg conns c).1 cs

/-- A handler that uses only the response it is given leaves every other
connection alone, and what it writes belongs to no asynchronous request. -/
structure ActsOnly (c : ℕ) (conns conns' : ℕ → Connection) : Prop where
  others : ∀ d, d ≠ c → conns' d = conns d
  status : (conns' c).status = (conns c).status
  log : ∃ out, (conns' c).log = (conns c).log ++ out ∧ ∀ o ∈ out, o.source = .handler
  busy : (conns c).Busy → (conns' c).Busy

variable {mg : Mongoose} {c : ℕ} {conns conns' conns'' : ℕ → Connection} {res : Response}

theorem ActsOnly.refl : ActsOnly c conns conns :=
  ⟨fun _ _ => rfl, rfl, ⟨[], by simp⟩, id⟩

theorem ActsOnly.trans (h : ActsOnly c conns conns') (h' : ActsOnly c conns' conns'') :
    ActsOnly c conns conns'' := by
  obtain ⟨out, hlog, hout⟩ := h.log
  obtain ⟨out', hlog', hout'⟩ := h'.log
  refine ⟨fun d hd => (h'.others d hd).trans (h.others d hd), h'.status.trans h.status,
    ⟨out ++ out', by rw [hlog', hlog, List.append_assoc], ?_⟩, h'.busy ∘ h.busy⟩
  intro o ho
  exact (List.mem_append.mp ho).elim (hout o) (hout' o)

theorem actsOnly_modifyAt {f : Connection → Connection}
    (hstatus : ∀ conn, (f conn).status = conn.status)
    (hlog : ∃ out, (f (conns c)).log = (conns c).log ++ out ∧ ∀ o ∈ out, o.source = .handler)
    (hbusy : (conns c).Busy → (f (conns c)).Busy) : ActsOnly c conns (modifyAt conns c f) := by
  refine ⟨fun d hd => modifyAt_of_ne hd .., ?_, ?_, ?_⟩
  · rw [modifyAt_self, hstatus]
  · rwa [modifyAt_self]
  · rwa [modifyAt_self]

variable (mg conns) in
/-- One call keeps the pointer to the handler's connection, or makes it null. -/
theorem call_actsOnly (hres : res.mConn = some c ∨ res.mConn = none) (call : ResponseCall) :
    ActsOnly c conns (res.call mg conns call).1 ∧
      ((res.call mg conns call).2.mConn = some c ∨ (res.call mg conns call).2.mConn = none) := by
  cases call with
  | setHeader name value => exact ⟨.refl, hres⟩
  | removeHeader name => exact ⟨.refl, hres⟩
  | clearHeaders => exact ⟨.refl, hres⟩
  | send code body =>
      rcases hres with hres | hres
      · simp only [Response.call, Response.send, hres]
        exact ⟨actsOnly_modifyAt (fun _ => rfl) ⟨_, rfl, by simp⟩ fun h => h.write mg .handler _,
          Or.inr trivial⟩
      · simp only [Response.call, Response.send, hres]
        exact ⟨.refl, Or.inr trivial⟩
  | stream code encoding results =>
      rcases hres with hres | hres
      · simp only [Response.call, Response.stream, hres]
        exact ⟨actsOnly_modifyAt (fun _ => rfl) ⟨_, rfl, by simp⟩ fun h => h.write mg .handler _,
          Or.inr trivial⟩
      · simp only [Response.call, Response.stream, hres]
        exact ⟨.refl, Or.inr trivial⟩

theorem calls_actsOnly (hres : res.mConn = some c ∨ res.mConn = none)
    (cs : List ResponseCall) : ActsOnly c conns (res.calls mg conns cs).1 := by
  induction cs generalizing conns res with
  | nil => exact .refl
  | cons call cs ih =>
      obtain ⟨hacts, hres'⟩ := call_actsOnly mg conns hres call
      exact hacts.trans (ih hres')

theorem fnData_call {call : ResponseCall} (hcall : call.isStream = false) (d : ℕ) :
    ((res.call mg conns call).1 d).fnData = (conns d).fnData := by
  cases call with
  | setHeader name value => rfl
  | removeHeader name => rfl
  | clearHeaders => rfl
  | stream code encoding results => exact absurd hcall (by simp [ResponseCall.isStream])
  | send code body =>
      simp only [Response.call, Response.send]
      cases res.mConn with
      | none => rfl
      | some c => by_cases hd : d = c <;> simp [hd, modifyAt_of_ne]

/-- Only `stream` replaces the producer of a connection. -/
theorem fnData_calls {cs : List ResponseCall} (hcs : ∀ call ∈ cs, call.isStream = false) (d : ℕ) :
    ((res.calls mg conns cs).1 d).fnData = (conns d).fnData := by
  induction cs generalizing conns res with
  | nil => rfl
  | cons call cs ih =>
      rw [calls, ih fun call' h => hcs call' (List.mem_cons_of_mem call h)]
      exact fnData_call (hcs call (by simp)) d

end Response

end Mgxx.Http
