import Mgxx.Concurrency.AtomicRuns

/-!
The bodies of replies, which go through a format of `mg_http_reply`.
-/

namespace Mgxx.Http

open Mgxx.Library

/-- `mg_http_reply` prints its body and puts it after a head in which
`Content-Length` is the number of bytes printed. -/
def Mongoose.PrintsReplies (mg : Mongoose) (head : ℤ → Bytes → ℕ → Bytes) : Prop :=
  ∀ code headers body,
    mg.mgHttpReply code headers body = head code headers body.bytes.length ++ body.bytes

def sentBody (body : Bytes) : Bytes := (ReplyBody.sized body.length body).bytes

/-- The body has no NUL, and a length that is kept, or made negative, by the
conversion to an `int`. -/
def Printable (body : Bytes) : Prop :=
  0 ∉ body ∧ (body.length < 2 ^ 31 ∨ 2 ^ 31 ≤ body.length % 2 ^ 32)

theorem toInt_neg_iff (size : ℕ) : toInt size < 0 ↔ 2 ^ 31 ≤ size % 2 ^ 32 := by
  unfold toInt
  rw [Int.bmod_def]
  split_ifs <;> omega

theorem toInt_of_small {size : ℕ} (h : size % 2 ^ 32 < 2 ^ 31) :
    toInt size = (size % 2 ^ 32 : ℕ) := by
  unfold toInt
  rw [Int.bmod_def]
  split_ifs <;> omega

/-- A prefix that is as long as the whole is the whole. -/
theorem eq_of_take_cString {data : Bytes} {n : ℕ} (h : (cString data).take n = data) :
    cString data = data ∧ data.length ≤ n := by
  have hlength := congrArg List.length h
  have hpart : cString data <+: data := List.takeWhile_prefix _
  have hle := hpart.length_le
  rw [List.length_take] at hlength
  exact ⟨hpart.eq_of_length (by omega), by omega⟩

/-- The body arrives whole exactly when it is printable. -/
theorem sentBody_eq_iff (body : Bytes) : sentBody body = body ↔ Printable body := by
  simp only [sentBody, ReplyBody.bytes, Printable]
  split_ifs with hneg
  · rw [cString_eq_self_iff]
    exact ⟨fun h => ⟨h, Or.inr ((toInt_neg_iff _).mp hneg)⟩, fun h => h.1⟩
  · have hsmall : body.length % 2 ^ 32 < 2 ^ 31 :=
      Nat.lt_of_not_le fun h => hneg ((toInt_neg_iff _).mpr h)
    rw [toInt_of_small hsmall, Int.toNat_natCast]
    constructor
    · intro h
      obtain ⟨hwhole, hle⟩ := eq_of_take_cString h
      exact ⟨(cString_eq_self_iff body).mp hwhole, by omega⟩
    · rintro ⟨hnul, hlength⟩
      rw [(cString_eq_self_iff body).mpr hnul, List.take_of_length_le]
      omega

/-! ### Between the call and the delivery -/

structure View.Sending (payload : Payload) (v : View) : Prop where
  pending : v.pending = true
  table : v.table = none
  returned : ∀ s, some s ∉ v.shared.history.returned
  mState : v.shared.response.mState = .sending
  mPayload : v.shared.response.mPayload = payload

namespace View.Sending

variable {payload : Payload} {v : View} {r : ℕ}

/-- Nothing but a delivery touches the payload. -/
theorem atomicStep {ve : View.AtomicEvent} (h : v.Sending payload) (henabled : ve.Enabled v)
    (hdeliver : ve ≠ .deliver) : (v.atomicStep r ve).Sending payload := by
  have hput (s : StreamRef) (op : Put) (wake : Wake) : ve ≠ .put s op wake := by
    rintro rfl
    exact h.returned s henabled
  rcases View.atomicStep_settled (r := r) h.table (by simp [h.mState]) (by simp [h.mState]) hdeliver
    hput with hsame | ⟨headers, hsame⟩ | ⟨call, hsame⟩
  · rwa [hsame]
  · rw [hsame]
    exact ⟨h.pending, h.table, h.returned, h.mState, h.mPayload⟩
  · rw [hsame]
    exact ⟨h.pending, h.table, call.returned_refusal h.returned, h.mState, h.mPayload⟩

end View.Sending

namespace Config

variable {mg : Mongoose} {cfg cfg₀ cfg₁ cfg₂ cfg₃ : Config} {r : ℕ}

def Undelivered (r : ℕ) (_ : Config) (e : AtomicEvent) : Prop :=
  ∀ c, e ≠ .loop (.wakeup c r)

theorem sending_of_call {code : ℤ} {body : Bytes} (hinit : cfg₀.Initial)
    (h : Reaches (atomicStep mg) anyEvent cfg₀ cfg)
    (hstate : (cfg.world.responses r).mState = .pending)
    (hcall : cfg.atomicStep mg (.call r (.send code body) .accepted) = some cfg₁)
    (hopen : cfg₁.IsOpen r) :
    (cfg₁.view r).Sending ⟨code, (cfg.world.responses r).mHeaders.format, body⟩ := by
  obtain ⟨hunasked, hview⟩ := unasked_of_call hinit h hstate hcall hopen
  have hresponse : (cfg.view r).shared.response = cfg.world.responses r := rfl
  rw [hview]
  refine ⟨hunasked.pending, hunasked.table, hunasked.returned, ?_, ?_⟩ <;>
    simp [View.atomicStep, Shared.wholeCall, AsyncResponse.send, hresponse, hstate,
      AsyncResponse.storePayload]

/-- A body given to `send` of a response is written with the payload of that
call when its wake-up is delivered, whatever happens in between. -/
theorem reply_of_send {code : ℤ} {body : Bytes} {c : ℕ} (hinit : cfg₀.Initial)
    (h : Reaches (atomicStep mg) anyEvent cfg₀ cfg)
    (hstate : (cfg.world.responses r).mState = .pending)
    (hcall : cfg.atomicStep mg (.call r (.send code body) .accepted) = some cfg₁)
    (h₂ : Reaches (atomicStep mg) (Undelivered r) cfg₁ cfg₂)
    (hdeliver : cfg₂.atomicStep mg (.loop (.wakeup c r)) = some cfg₃) :
    (cfg₃.world.connections c).send = (cfg₂.world.connections c).send ++
      mg.mgHttpReply code (cfg.world.responses r).mHeaders.format
        (.sized body.length body) := by
  have h₁ := h.next (e := .call r (.send code body) .accepted) trivial hcall
  have hreach₂ := h₁.trans (h₂.mono fun _ _ _ => trivial)
  have howned := Owned.of_atomic hinit hreach₂
  obtain ⟨hraises, rfl⟩ := step_loop hdeliver
  obtain ⟨hr, hconn⟩ := howned.wakeup c r hraises.2
  have hconn : cfg₂.conn r = c := hconn
  have hsending : (cfg₂.view r).Sending ⟨code, (cfg.world.responses r).mHeaders.format, body⟩ := by
    refine view_invariant (P := fun v => v.Sending _) hinit h₁ h₂ ?_ ?_ ?_ hr ?_
    · exact fun _ => sending_of_call hinit h hstate hcall
    · intro hle
      obtain ⟨hlt, rfl⟩ := atomicStep_call hcall
      exact absurd hlt (Nat.not_lt.mpr hle)
    · intro cfg e ve _ hok habout henabled hv
      refine hv.atomicStep henabled ?_
      rintro rfl
      obtain ⟨c', rfl⟩ := atomicEvent_of_about habout
      exact hok c' rfl
    · rw [IsOpen, hconn]
      exact hraises.1
  obtain ⟨r', hentry⟩ := Option.isSome_iff_exists.mp hsending.pending
  obtain ⟨rfl, -⟩ := howned.responseEntry _ _ _ hentry
  rw [hconn] at hentry
  have hstream : cfg₂.world.mPendingStreams.find c r' = none :=
    hconn ▸ find_mPendingStreams_of_table howned hsending.table
  have hstate₂ : (cfg₂.world.responses r').mState = .sending := hsending.mState
  have hpayload : (cfg₂.world.responses r').mPayload = _ := hsending.mPayload
  have hreply : (cfg₂.world.take c r').handleWakeup mg c r' =
      (cfg₂.world.take c r').reply mg c r' r' :=
    World.handleWakeup_of_response hstream hentry (by rw [World.take, hstate₂]; simp)
  rw [World.handle, hreply]
  simp [World.reply, World.updateResponse, World.write, World.take, Connection.write, Write.bytes,
    hpayload]

/-- A body goes out with its own length and bytes exactly when it is printable:
from `response::send`, and from `handle_response` for `async_response::send`. -/
theorem bodies_intact_iff {head : ℤ → Bytes → ℕ → Bytes} (hprints : mg.PrintsReplies head)
    (hinit : cfg₀.Initial) :
    (∀ conns c res code body, res.mConn = some c →
      ((Response.send mg conns res code body).1 c).send = (conns c).send ++
        (head code res.mHeaders.format (sentBody body).length ++ sentBody body)) ∧
      (∀ cfg cfg₁ cfg₂ cfg₃ r c code body, Reaches (atomicStep mg) anyEvent cfg₀ cfg →
        cfg.IsOpen r → (cfg.world.responses r).mState = .pending →
        cfg.atomicStep mg (.call r (.send code body) .accepted) = some cfg₁ →
        Reaches (atomicStep mg) (Undelivered r) cfg₁ cfg₂ →
        cfg₂.atomicStep mg (.loop (.wakeup c r)) = some cfg₃ →
        (cfg₃.world.connections c).send = (cfg₂.world.connections c).send ++
          (head code (cfg.world.responses r).mHeaders.format (sentBody body).length ++
            sentBody body)) ∧
      ∀ body, (sentBody body = body ∧ (sentBody body).length = body.length) ↔ Printable body := by
  refine ⟨fun conns c res code body hres => ?_, ?_, fun body => ?_⟩
  · rw [sentBody, ← hprints]
    simp [Response.send, hres, Connection.write, Write.bytes]
  · intro cfg cfg₁ cfg₂ cfg₃ r c code body h _ hstate hcall h₂ hdeliver
    rw [reply_of_send hinit h hstate hcall h₂ hdeliver, hprints]
    rfl
  · rw [← sentBody_eq_iff]
    exact ⟨fun h => h.1, fun h => ⟨h, by rw [h]⟩⟩

def plainHead (code : ℤ) (headers : Bytes) (n : ℕ) : Bytes :=
  text "HTTP/1.1 " ++ text (toString code) ++ text " " ++ formatStatusCode code ++
    text "\r\n" ++ headers ++ text "Content-Length: " ++ text (toString n) ++ text "\r\n\r\n"

def firstAsked : List AtomicEvent := [.loop (.accept 0), .loop (.httpMessage 0 ⟨[], []⟩ [])]

theorem bodies_intact_iff_first :
    ((Response.send .plain (fun _ => {}) { mConn := some 0 } 200 [1]).1 0).send =
        [] ++ (plainHead 200 Headers.empty.format 1 ++ [1]) ∧
      (∃ cfg cfg₁ cfg₂ : Config, run (atomicStep .plain) (start asyncRoutes) firstAsked = some cfg ∧
        cfg.atomicStep .plain (.call 0 (.send 200 [1]) .accepted) = some cfg₁ ∧
        cfg₁.atomicStep .plain (.loop (.wakeup 0 0)) = some cfg₂ ∧
        (cfg₂.world.connections 0).send = (cfg₁.world.connections 0).send ++
          (plainHead 200 Headers.empty.format 1 ++ [1])) ∧
      sentBody [1] = [1] ∧ (sentBody [1]).length = 1 := by
  have hprints : Mongoose.plain.PrintsReplies plainHead := fun _ _ _ => rfl
  have hall := bodies_intact_iff hprints (initial_start asyncRoutes)
  have hprintable : Printable [1] := ⟨by decide, Or.inl (by decide)⟩
  have hsent := (hall.2.2 [1]).mpr hprintable
  have hsync := hall.1 (fun _ => {}) 0 { mConn := some 0 } 200 [1] rfl
  have hrun : Reaches (atomicStep .plain) anyEvent (start asyncRoutes) _ :=
    reaches_of_run rfl (meets_anyEvent _ firstAsked)
  have hasync := hall.2.1 _ _ _ _ 0 0 200 [1] hrun rfl rfl rfl (.refl _) rfl
  rw [hsent.1] at hsync hasync
  exact ⟨hsync, ⟨_, _, _, rfl, rfl, rfl, hasync⟩, hsent⟩

/-- A body whose length is a multiple of 2³² is sent as none. -/
theorem exists_long_body (n : ℕ) (hpos : 0 < n) (hn : n % 2 ^ 32 = 0) :
    ∃ body : Bytes, 0 ∉ body ∧ body.length = n ∧ sentBody body ≠ body := by
  refine ⟨List.replicate n 1, ?_, List.length_replicate, ?_⟩
  · intro hmem
    exact absurd (List.eq_of_mem_replicate hmem) (by decide)
  · rw [Ne, sentBody_eq_iff]
    rintro ⟨-, hlength⟩
    rw [List.length_replicate] at hlength
    omega

/-- A body with a NUL is cut there, and one of 2³² bytes is sent as none; the
head announces what is left, so that nobody notices. -/
theorem bodies_cut :
    ((Response.send .plain (fun _ => {}) { mConn := some 0 } 200 [104, 0, 105]).1 0).send =
        plainHead 200 Headers.empty.format 1 ++ [104] ∧
      ∃ body : Bytes, 0 ∉ body ∧ body.length = 2 ^ 32 ∧ sentBody body ≠ body :=
  ⟨rfl, exists_long_body (2 ^ 32) (Nat.two_pow_pos 32) (Nat.mod_self _)⟩

end Config

end Mgxx.Http
