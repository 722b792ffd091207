import Mgxx.Concurrency.Use

/-!
The answer of `async_response::send` is fixed by its first call.
-/

namespace Mgxx.Http

open Mgxx.Library

/-- What `handle_response` passes to `mg_http_reply`. -/
def Payload.reply (payload : Payload) : Write :=
  .reply payload.code payload.headers (.sized payload.body.length payload.body)

/-- What `response::send` passes to `mg_http_reply` when these are its headers. -/
def Response.sent (mg : Mongoose) (headers : Headers) (code : ℤ) (body : Bytes) : List Write :=
  ((Response.send mg (fun _ => {}) { mConn := some 0, mHeaders := headers } code body).1 0).log.map
    Output.write

theorem Response.sent_eq (mg : Mongoose) (headers : Headers) (code : ℤ) (body : Bytes) :
    Response.sent mg headers code body = [(Payload.mk code headers.format body).reply] := by
  simp [sent, send, Payload.reply]

/-! ### Before the first call -/

namespace View

variable {v v' : View} {r t : ℕ}

/-- Nothing has been written for the request, and `n` wake-ups are in flight. -/
structure Unanswered (n : ℕ) (v : View) : Prop where
  pending : v.pending = true
  inFlight : v.inFlight = n
  outputs : v.outputs = []

structure Uncalled (v : View) : Prop where
  unanswered : v.Unanswered 0
  table : v.table = none
  returned : ∀ s, some s ∉ v.shared.history.returned
  threads : ∀ t, v.threads t = .idle

/-- A response that is still pending has not been called, or a call decides about it. -/
def Undecided (v : View) : Prop :=
  v.shared.response.mState = .pending → v.Uncalled ∨ ∃ t, (v.threads t).deciding ≠ none

theorem threads_wakeup (v : View) (r : ℕ) : (v.wakeup r).threads = v.threads := by
  unfold wakeup
  cases v.table with
  | some s => rfl
  | none =>
      simp only
      split_ifs
      · cases v.shared.response.mStream <;> rfl
      · rfl
      · rfl

/-- A thread that decides goes on deciding until it stores another state. -/
theorem deciding_advance {pc : Pc} (h : pc.deciding ≠ none) (q : Shared) (answer : Bool)
    (hstate : (q.advance answer pc).shared.response.mState = .pending) :
    (q.advance answer pc).pc.deciding ≠ none := by
  cases pc with
  | idle | streamStored _ | granted _ | putWritten _ _ | putStored _ | putLocked _
  | putRefused _ => exact absurd rfl h
  | sendChecked _ _ _ | sendStored _ | streamChecked _ _ _ | streamOpened _ =>
      cases answer <;> simp [Shared.advance, Pc.deciding]
  | sendDecided _ ok =>
      cases ok <;> exact absurd hstate (by simp [Shared.advance, Shared.updateResponse])
  | streamDecided _ ok =>
      cases ok <;>
        exact absurd hstate (by simp [Shared.advance, Shared.updateResponse, Shared.returns])

/-- A thread that decides nothing leaves the response as it is. -/
theorem response_advance {pc : Pc} (h : pc.deciding = none) (q : Shared) (answer : Bool) :
    (q.advance answer pc).shared.response = q.response := by
  cases pc with
  | idle | streamStored _ | granted _ | putWritten _ _ | putRefused _ => rfl
  | putStored _ | putLocked _ => cases answer <;> rfl
  | sendChecked _ _ _ | sendStored _ | sendDecided _ _ | streamChecked _ _ _ | streamOpened _
  | streamDecided _ _ => exact absurd h (by simp [Pc.deciding])

/-- What another thread does leaves a deciding thread where it is. -/
theorem deciding_update {threads : ℕ → Pc} {t' : ℕ} (h : (threads t').deciding ≠ none)
    (hnone : (threads t).deciding = none) (pc : Pc) :
    (Function.update threads t pc t').deciding ≠ none := by
  rwa [Function.update_of_ne]
  rintro rfl
  exact h hnone

theorem Undecided.step {ve : Event} (h : v.Undecided) (hstep : v.step r ve = some v') :
    v'.Undecided := by
  intro hstate'
  cases ve with
  | deliver =>
      obtain ⟨hflight, rfl⟩ := step_deliver hstep
      have hstate : v.shared.response.mState = .pending := by
        rcases mState_wakeup v.take r with hsame | hcompleted
        · exact hsame.symm.trans hstate'
        · exact absurd (hcompleted.symm.trans hstate') (by simp)
      rcases h hstate with huncalled | ⟨t, ht⟩
      · exact absurd huncalled.unanswered.inFlight (Nat.ne_of_gt hflight)
      · exact Or.inr ⟨t, by rwa [deliver, threads_wakeup]⟩
  | poll =>
      obtain rfl := Option.some.inj hstep
      rw [shared_poll] at hstate'
      rw [poll_of_ne (by simp [hstate'])]
      exact h hstate'
  | release blocked =>
      obtain rfl := Option.some.inj hstep
      cases htable : v.table with
      | none =>
          rw [release_of_none htable] at hstate' ⊢
          exact h hstate'
      | some s =>
          simp only [release, htable] at hstate' ⊢
          exact Or.inr ((h hstate').resolve_left fun huncalled =>
            absurd (huncalled.table.symm.trans htable) (by simp))
  | headers headers =>
      obtain rfl := Option.some.inj hstep
      rcases h hstate' with huncalled | hdeciding
      · exact Or.inl ⟨⟨huncalled.unanswered.pending, huncalled.unanswered.inFlight,
          huncalled.unanswered.outputs⟩, huncalled.table, huncalled.returned, huncalled.threads⟩
      · exact Or.inr hdeciding
  | begin t call =>
      obtain ⟨-, rfl⟩ := step_begin hstep
      have hstate : v.shared.response.mState = .pending := by
        by_contra hne
        rw [commit_shared, Shared.begin_of_ne hne] at hstate'
        exact hne hstate'
      refine Or.inr ⟨t, ?_⟩
      rw [commit_threads, Function.update_self]
      cases call <;> simp [Shared.begin, hstate, Pc.deciding]
  | wait t s =>
      obtain ⟨hidle, hreturned, granted, -, rfl⟩ := step_wait hstep
      have hstate : v.shared.response.mState = .pending := by
        cases granted <;> exact hstate'
      rcases h hstate with huncalled | ⟨t', ht'⟩
      · exact absurd hreturned (huncalled.returned s)
      · refine Or.inr ⟨t', ?_⟩
        cases granted with
        | false => exact ht'
        | true => exact deciding_update ht' (by simp [hidle, Pc.deciding]) _
  | put t s op =>
      obtain ⟨hpc, hreturned, rfl⟩ := step_put hstep
      rcases h hstate' with huncalled | ⟨t', ht'⟩
      · exact absurd hreturned (huncalled.returned s)
      · refine Or.inr ⟨t', deciding_update ht' ?_ _⟩
        rcases hpc with hpc | hpc <;> simp [hpc, Pc.deciding]
  | advance t answer =>
      obtain rfl := Option.some.inj hstep
      by_cases hdeciding : (v.threads t).deciding = none
      · have hstate : v.shared.response.mState = .pending := by
          rwa [commit_shared, response_advance hdeciding] at hstate'
        rcases h hstate with huncalled | ⟨t', ht'⟩
        · rw [advance_of_idle (huncalled.threads t)]
          exact Or.inl huncalled
        · exact Or.inr ⟨t', deciding_update ht' hdeciding _⟩
      · refine Or.inr ⟨t, ?_⟩
        rw [commit_threads, Function.update_self]
        exact deciding_advance hdeciding v.shared answer hstate'

/-! ### From the first call on -/

structure AnsweredBy (o : Output) (v : View) : Prop where
  pending : v.pending = false
  inFlight : v.inFlight = 0
  outputs : v.outputs = [o]

/-- How far a request has come whose response was first called by a `send` that
makes this payload; the thread of that call stands at `pc`. -/
inductive Sent (r : ℕ) (payload : Payload) (v : View) : Pc → Prop
  | checked (hwaiting : v.Unanswered 0) (hstate : v.shared.response.mState = .pending)
      (hheaders : v.shared.response.mHeaders.format = payload.headers) :
      Sent r payload v (.sendChecked r payload.code payload.body)
  | stored (hwaiting : v.Unanswered 0) (hstate : v.shared.response.mState = .pending)
      (hpayload : v.shared.response.mPayload = payload) : Sent r payload v (.sendStored r)
  | refused (hwaiting : v.Unanswered 0) (hstate : v.shared.response.mState = .pending) :
      Sent r payload v (.sendDecided r false)
  | posted (hwaiting : v.Unanswered 1) (hstate : v.shared.response.mState = .pending)
      (hpayload : v.shared.response.mPayload = payload) : Sent r payload v (.sendDecided r true)
  -- the wake-up was delivered before `sending` is stored
  | overtaken (hanswered : v.AnsweredBy ⟨.response r, payload.reply⟩)
      (hstate : v.shared.response.mState = .completed) : Sent r payload v (.sendDecided r true)
  | sending (hwaiting : v.Unanswered 1) (hstate : v.shared.response.mState = .sending)
      (hpayload : v.shared.response.mPayload = payload) : Sent r payload v .idle
  | failed (hwaiting : v.Unanswered 0) (hstate : v.shared.response.mState = .failed) :
      Sent r payload v .idle
  | answered (o : Output) (hanswered : v.AnsweredBy o)
      (ho : o = ⟨.response r, payload.reply⟩ ∨ o = ⟨.failed r, internalServerError⟩)
      (hstate : v.shared.response.mState ≠ .pending) : Sent r payload v .idle

/-- The answer is fixed: thread `t` is the only one at work on the request, and
no stream was returned to anyone. -/
structure Frozen (r : ℕ) (payload : Payload) (t : ℕ) (pc : Pc) (v : View) : Prop where
  table : v.table = none
  returned : ∀ s, some s ∉ v.shared.history.returned
  threads : v.progress.Only t pc
  sent : v.Sent r payload pc

variable {payload : Payload} {pc : Pc}

theorem Sent.mState_ne (h : v.Sent r payload .idle) : v.shared.response.mState ≠ .pending := by
  cases h with
  | sending _ hstate => simp [hstate]
  | failed _ hstate => simp [hstate]
  | answered _ _ _ hstate => exact hstate

/-- What a delivery finds. -/
theorem Sent.waiting (h : v.Sent r payload pc) (hflight : 0 < v.inFlight) :
    v.Unanswered 1 ∧ v.shared.response.mState ≠ .streaming ∧
      v.shared.response.mPayload = payload ∧ (pc = .idle ∨ pc = .sendDecided r true) := by
  have hzero {α : Prop} (hnone : v.inFlight = 0) : α := absurd hnone (Nat.ne_of_gt hflight)
  cases h with
  | checked hwaiting | stored hwaiting | refused hwaiting | failed hwaiting =>
      exact hzero hwaiting.inFlight
  | overtaken hanswered => exact hzero hanswered.inFlight
  | answered _ hanswered => exact hzero hanswered.inFlight
  | posted hwaiting hstate hpayload => exact ⟨hwaiting, by simp [hstate], hpayload, Or.inr rfl⟩
  | sending hwaiting hstate hpayload => exact ⟨hwaiting, by simp [hstate], hpayload, Or.inl rfl⟩

def replies (v : View) (r : ℕ) : List Write :=
  (v.outputs.filter fun o => o.source = .response r ∨ o.source = .notFound r).map Output.write

theorem Sent.replies (h : v.Sent r payload pc) :
    v.replies r = [] ∨ v.replies r = [payload.reply] := by
  rw [View.replies]
  cases h with
  | checked hwaiting | stored hwaiting | refused hwaiting | posted hwaiting | sending hwaiting
  | failed hwaiting =>
      rw [hwaiting.outputs]
      exact Or.inl rfl
  | overtaken hanswered =>
      rw [hanswered.outputs]
      exact Or.inr (by simp)
  | answered o hanswered ho =>
      rw [hanswered.outputs]
      rcases ho with rfl | rfl
      · exact Or.inr (by simp)
      · exact Or.inl (by simp)

theorem Unanswered.deliver_eq (h : v.Unanswered 1) (htable : v.table = none)
    (hstate : v.shared.response.mState ≠ .streaming) (r : ℕ) : v.deliver r = v.take.reply r := by
  have htable' : v.take.table = none := htable
  have hpending : v.take.pending = true := h.pending
  simp only [deliver, wakeup, htable', hpending, if_true]
  exact if_neg hstate

theorem Unanswered.answered (h : v.Unanswered 1) (htable : v.table = none)
    (hstate : v.shared.response.mState ≠ .streaming) (r : ℕ) :
    (v.deliver r).AnsweredBy ⟨.response r, v.shared.response.mPayload.reply⟩ := by
  rw [h.deliver_eq htable hstate]
  refine ⟨rfl, congrArg (· - 1) h.inFlight, ?_⟩
  simp only [reply, take, h.outputs]
  rfl

theorem Unanswered.commit {n n' : ℕ} (h : v.Unanswered n) {access : Access}
    (hposted : n + access.posted.length = n') : (v.commit t access).Unanswered n' :=
  ⟨h.pending, by rw [commit_inFlight, h.inFlight, hposted], h.outputs⟩

theorem AnsweredBy.commit {o : Output} (h : v.AnsweredBy o) {access : Access}
    (hposted : access.posted = []) : (v.commit t access).AnsweredBy o :=
  ⟨h.pending, by rw [commit_inFlight, h.inFlight, hposted]; rfl, h.outputs⟩

/-- Once the call has returned, the headers may change, and the history. -/
theorem Sent.congr (h : v.Sent r payload .idle) (hpending : v'.pending = v.pending)
    (hflight : v'.inFlight = v.inFlight) (houtputs : v'.outputs = v.outputs)
    (hstate : v'.shared.response.mState = v.shared.response.mState)
    (hpayload : v'.shared.response.mPayload = v.shared.response.mPayload) :
    v'.Sent r payload .idle := by
  have hwaiting {n : ℕ} (hw : v.Unanswered n) : v'.Unanswered n :=
    ⟨hpending.trans hw.pending, hflight.trans hw.inFlight, houtputs.trans hw.outputs⟩
  cases h with
  | sending hw hs hp => exact .sending (hwaiting hw) (hstate.trans hs) (hpayload.trans hp)
  | failed hw hs => exact .failed (hwaiting hw) (hstate.trans hs)
  | answered o ha ho hs =>
      exact .answered o ⟨hpending.trans ha.pending, hflight.trans ha.inFlight,
        houtputs.trans ha.outputs⟩ ho (hstate ▸ hs)

namespace Frozen

/-- The delivery writes the answer. -/
theorem deliver (h : v.Frozen r payload t pc) (hflight : 0 < v.inFlight) :
    v.outputs = [] ∧ (v.deliver r).Frozen r payload t pc ∧
      (v.deliver r).outputs = [⟨.response r, payload.reply⟩] := by
  obtain ⟨hwaiting, hstate, hpayload, hpc⟩ := h.sent.waiting hflight
  have hreply := hwaiting.deliver_eq h.table hstate r
  have hanswered := hwaiting.answered h.table hstate r
  have hcompleted : (v.deliver r).shared.response.mState = .completed := by
    rw [hreply]
    rfl
  rw [hpayload] at hanswered
  refine ⟨hwaiting.outputs, ⟨hreply ▸ h.table, hreply ▸ h.returned, hreply ▸ h.threads, ?_⟩,
    hanswered.outputs⟩
  rcases hpc with rfl | rfl
  · exact .answered _ hanswered (Or.inl rfl) (by simp [hcompleted])
  · exact .overtaken hanswered hcompleted

/-- After an access of the thread of the call. -/
theorem commit (h : v.Frozen r payload t pc) {access : Access}
    (hreturned : access.shared.history.returned = v.shared.history.returned)
    (hsent : (v.commit t access).Sent r payload access.pc) :
    (v.commit t access).Frozen r payload t access.pc :=
  ⟨h.table, fun s hs => h.returned s (hreturned ▸ hs), only_commit h.threads access, hsent⟩

/-- Each access of the call takes it one situation further. -/
theorem advance (h : v.Frozen r payload t pc) (answer : Bool) :
    ∃ pc', (v.commit t (v.shared.advance answer pc)).Frozen r payload t pc' := by
  cases h.sent with
  | checked hwaiting hstate hheaders =>
      cases answer with
      | false => exact ⟨_, h.commit rfl (.refused (hwaiting.commit rfl) hstate)⟩
      | true =>
          refine ⟨_, h.commit rfl (.stored (hwaiting.commit rfl) hstate ?_)⟩
          simp [Shared.advance, Shared.updateResponse, AsyncResponse.storePayload, hheaders]
  | stored hwaiting hstate hpayload =>
      cases answer with
      | false => exact ⟨_, h.commit rfl (.refused (hwaiting.commit rfl) hstate)⟩
      | true => exact ⟨_, h.commit rfl (.posted (hwaiting.commit rfl) hstate hpayload)⟩
  | refused hwaiting hstate => exact ⟨_, h.commit rfl (.failed (hwaiting.commit rfl) rfl)⟩
  | posted hwaiting hstate hpayload =>
      exact ⟨_, h.commit rfl (.sending (hwaiting.commit rfl) rfl hpayload)⟩
  | overtaken hanswered hstate =>
      refine ⟨_, h.commit rfl (.answered _ (hanswered.commit rfl) (Or.inl rfl) ?_)⟩
      simp [Shared.advance, Shared.updateResponse]
  | sending | failed | answered =>
      have hidle := threads_of_only h.threads
      rw [← hidle, advance_of_idle hidle]
      exact ⟨_, h⟩

/-- A poll answers for a call whose wake-up was refused, and for no other. -/
theorem poll (h : v.Frozen r payload t pc) : (v.poll r).Frozen r payload t pc := by
  have hnone (hnot : ¬(v.pending = true ∧ v.shared.response.mState = .failed)) :
      (v.poll r).Frozen r payload t pc := by
    rwa [View.poll, if_neg hnot]
  cases h.sent with
  | checked _ hstate | stored _ hstate | refused _ hstate | posted _ hstate
  | overtaken _ hstate | sending _ hstate => exact hnone (by simp [hstate])
  | answered _ hanswered => exact hnone (by simp [hanswered.pending])
  | failed hwaiting hstate =>
      rw [View.poll, if_pos ⟨hwaiting.pending, hstate⟩]
      refine ⟨h.table, h.returned, h.threads, .answered ⟨.failed r, internalServerError⟩
        ⟨rfl, hwaiting.inFlight, ?_⟩ (Or.inr rfl) (by simp [hstate])⟩
      simp [hwaiting.outputs]

/-- A later call of `send` or `stream` finds the response settled. -/
theorem begin (h : v.Frozen r payload t .idle) {t' : ℕ} (hidle : v.threads t' = .idle)
    (call : Call) : (v.commit t' (v.shared.begin r call)).Frozen r payload t .idle := by
  have hsame := progress_begin_of_ne (r := r) h.sent.mState_ne hidle call
  rw [Shared.begin_of_ne h.sent.mState_ne] at hsame ⊢
  exact ⟨h.table, call.returned_refusal h.returned, hsame ▸ h.threads,
    h.sent.congr rfl rfl rfl rfl rfl⟩

end Frozen

def OneThread (v : View) : Event → Prop
  | .begin _ _ | .headers _ => ∀ t, v.threads t = .idle
  | .deliver | .poll | .release _ | .wait _ _ | .put _ _ _ | .advance _ _ => True

/-- Nothing that happens after the first call changes the answer. -/
theorem Frozen.step {ve : Event} (h : v.Frozen r payload t pc) (hok : v.OneThread ve)
    (hstep : v.step r ve = some v') : ∃ pc', v'.Frozen r payload t pc' := by
  cases ve with
  | deliver =>
      obtain ⟨hflight, rfl⟩ := step_deliver hstep
      exact ⟨pc, (h.deliver hflight).2.1⟩
  | poll =>
      obtain rfl := Option.some.inj hstep
      exact ⟨pc, h.poll⟩
  | release blocked =>
      rw [View.step, release_of_none h.table] at hstep
      exact ⟨pc, Option.some.inj hstep ▸ h⟩
  | headers headers =>
      obtain rfl := Option.some.inj hstep
      obtain rfl := (threads_of_only h.threads).symm.trans (hok t)
      exact ⟨.idle, h.table, h.returned, h.threads, h.sent.congr rfl rfl rfl rfl rfl⟩
  | begin t' call =>
      obtain ⟨hidle, rfl⟩ := step_begin hstep
      obtain rfl := (threads_of_only h.threads).symm.trans (hok t)
      exact ⟨.idle, h.begin hidle call⟩
  | wait t' s => exact absurd (step_wait hstep).2.1 (h.returned s)
  | put t' s op => exact absurd (step_put hstep).2.1 (h.returned s)
  | advance t' answer =>
      obtain rfl := Option.some.inj hstep
      by_cases ht : t' = t
      · subst ht
        rw [threads_of_only h.threads]
        exact h.advance answer
      · rw [advance_of_idle (threads_of_only_ne h.threads ht)]
        exact ⟨pc, h⟩

/-- The first call, up to its check. -/
theorem Uncalled.frozen (h : v.Uncalled) (hstate : v.shared.response.mState = .pending)
    (code : ℤ) (body : Bytes) :
    (v.commit t (v.shared.begin r (.send code body))).Frozen r
      ⟨code, v.shared.response.mHeaders.format, body⟩ t (.sendChecked r code body) := by
  have honly : v.progress.Only t .idle :=
    (funext h.threads).trans (Function.update_eq_self t fun _ => Pc.idle).symm
  have hbegin : v.shared.begin r (.send code body) =
      { shared := v.shared.pass, pc := .sendChecked r code body } := by
    simp [Shared.begin, hstate]
  rw [hbegin]
  exact ⟨h.table, h.returned, only_commit honly _,
    .checked (h.unanswered.commit rfl) hstate rfl⟩

end View

namespace Config

variable {mg : Mongoose} {cfg cfg₀ cfg₁ cfg₂ cfg₃ : Config} {r t : ℕ} {code : ℤ} {body : Bytes}

/-- Response `r` is used by one thread: while a thread is in a call of it or of
its streams, it is not called again and its headers are left alone. -/
def OneThread (r : ℕ) (cfg : Config) : Event → Prop
  | .begin _ r' _ | .headers r' _ => r' = r → ∀ t, (cfg.threads t).request ≠ some r
  | .loop _ | .wait _ _ | .put _ _ _ | .advance _ _ => True

/-- What `handle_response` has passed to `mg_http_reply` for response `r`, with its
payload or because it did not find it. -/
def replies (cfg : Config) (r : ℕ) : List Write :=
  ((cfg.world.connections (cfg.conn r)).log.filter fun o =>
    o.source = .response r ∨ o.source = .notFound r).map Output.write

theorem oneThread_view {e : Event} {ve : View.Event} (h : cfg.OneThread r e)
    (habout : e.about mg cfg r = some ve) : (cfg.view r).OneThread ve := by
  have hidle (hnone : ∀ t, (cfg.threads t).request ≠ some r) (t : ℕ) :
      (cfg.view r).threads t = .idle := if_neg (hnone t)
  have hevent := event_of_about habout
  cases ve with
  | begin t call =>
      obtain rfl := hevent
      exact hidle (h rfl)
  | headers headers =>
      obtain rfl := hevent
      exact hidle (h rfl)
  | deliver | poll | release _ | wait _ _ | put _ _ _ | advance _ _ => trivial

/-- A response that is pending while no thread is in a call of it has not been called. -/
theorem uncalled_of_reaches (hinit : cfg₀.Initial) (h : Reaches (step mg) anyEvent cfg₀ cfg)
    (hr : r < cfg.world.mRequestCounter) (hopen : cfg.IsOpen r)
    (hstate : (cfg.world.responses r).mState = .pending)
    (hnone : ∀ t, (cfg.threads t).request ≠ some r) : (cfg.view r).Uncalled := by
  have hundecided : (cfg.view r).Undecided := by
    refine view_of_reaches hinit (.refl cfg₀) h ?_ ?_ (fun _ _ _ _ _ _ h => h.step) hr hopen
    · exact fun hr => absurd hr (hinit.not_lt r)
    · exact fun _ c stream _ => Or.inl ⟨⟨rfl, rfl, rfl⟩, rfl, by simp [fresh], fun _ => rfl⟩
  refine (hundecided hstate).resolve_right ?_
  rintro ⟨t, ht⟩
  have hidle : (cfg.view r).threads t = .idle := if_neg (hnone t)
  exact ht (by rw [hidle]; rfl)

theorem replies_eq (cfg : Config) (r : ℕ) : cfg.replies r = (cfg.view r).replies r := by
  rw [replies, View.replies, view, List.filter_filter]
  refine congrArg _ (List.filter_congr fun o _ => ?_)
  by_cases hsource : o.source = .response r ∨ o.source = .notFound r
  · rcases hsource with hsource | hsource <;> simp [hsource, Source.request]
  · simp [hsource]

theorem frozen_of_reaches (hinit : cfg₀.Initial) (h₁ : Reaches (step mg) anyEvent cfg₀ cfg₁)
    (hstate : (cfg₁.world.responses r).mState = .pending)
    (hfirst : cfg₁.OneThread r (.begin t r (.send code body)))
    (hcall : cfg₁.step mg (.begin t r (.send code body)) = some cfg₂)
    (h : Reaches (step mg) (OneThread r) cfg₂ cfg) (hopen : cfg.IsOpen r) :
    ∃ pc, (cfg.view r).Frozen r ⟨code, (cfg₁.world.responses r).mHeaders.format, body⟩ t pc := by
  have howned := Owned.of_reaches hinit h₁
  have hr₁ : r < cfg₁.world.mRequestCounter := (step_begin hcall).2.1
  have hr₂ := Nat.lt_of_lt_of_le hr₁ (mRequestCounter_le_step hcall)
  refine view_of_reaches (P := fun v => ∃ pc, v.Frozen r _ t pc) hinit (h₁.next trivial hcall) h
    ?_ ?_ ?_ (Nat.lt_of_lt_of_le hr₂ (mRequestCounter_le_of_reaches h)) hopen
  · intro _ hopen₂
    have hopen₁ := isOpen_of_step howned hr₁ hcall hopen₂
    have huncalled := uncalled_of_reaches hinit h₁ hr₁ hopen₁ hstate (hfirst rfl)
    have hview := view_step mg howned hr₁ hcall hopen₂
    simp only [Event.about, if_true, View.step, huncalled.threads t, Option.some.injEq] at hview
    rw [← hview]
    exact ⟨_, huncalled.frozen hstate code body⟩
  · exact fun hle => absurd hr₂ (Nat.not_lt.mpr hle)
  · rintro cfg e ve v' hok habout ⟨pc, hfrozen⟩ hstep
    exact hfrozen.step (oneThread_view hok habout) hstep

/-- The answer of an asynchronous `send` is the one of the synchronous `send`,
for the headers, the code and the body of its first call: whatever the thread
does to the response and its headers from then on, whatever the event loop does
in between, and whenever the wake-up is delivered. -/
theorem send_frozen (hinit : cfg₀.Initial) (h₁ : Reaches (step mg) anyEvent cfg₀ cfg₁)
    (hstate : (cfg₁.world.responses r).mState = .pending)
    (hfirst : cfg₁.OneThread r (.begin t r (.send code body)))
    (hcall : cfg₁.step mg (.begin t r (.send code body)) = some cfg₂)
    (h : Reaches (step mg) (OneThread r) cfg₂ cfg₃) (hopen : cfg₃.IsOpen r) :
    (cfg₃.replies r = [] ∨
        cfg₃.replies r = Response.sent mg (cfg₁.world.responses r).mHeaders code body) ∧
      ∀ c cfg₄, cfg₃.step mg (.loop (.wakeup c r)) = some cfg₄ → cfg₃.replies r = [] ∧
        cfg₄.replies r = Response.sent mg (cfg₁.world.responses r).mHeaders code body := by
  obtain ⟨pc, hfrozen⟩ := frozen_of_reaches hinit h₁ hstate hfirst hcall h hopen
  rw [Response.sent_eq]
  constructor
  · rw [replies_eq]
    exact hfrozen.sent.replies
  · intro c cfg₄ hstep
    have h₃ : Reaches (step mg) anyEvent cfg₀ cfg₃ :=
      (h₁.next trivial hcall).trans (h.mono fun _ _ _ => trivial)
    have howned := Owned.of_reaches hinit h₃
    obtain ⟨hraises, hcfg₄⟩ := step_loop hstep
    have hr := (howned.wakeup c r hraises.2).1
    have hopen₄ : cfg₄.IsOpen r := by
      rw [IsOpen, conn_step howned hr hstep, hcfg₄]
      exact (World.status_handleWakeup ..).trans hopen
    have hview := view_step mg howned hr hstep hopen₄
    simp only [Event.about, if_true] at hview
    obtain ⟨hflight, hview⟩ := View.step_deliver hview
    obtain ⟨hbefore, -, hafter⟩ := hfrozen.deliver hflight
    rw [replies_eq, replies_eq, View.replies, View.replies, hview, hbefore, hafter]
    simp

def firstHeaders : List Event :=
  firstRequest ++ [.headers 0 (Headers.empty.set (text "A") (text "1"))]

/-- What thread 0 does from its call of `send` on: it returns, clears the headers
and calls `send` again. -/
def sendingTwice : List Event :=
  [.advance 0 true, .advance 0 true, .advance 0 true, .headers 0 Headers.empty,
    .begin 0 0 (.send 500 (text "two"))]

theorem send_frozen_twice : ∃ cfg₁ cfg₂ cfg₃ cfg₄ : Config,
    run (step .plain) (start asyncRoutes) firstHeaders = some cfg₁ ∧
      cfg₁.step .plain (.begin 0 0 (.send 200 (text "one"))) = some cfg₂ ∧
      run (step .plain) cfg₂ sendingTwice = some cfg₃ ∧
      cfg₃.step .plain (.loop (.wakeup 0 0)) = some cfg₄ ∧
      cfg₄.replies 0 =
        Response.sent .plain (cfg₁.world.responses 0).mHeaders 200 (text "one") := by
  obtain ⟨cfg₁, cfg₂, cfg₃, cfg₄, hfirst, hcall, hlater, hwakeup, hstate, hidle, hone, hopen⟩ :
      ∃ cfg₁ cfg₂ cfg₃ cfg₄ : Config,
        run (step .plain) (start asyncRoutes) firstHeaders = some cfg₁ ∧
          cfg₁.step .plain (.begin 0 0 (.send 200 (text "one"))) = some cfg₂ ∧
          run (step .plain) cfg₂ sendingTwice = some cfg₃ ∧
          cfg₃.step .plain (.loop (.wakeup 0 0)) = some cfg₄ ∧
          (cfg₁.world.responses 0).mState = .pending ∧
          (∀ t, (cfg₁.threads t).request ≠ some 0) ∧
          Meets (step .plain) (OneThread 0) cfg₂ sendingTwice ∧ cfg₃.IsOpen 0 := by
    refine ⟨_, _, _, _, rfl, rfl, rfl, rfl, rfl, fun t => nofun, ?_, rfl⟩
    exact ⟨trivial, trivial, trivial, fun _ t => by cases t <;> nofun,
      fun _ t => by cases t <;> nofun, trivial⟩
  have hsent := send_frozen (initial_start asyncRoutes)
    (reaches_of_run hfirst (meets_anyEvent _ _)) hstate (fun _ => hidle) hcall
    (reaches_of_run hlater hone) hopen
  exact ⟨cfg₁, cfg₂, cfg₃, cfg₄, hfirst, hcall, hlater, hwakeup, (hsent.2 0 cfg₄ hwakeup).2⟩

end Config

end Mgxx.Http
