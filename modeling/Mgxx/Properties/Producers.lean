import Mgxx.Concurrency.AtomicRuns
import Mgxx.Properties.Chunks
import Mathlib.Data.List.TakeWhile

/-!
What a producer that does not wait can make of its stream.
-/

namespace Mgxx.Http

open Mgxx.Library

def sentBeforeClose (ops : List Put) : List Bytes := (ops.takeWhile (· ≠ .close)).map Put.data

/-- The preamble, chunks for some of the bodies sent before the first `close`,
in their order and none of them an end, and one end; or the first part of
this. -/
def WellFormed (s : StreamRef) (preamble : Bytes) (ops : List Put) (out : List Output) : Prop :=
  ∃ bodies : List Bytes, bodies.Sublist (sentBeforeClose ops) ∧ (∀ body ∈ bodies, body ≠ []) ∧
    out <+: written s preamble (plan bodies)

/-- Both `close` and `send("")` write this. -/
def endOutput (s : StreamRef) : Output := ⟨.stream s, .chunk []⟩

theorem sentBeforeClose_mono {ops ops' : List Put} (h : ops <+: ops') :
    sentBeforeClose ops <+: sentBeforeClose ops' := by
  obtain ⟨more, rfl⟩ := h
  refine List.IsPrefix.map Put.data ?_
  rw [List.takeWhile_append]
  split_ifs with hall
  · exact (List.takeWhile_prefix _).trans (List.prefix_append _ _)
  · exact List.prefix_rfl

theorem sentBeforeClose_concat {ops : List Put} (h : Put.close ∉ ops) (body : Bytes) :
    sentBeforeClose (ops ++ [.send body]) = sentBeforeClose ops ++ [body] := by
  have hall : ∀ op ∈ ops, decide (op ≠ Put.close) = true :=
    fun op hop => decide_eq_true fun hclose => h (hclose ▸ hop)
  have hself : ops.takeWhile (· ≠ .close) = ops := List.takeWhile_eq_self_iff.mpr hall
  rw [sentBeforeClose, sentBeforeClose, List.takeWhile_append_of_pos hall, hself]
  simp [Put.data]

namespace WellFormed

variable {s : StreamRef} {preamble : Bytes} {ops ops' : List Put} {out : List Output}

theorem nil (s : StreamRef) (preamble : Bytes) (ops : List Put) : WellFormed s preamble ops [] :=
  ⟨[], List.nil_sublist _, by simp, List.nil_prefix⟩

theorem mono (h : WellFormed s preamble ops out) (hops : ops <+: ops') :
    WellFormed s preamble ops' out := by
  obtain ⟨bodies, hsub, hbodies, hpart⟩ := h
  exact ⟨bodies, hsub.trans (sentBeforeClose_mono hops).sublist, hbodies, hpart⟩

theorem of_append {more : List Output} (h : WellFormed s preamble ops (out ++ more)) :
    WellFormed s preamble ops out := by
  obtain ⟨bodies, hsub, hbodies, hpart⟩ := h
  exact ⟨bodies, hsub, hbodies, (List.prefix_append _ _).trans hpart⟩

/-- Between the preamble and the end there are only chunks. -/
theorem eq_written (h : WellFormed s preamble ops out) (hbegun : out ≠ [])
    (hunended : endOutput s ∉ out) :
    ∃ bodies : List Bytes, bodies.Sublist (sentBeforeClose ops) ∧ (∀ body ∈ bodies, body ≠ []) ∧
      out = written s preamble (bodies.map .send) := by
  obtain ⟨bodies, hsub, hbodies, hpart⟩ := h
  rw [plan, written_concat, List.prefix_concat_iff] at hpart
  rcases hpart with rfl | hpart
  · exact absurd (List.mem_append_right _ (List.mem_singleton_self _)) hunended
  · obtain ⟨o, out, rfl⟩ := List.exists_cons_of_ne_nil hbegun
    obtain ⟨rfl, hchunks⟩ := List.cons_prefix_cons.mp hpart
    obtain ⟨ops', hops, rfl⟩ := List.prefix_map_iff.mp hchunks
    obtain ⟨bodies', hbodies', rfl⟩ := List.prefix_map_iff.mp hops
    exact ⟨bodies', hbodies'.sublist.trans hsub,
      fun body hbody => hbodies body (hbodies'.subset hbody),
      rfl⟩

/-- One more chunk, or the end. -/
theorem concat (h : WellFormed s preamble ops out) (hbegun : out ≠ [])
    (hunended : endOutput s ∉ out) (op : Put) (hopen : op ≠ .close → Put.close ∉ ops) :
    WellFormed s preamble (ops ++ [op]) (out ++ [op.output s]) := by
  obtain ⟨bodies, hsub, hbodies, rfl⟩ := h.eq_written hbegun hunended
  have hsub' := hsub.trans (sentBeforeClose_mono (List.prefix_append ops [op])).sublist
  by_cases hdata : op.data = []
  · -- the end, whichever call writes it
    refine ⟨bodies, hsub', hbodies, ?_⟩
    have houtput : op.output s = Put.close.output s := by rw [Put.output, hdata]; rfl
    rw [houtput, ← written_concat]
    exact List.prefix_rfl
  · cases op with
    | close => exact absurd rfl hdata
    | send body =>
        have hbody : body ≠ [] := hdata
        refine ⟨bodies ++ [body], ?_, ?_, ?_⟩
        · rw [sentBeforeClose_concat (hopen (by simp))]
          exact hsub.append (List.Sublist.refl _)
        · intro b hb
          rcases List.mem_append.mp hb with hb | hb
          · exact hbodies b hb
          · exact List.mem_singleton.mp hb ▸ hbody
        · rw [← written_concat]
          apply written_mono
          simp only [plan, List.map_append, List.map_cons, List.map_nil]
          exact List.prefix_append _ _

end WellFormed

/-! ### The stream after `stream()` has returned it -/

/-- `stream()` returns a stream if it finds the response pending and its wake-up
is accepted. -/
theorem AsyncResponse.pending_of_stream {response : AsyncResponse} {code : ℤ} {encoding : Bytes}
    {ref s : StreamRef} {wake : Wake}
    (h : (response.stream code encoding ref wake).result = some s) :
    response.mState = .pending ∧ wake = .accepted ∧ s = ref := by
  unfold AsyncResponse.stream at h
  split_ifs at h with hstate
  cases wake with
  | expired => exact absurd h (by simp)
  | refused => exact absurd h (by simp)
  | accepted => exact ⟨not_not.mp hstate, rfl, (Option.some.inj h).symm⟩

def View.Rests (v : View) (n : ℕ) : Prop :=
  v.inFlight = 0 ∨ (v.shared.stream n).mState = .flush ∨ (v.shared.stream n).mState = .empty ∨
    (v.shared.stream n).mState = .failed

inductive View.Stage (s : StreamRef) (preamble : Bytes) (v : View) : Prop
  /-- The first wake-up has not been delivered. -/
  | handed (hpending : v.pending = true) (htable : v.table = none) (hflight : 0 < v.inFlight)
      (hheld : v.shared.response.mStream = some s)
      (hslot : (v.shared.stream s.number).mState = .start ∧
          (v.shared.stream s.number).mData = preamble ∨
        (v.shared.stream s.number).mState = .failed)
      (houtputs : v.outputs = [])
  | resting (hpending : v.pending = false) (htable : v.table = some s) (hrests : v.Rests s.number)
      (houtputs : WellFormed s preamble (v.shared.history.puts s.number) v.outputs)
  /-- The last call is about to be delivered, the wake-ups of others with it. -/
  | due (op : Put) (hpending : v.pending = false) (htable : v.table = some s)
      (hstate : (v.shared.stream s.number).mState = op.state)
      (hdata : (v.shared.stream s.number).mData = op.data) (honly : op = .close → v.inFlight ≤ 1)
      (houtputs : WellFormed s preamble (v.shared.history.puts s.number)
        (v.outputs ++ [op.output s]))
  /-- The stream has left the table. -/
  | completed (hpending : v.pending = false) (htable : v.table = none) (hflight : v.inFlight = 0)
      (hended : endOutput s ∈ v.outputs)
      (houtputs : WellFormed s preamble (v.shared.history.puts s.number) v.outputs)

structure View.Speaking (r : ℕ) (s : StreamRef) (preamble : Bytes) (v : View) : Prop where
  response : s.response = r
  mState : v.shared.response.mState = .streaming
  only : ∀ s', some s' ∈ v.shared.history.returned → s' = s
  stage : v.Stage s preamble

def Wake.posts (wake : Wake) : ℕ := if wake = .accepted then 1 else 0

/-- The preamble is written and the end is not, the body comes before the first
`close`, and the end is for the last wake-up in flight. -/
def View.InTurn (v : View) (s : StreamRef) (op : Put) (wake : Wake) : Prop :=
  v.outputs ≠ [] ∧ endOutput s ∉ v.outputs ∧
    (op ≠ .close → Put.close ∉ v.shared.history.puts s.number) ∧
    (op = .close → v.inFlight + wake.posts ≤ 1)

namespace View

variable {v : View} {r : ℕ} {s : StreamRef} {preamble : Bytes}

theorem Stage.wellFormed (h : v.Stage s preamble) :
    WellFormed s preamble (v.shared.history.puts s.number) v.outputs := by
  cases h with
  | handed _ _ _ _ _ houtputs => exact houtputs ▸ WellFormed.nil ..
  | resting _ _ _ houtputs => exact houtputs
  | due op _ _ _ _ _ houtputs => exact houtputs.of_append
  | completed _ _ _ _ houtputs => exact houtputs

theorem Stage.congr {v' : View} (h : v.Stage s preamble) (hpending : v'.pending = v.pending)
    (htable : v'.table = v.table) (hflight : v'.inFlight = v.inFlight)
    (hheld : v'.shared.response.mStream = v.shared.response.mStream)
    (hslot : v'.shared.stream = v.shared.stream)
    (hputs : v'.shared.history.puts = v.shared.history.puts) (houtputs : v'.outputs = v.outputs) :
    v'.Stage s preamble := by
  cases h with
  | handed h₁ h₂ h₃ h₄ hstate hnil =>
      exact .handed (hpending.trans h₁) (htable.trans h₂) (hflight ▸ h₃) (hheld.trans h₄)
        (hslot ▸ hstate) (houtputs.trans hnil)
  | resting h₁ h₂ hrests hout =>
      exact .resting (hpending.trans h₁) (htable.trans h₂) (by rwa [Rests, hflight, hslot])
        (by rwa [hputs, houtputs])
  | due op h₁ h₂ hstate hdata honly hout =>
      exact .due op (hpending.trans h₁) (htable.trans h₂) (hslot ▸ hstate) (hslot ▸ hdata)
        (hflight ▸ honly) (by rwa [hputs, houtputs])
  | completed h₁ h₂ h₃ hended hout =>
      exact .completed (hpending.trans h₁) (htable.trans h₂) (hflight.trans h₃) (houtputs ▸ hended)
        (by rwa [hputs, houtputs])

/-- A delivery to a stream that has nothing for it. -/
theorem serve_of_rests (htable : v.table = some s)
    (hstate : (v.shared.stream s.number).mState = .flush ∨
      (v.shared.stream s.number).mState = .empty ∨
      (v.shared.stream s.number).mState = .failed) : v.serve s = v := by
  have hserve : (v.shared.stream s.number).serve = v.shared.stream s.number ∧
      (v.shared.stream s.number).serveOutput = [] := by
    rcases hstate with hstate | hstate | hstate <;>
      simp [AsyncStream.serve, AsyncStream.serveOutput, hstate]
  have hne : (v.shared.stream s.number).mState ≠ .close := by
    rcases hstate with hstate | hstate | hstate <;> simp [hstate]
  cases v
  simp_all [View.serve, Shared.updateStream]

namespace Speaking

theorem deliver (h : v.Speaking r s preamble) (hflight : 0 < v.inFlight) :
    (v.deliver r).Speaking r s preamble := by
  obtain ⟨hresponse, hmState, honly, hstage⟩ := h
  cases hstage with
  | handed hpending htable _ hheld hslot houtputs =>
      rw [deliver_of_held hpending htable hmState hheld]
      refine ⟨hresponse, hmState, honly, ?_⟩
      -- a refused call may have come before the hand-over
      rcases hslot with ⟨hstart, hdata⟩ | hfailed
      · refine .resting rfl ?_ (Or.inr (Or.inl ?_)) ⟨[], List.nil_sublist _, by simp, ?_⟩
        · show (if _ then none else some s) = some s
          rw [if_neg]
          show (v.shared.stream s.number).mState ≠ .close
          simp [hstart]
        · simp [View.serve, View.handOff, View.take, Shared.updateStream, Shared.updateResponse,
            AsyncStream.serve, AsyncStream.markFlush, hstart]
        · simp [View.serve, View.handOff, View.take, Shared.updateResponse,
            AsyncStream.serveOutput, hstart, hdata, houtputs, written]
      · have hserve : v.take.handOff.serve s = v.take.handOff :=
          serve_of_rests hheld (Or.inr (Or.inr hfailed))
        rw [hserve]
        refine .resting rfl hheld (Or.inr (Or.inr (Or.inr hfailed))) ?_
        show WellFormed s preamble _ v.outputs
        exact houtputs ▸ WellFormed.nil ..
  | resting hpending htable hrests houtputs =>
      have hstate := hrests.resolve_left (Nat.ne_of_gt hflight)
      have hserve : v.take.serve s = v.take := serve_of_rests htable hstate
      rw [deliver_of_table htable, hserve]
      exact ⟨hresponse, hmState, honly, .resting hpending htable (Or.inr hstate) houtputs⟩
  | completed _ _ hnone => exact absurd hnone (Nat.ne_of_gt hflight)
  | due op hpending htable hstate hdata hlast houtputs =>
      rw [deliver_of_table htable]
      refine ⟨hresponse, hmState, honly, ?_⟩
      have hwritten : (v.take.serve s).outputs = v.outputs ++ [op.output s] := by
        cases op <;>
          simp_all [View.serve, View.take, AsyncStream.serveOutput, Put.state, Put.output, Put.data]
      cases op with
      | send body =>
          refine .resting hpending ?_ (Or.inr (Or.inl ?_)) (hwritten ▸ houtputs)
          · simp [View.serve, View.take, hstate, Put.state]
          · simp [View.serve, View.take, Shared.updateStream, AsyncStream.serve,
              AsyncStream.markFlush, hstate, Put.state]
      | close =>
          have hone : v.inFlight ≤ 1 := hlast rfl
          refine .completed hpending ?_ (Nat.sub_eq_zero_of_le hone) ?_ (hwritten ▸ houtputs)
          · simp [View.serve, View.take, hstate, Put.state]
          · rw [hwritten]
            exact List.mem_append_right _ (List.mem_singleton_self _)

theorem release (h : v.Speaking r s preamble) (blocked : Bool) :
    (v.release blocked).Speaking r s preamble := by
  obtain ⟨hresponse, hmState, honly, hstage⟩ := h
  have hstage' := hstage
  cases hstage with
  | handed _ htable => exact (release_of_none htable blocked).symm ▸
      ⟨hresponse, hmState, honly, hstage'⟩
  | completed _ htable => exact (release_of_none htable blocked).symm ▸
      ⟨hresponse, hmState, honly, hstage'⟩
  | due op _ htable hstate =>
      have hne : (v.shared.stream s.number).mState ≠ .flush := by
        cases op <;> simp [hstate, Put.state]
      rw [Progress.Streaming.release_of_ne htable hne]
      exact ⟨hresponse, hmState, honly, hstage'⟩
  | resting hpending htable hrests houtputs =>
      have hrelease : v.release blocked =
          { v with shared := v.shared.updateStream s.number (AsyncStream.release blocked) } := by
        simp only [View.release, htable]
      rw [hrelease]
      refine ⟨hresponse, hmState, honly, .resting hpending htable ?_ houtputs⟩
      refine hrests.imp_right fun hstate => ?_
      simp only [Shared.updateStream, Function.update_self, AsyncStream.release]
      split_ifs
      · exact Or.inr (Or.inl rfl)
      · exact hstate

/-- A call that is refused, or leaves no wake-up in flight, is harmless. -/
theorem put (h : v.Speaking r s preamble) (op : Put) (wake : Wake)
    (hturn : wake ≠ .refused → 0 < v.inFlight + wake.posts → v.InTurn s op wake) :
    (v.atomicStep r (.put s op wake)).Speaking r s preamble := by
  obtain ⟨hresponse, hmState, honly, hstage⟩ := h
  have hwellFormed := hstage.wellFormed
  have hputs : (v.atomicStep r (.put s op wake)).shared.history.puts s.number =
      v.shared.history.puts s.number ++ [op] := by
    simp [View.atomicStep, Shared.wholePut]
  have hslot : (v.atomicStep r (.put s op wake)).shared.stream s.number =
      ((v.shared.stream s.number).put op wake).1 := by
    simp [View.atomicStep, Shared.wholePut]
  have hflight : (v.atomicStep r (.put s op wake)).inFlight = v.inFlight + wake.posts := by
    cases wake <;> simp [View.atomicStep, Shared.wholePut, AsyncStream.put, Wake.posts]
  have hmono : WellFormed s preamble
      ((v.atomicStep r (.put s op wake)).shared.history.puts s.number) v.outputs :=
    hwellFormed.mono (hputs ▸ List.prefix_append _ _)
  refine ⟨hresponse, hmState, honly, ?_⟩
  -- a refused call leaves `failed`, whatever the state was
  by_cases hrefused : wake = .refused
  · subst hrefused
    have hfailed : ((v.atomicStep r (.put s op .refused)).shared.stream s.number).mState =
        .failed := by rw [hslot]; rfl
    cases hstage with
    | handed hpending htable hpos hheld _ houtputs =>
        exact .handed hpending htable (hflight ▸ hpos) hheld (Or.inr hfailed) houtputs
    | resting hpending htable =>
        exact .resting hpending htable (Or.inr (Or.inr (Or.inr hfailed))) hmono
    | due _ hpending htable =>
        exact .resting hpending htable (Or.inr (Or.inr (Or.inr hfailed))) hmono
    | completed hpending htable hnone hended =>
        exact .completed hpending htable (hflight ▸ hnone) hended hmono
  · -- nobody sees what a call stores unless a wake-up is in flight
    rcases Nat.eq_zero_or_pos (v.inFlight + wake.posts) with hzero | hpos
    · have hnone := hflight.trans hzero
      cases hstage with
      | handed _ _ hpos => omega
      | resting hpending htable => exact .resting hpending htable (Or.inl hnone) hmono
      | due _ hpending htable => exact .resting hpending htable (Or.inl hnone) hmono
      | completed hpending htable _ hended => exact .completed hpending htable hnone hended hmono
    · obtain ⟨hbegun, hunended, hopen, hlast⟩ := hturn hrefused hpos
      have hstored : ((v.shared.stream s.number).put op wake).1 =
          ((v.shared.stream s.number).putData op).store op.state := by
        cases wake with
        | refused => exact absurd rfl hrefused
        | expired => rfl
        | accepted => rfl
      have hdue (hpending : v.pending = false) (htable : v.table = some s) :
          (v.atomicStep r (.put s op wake)).Stage s preamble := by
        refine .due op hpending htable ?_ ?_ (fun hclose => ?_) ?_
        · rw [hslot, hstored, AsyncStream.mState_store]
        · rw [hslot, hstored, AsyncStream.mData_store, AsyncStream.mData_putData]
        · exact hflight ▸ hlast hclose
        · exact hputs ▸ hwellFormed.concat hbegun hunended op hopen
      cases hstage with
      | handed _ _ _ _ _ houtputs => exact absurd houtputs hbegun
      | resting hpending htable => exact hdue hpending htable
      | due _ hpending htable => exact hdue hpending htable
      | completed _ _ _ hended => exact absurd hended hunended

theorem atomicStep {ve : View.AtomicEvent} (h : v.Speaking r s preamble) (henabled : ve.Enabled v)
    (hturn : ∀ op wake, ve = .put s op wake → wake ≠ .refused → 0 < v.inFlight + wake.posts →
      v.InTurn s op wake) : (v.atomicStep r ve).Speaking r s preamble := by
  cases ve with
  | deliver => exact h.deliver henabled
  | release blocked => exact h.release blocked
  | poll =>
      have hpoll : v.atomicStep r .poll = v := View.poll_of_ne (by rw [h.mState]; simp)
      rwa [hpoll]
  | headers headers =>
      exact ⟨h.response, h.mState, h.only, h.stage.congr rfl rfl rfl rfl rfl rfl rfl⟩
  | put s' op wake =>
      obtain rfl := h.only s' henabled
      exact h.put op wake (hturn op wake rfl)
  | call call wake =>
      have hne : v.shared.response.mState ≠ .pending := by rw [h.mState]; simp
      rw [View.atomicStep, v.shared.wholeCall_of_ne r hne call wake, Shared.begin_of_ne hne]
      refine ⟨h.response, h.mState, fun s' hs' => ?_, h.stage.congr rfl rfl rfl rfl rfl rfl rfl⟩
      exact h.only s' ((List.mem_append.mp hs').resolve_right (call.some_not_mem_refusal s'))

end Speaking

/-- What `stream()` leaves behind when it returns a stream. -/
theorem speaking_of_stream (h : v.Unasked) (hpending : v.shared.response.mState = .pending)
    (code : ℤ) (encoding : Bytes) :
    (v.atomicStep r (.call (.stream code encoding) .accepted)).Speaking r ⟨r, v.shared.made⟩
      (v.shared.response.preamble code encoding) := by
  obtain ⟨hentry, htable, hflight, houtputs, hreturned, hputs⟩ := h
  refine ⟨rfl, ?_, fun s' hs' => ?_, .handed hentry htable ?_ ?_ (Or.inl ⟨?_, ?_⟩) houtputs⟩
  · simp [View.atomicStep, Shared.wholeCall, AsyncResponse.stream, hpending]
  · simp [View.atomicStep, Shared.wholeCall, AsyncResponse.stream, hpending, History.count] at hs'
    exact hs'.resolve_left (hreturned s')
  all_goals simp [View.atomicStep, Shared.wholeCall, AsyncResponse.stream, hpending, Shared.wakeup]

end View

namespace Config

/-- Everything the event loop writes on the connection of a request because of
the wake-ups of its stream. -/
def wakeupOutputs (cfg : Config) (s : StreamRef) : List Output :=
  (cfg.world.connections (cfg.conn s.response)).log.filter fun o =>
    o.source.request = some s.response

/-- A call of `send` or `close` comes when it should: the preamble is written and
the end is not, no `close` has been called before a `send`, and no other wake-up
is in flight at a `close`.  A call that `mg_wakeup` refuses, or that leaves no
wake-up in flight, may come at any time. -/
def InTurn (s : StreamRef) (cfg : Config) : AtomicEvent → Prop
  | .put s' op wake =>
      let due := cfg.world.wakeups.count (cfg.conn s.response, s.response) + wake.posts
      s' = s → wake ≠ .refused → 0 < due →
        cfg.streamOutputs s ≠ [] ∧ endOutput s ∉ cfg.streamOutputs s ∧
          (op ≠ .close → Put.close ∉ (cfg.history s.response).puts s.number) ∧
          (op = .close → due ≤ 1)
  | .loop _ | .headers _ _ | .call _ _ _ | .wait _ => True

variable {mg : Mongoose} {cfg cfg₀ cfg₁ cfg₂ : Config} {r : ℕ} {s : StreamRef} {e : AtomicEvent}

theorem mem_streamOutputs_iff {o : Output} (ho : o.source = .stream s) :
    o ∈ cfg.streamOutputs s ↔ o ∈ (cfg.view s.response).outputs := by
  simp [streamOutputs, view, ho, Source.request]

theorem inTurn_view {op : Put} {wake : Wake} (hok : cfg.InTurn s (.put s op wake))
    (hwake : wake ≠ .refused) (hdue : 0 < (cfg.view s.response).inFlight + wake.posts) :
    (cfg.view s.response).InTurn s op wake := by
  obtain ⟨hbegun, hunended, hopen, hlast⟩ := hok rfl hwake hdue
  refine ⟨fun hnil => hbegun ?_, fun hended => hunended ?_, hopen, hlast⟩
  · refine List.filter_eq_nil_iff.mpr fun o ho hsource => ?_
    have hmem := (mem_streamOutputs_iff (of_decide_eq_true hsource)).mp
      (List.mem_filter.mpr ⟨ho, hsource⟩)
    rw [hnil] at hmem
    exact absurd hmem (by simp)
  · exact (mem_streamOutputs_iff rfl).mpr hended

/-- Whatever a producer calls, as long as each call comes in its turn, the
connection carries the preamble, chunks for some of the bodies sent before the
first `close`, and one end, or a first part of this, and nothing else. -/
theorem outputs_wellFormed {code : ℤ} {encoding : Bytes} {wake : Wake} (hinit : cfg₀.Initial)
    (h₁ : Reaches (atomicStep mg) anyEvent cfg₀ cfg₁)
    (hcall : cfg₁.atomicStep mg (.call r (.stream code encoding) wake) = some cfg₂)
    (hreturned : ((cfg₁.world.responses r).stream code encoding
      ⟨r, cfg₁.world.made r⟩ wake).result = some s)
    (h : Reaches (atomicStep mg) (InTurn s) cfg₂ cfg) (hopen : cfg.IsOpen r) :
    WellFormed s ((cfg₁.world.responses r).preamble code encoding)
      ((cfg.history r).puts s.number) (cfg.wakeupOutputs s) := by
  obtain ⟨hpending, rfl, rfl⟩ := AsyncResponse.pending_of_stream hreturned
  have h₂ : Reaches (atomicStep mg) anyEvent cfg₀ cfg₂ := h₁.next trivial hcall
  have hr : r < cfg₂.world.mRequestCounter := by
    obtain ⟨hlt, rfl⟩ := atomicStep_call hcall
    exact hlt
  have hr' : r < cfg.world.mRequestCounter :=
    h.invariant (P := fun cfg => r < cfg.world.mRequestCounter) hr fun _ _ _ hlt _ hstep =>
      Nat.lt_of_lt_of_le hlt (mRequestCounter_le_atomicStep hstep)
  refine (view_invariant (P := fun v => v.Speaking r ⟨r, cfg₁.world.made r⟩
    ((cfg₁.world.responses r).preamble code encoding)) hinit h₂ h ?_ ?_ ?_
      hr' hopen).stage.wellFormed
  · intro _ hopen₂
    obtain ⟨hunasked, hview⟩ := unasked_of_call hinit h₁ hpending hcall hopen₂
    exact hview ▸ View.speaking_of_stream hunasked hpending code encoding
  · exact fun hle => absurd hr (Nat.not_lt.mpr hle)
  · intro cfg e ve howned hok habout henabled hspeaking
    refine hspeaking.atomicStep henabled fun op wake hve hwake hdue => ?_
    obtain ⟨rfl, -⟩ := atomicEvent_of_about (hve ▸ habout)
    exact inTurn_view hok hwake hdue

def oneRequest : List AtomicEvent := [.loop (.accept 0), .loop (.httpMessage 0 ⟨[], []⟩ [])]

def hastyProducer : List AtomicEvent :=
  [.loop (.wakeup 0 0), .put ⟨0, 0⟩ (.send [1]) .accepted, .put ⟨0, 0⟩ (.send [2]) .accepted,
    .loop (.wakeup 0 0), .loop (.wakeup 0 0), .put ⟨0, 0⟩ .close .accepted, .loop (.wakeup 0 0)]

theorem outputs_wellFormed_hasty : ∃ cfg₁ cfg₂ cfg : Config,
    run (atomicStep .plain) (start asyncRoutes) oneRequest = some cfg₁ ∧
      cfg₁.atomicStep .plain (.call 0 (.stream 200 (text "chunked")) .accepted) = some cfg₂ ∧
      run (atomicStep .plain) cfg₂ hastyProducer = some cfg ∧
      cfg.wakeupOutputs ⟨0, 0⟩ = written ⟨0, 0⟩
        ((cfg₁.world.responses 0).preamble 200 (text "chunked")) (plan [[2]]) ∧
      WellFormed ⟨0, 0⟩ ((cfg₁.world.responses 0).preamble 200 (text "chunked"))
        ((cfg.history 0).puts 0) (cfg.wakeupOutputs ⟨0, 0⟩) := by
  have hmeets : Meets (atomicStep .plain) (InTurn ⟨0, 0⟩)
      ((run (atomicStep .plain) (start asyncRoutes)
        (oneRequest ++ [AtomicEvent.call 0 (.stream 200 (text "chunked")) .accepted])).get rfl)
      hastyProducer :=
    ⟨trivial, fun _ _ _ => ⟨nofun, by decide, fun _ => nofun, nofun⟩,
      fun _ _ _ => ⟨nofun, by decide, by decide, nofun⟩, trivial, trivial,
      fun _ _ _ => ⟨nofun, by decide, by decide, by decide⟩, trivial, trivial⟩
  have hfirst : Reaches (atomicStep .plain) anyEvent (start asyncRoutes) _ :=
    reaches_of_run rfl (meets_anyEvent _ oneRequest)
  exact ⟨_, _, _, rfl, rfl, rfl, rfl,
    outputs_wellFormed (initial_start _) hfirst rfl rfl (reaches_of_run rfl hmeets) rfl⟩

/-- A body sent before the preamble is written takes its place; and a second
`close` is answered with an error after the end. -/
theorem preamble_skipped : ∃ cfg₁ cfg₂ cfg cfg' : Config,
    run (atomicStep .plain) (start asyncRoutes) oneRequest = some cfg₁ ∧
      cfg₁.atomicStep .plain (.call 0 (.stream 200 (text "chunked")) .accepted) = some cfg₂ ∧
      (run (atomicStep .plain) cfg₂
          [.put ⟨0, 0⟩ (.send [1]) .accepted, .loop (.wakeup 0 0)] = some cfg ∧
        cfg.IsOpen 0 ∧ cfg.wakeupOutputs ⟨0, 0⟩ = [⟨.stream ⟨0, 0⟩, .chunk [1]⟩] ∧
        ∀ bodies, ¬cfg.wakeupOutputs ⟨0, 0⟩ <+: written ⟨0, 0⟩
          ((cfg₁.world.responses 0).preamble 200 (text "chunked")) (plan bodies)) ∧
      run (atomicStep .plain) cfg₂
          [.loop (.wakeup 0 0), .put ⟨0, 0⟩ .close .accepted, .put ⟨0, 0⟩ .close .accepted,
            .loop (.wakeup 0 0), .loop (.wakeup 0 0)] = some cfg' ∧
        cfg'.IsOpen 0 ∧ cfg'.wakeupOutputs ⟨0, 0⟩ = written ⟨0, 0⟩
          ((cfg₁.world.responses 0).preamble 200 (text "chunked")) [.close] ++
            [⟨.notFound 0, internalServerError⟩, ⟨.notFound 0, internalServerError⟩] := by
  refine ⟨_, _, _, _, rfl, rfl, ⟨rfl, rfl, rfl, fun bodies hpart => ?_⟩, rfl, rfl, rfl⟩
  have hhead := (List.cons_prefix_cons.mp hpart).1
  exact absurd hhead (by simp)

end Config

end Mgxx.Http
