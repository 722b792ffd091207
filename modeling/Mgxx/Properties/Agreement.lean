import Mgxx.Properties.Answers
import Mgxx.Properties.Framing

/-!
Synchronous and asynchronous streams write the same bytes.
-/

namespace Mgxx.Http

open Mgxx.Library

def outputBytes (mg : Mongoose) (outs : List Output) : Bytes :=
  outs.flatMap fun o => o.write.bytes mg

def streamBytes (mg : Mongoose) (preamble : Bytes) (chunks : List Bytes) : Bytes :=
  preamble ++ chunks.flatMap mg.mgHttpWriteChunk ++ mg.mgHttpWriteChunk []

theorem outputBytes_written (mg : Mongoose) (s : StreamRef) (preamble : Bytes)
    (chunks : List Bytes) :
    outputBytes mg (written s preamble (plan chunks)) = streamBytes mg preamble chunks := by
  simp [outputBytes, streamBytes, written, plan, Put.output, Put.data, Write.bytes,
    List.flatMap_map]

/-! ### The pull loop -/

namespace Connection

variable {mg : Mongoose} {conn conn' : Connection} {before : List Output} {chunks : List Bytes}
  {results : ℕ → Option Bytes}

/-- How often `pump_stream` invokes the callback. -/
def pulls (mg : Mongoose) (conn : Connection) : ℕ :=
  match conn.fnData.bind RemoteContext.mStream with
  | none => 0
  | some _ => if mg.ioSize ≤ conn.send.length then 0 else 1

def pullsLeft (n : ℕ) (conn : Connection) : ℕ :=
  match conn.fnData.bind RemoteContext.mStream with
  | none => 0
  | some producer => n + 1 - producer.calls

theorem SparesProducer.pullsLeft_eq (h : conn.SparesProducer conn') (n : ℕ) :
    conn'.pullsLeft n = conn.pullsLeft n := by
  unfold pullsLeft
  rw [h.fnData]

/-- A write event leaves the connection as it is, or asks the callback once and
writes what it gives. -/
theorem pumpStream_cases (mg : Mongoose) (conn : Connection) :
    (conn.pulls mg = 0 ∧ conn.pumpStream mg = conn) ∨
      ∃ producer, conn.fnData = some { mStream := some producer } ∧ conn.pulls mg = 1 ∧
        conn.send.length < mg.ioSize ∧
        conn.pumpStream mg = { conn.write mg .producer (.chunk (producer.get.1.getD [])) with
          fnData := some { mStream := producer.get.1.map fun _ => producer.get.2 } } := by
  cases hbind : conn.fnData.bind RemoteContext.mStream with
  | none => exact Or.inl (by simp [pulls, pumpStream, hbind])
  | some producer =>
      by_cases hfull : mg.ioSize ≤ conn.send.length
      · exact Or.inl (by simp [pulls, pumpStream, hbind, hfull])
      · obtain ⟨context, hfnData, hstream⟩ := Option.bind_eq_some_iff.mp hbind
        obtain rfl : context = { mStream := some producer } := by
          cases context
          exact congrArg RemoteContext.mk hstream
        refine Or.inr ⟨producer, hfnData, ?_, Nat.lt_of_not_le hfull, ?_⟩
        · simp only [pulls, hbind, if_neg hfull]
        · simp only [pumpStream, hbind, if_neg hfull, StreamProducer.get]
          cases producer.results producer.calls with
          | none => rfl
          | some chunk => simp [setStream, hfnData]

/-- Every invocation is one of those that were left. -/
theorem Pumped.pullsLeft_pump (h : conn.Pumped before chunks results) (mg : Mongoose)
    (hresults : ∀ i ≤ chunks.length, results i = chunks[i]?) :
    conn.pullsLeft chunks.length =
      conn.pulls mg + (conn.pumpStream mg).pullsLeft chunks.length := by
  rcases pumpStream_cases mg conn with ⟨hnone, hsame⟩ | ⟨producer, hasked, hone, -, hpump⟩
  · rw [hnone, hsame, Nat.zero_add]
  · cases h with
    | ended hfnData => exact absurd (hfnData.symm.trans hasked) (by simp)
    | running k hk hfnData =>
        obtain rfl : { results := results, calls := k } = producer := by
          simpa using hfnData.symm.trans hasked
        rw [hone, hpump]
        simp only [pullsLeft, hfnData, Option.bind_some, StreamProducer.get, hresults k hk]
        cases hchunk : chunks[k]? with
        | none =>
            have hlength : chunks.length ≤ k := List.getElem?_eq_none_iff.mp hchunk
            simp only [Option.map_none]
            omega
        | some chunk =>
            simp only [Option.map_some]
            omega

end Connection

namespace Config

variable {mg : Mongoose} {cfg cfg' : Config} {c : ℕ} {before : List Output} {chunks : List Bytes}
  {results : ℕ → Option Bytes}

/-- How often an event makes connection `c` invoke its callback. -/
def pulls (mg : Mongoose) (c : ℕ) (cfg : Config) : Event → ℕ
  | .loop (.write d) => if d = c then (cfg.world.connections c).pulls mg else 0
  | .loop _ | .headers _ _ | .begin _ _ _ | .wait _ _ | .put _ _ _ | .advance _ _ => 0

def invocations (mg : Mongoose) (c : ℕ) : Config → List Event → ℕ
  | _, [] => 0
  | cfg, e :: es => cfg.pulls mg c e +
      match cfg.step mg e with
      | none => 0
      | some cfg' => invocations mg c cfg' es

def Pumping (c : ℕ) (before : List Output) (chunks : List Bytes) (results : ℕ → Option Bytes)
    (cfg : Config) : Prop :=
  (cfg.world.connections c).status ≠ .unused ∧
    ((cfg.world.connections c).status = .live →
      (cfg.world.connections c).Pumped before chunks results)

/-- A step that leaves the connection open pays for its invocation. -/
theorem pullsLeft_step {e : Event} (hresults : ∀ i ≤ chunks.length, results i = chunks[i]?)
    (h : cfg.Pumping c before chunks results) (hok : cfg.KeepsProducer c e)
    (hstep : cfg.step mg e = some cfg') (hlive' : (cfg'.world.connections c).status = .live) :
    (cfg.world.connections c).status = .live ∧
      (cfg.world.connections c).pullsLeft chunks.length =
        cfg.pulls mg c e + (cfg'.world.connections c).pullsLeft chunks.length := by
  have hspared (hpulls : cfg.pulls mg c e = 0)
      (h : (cfg.world.connections c).SparesProducer (cfg'.world.connections c)) :
      (cfg.world.connections c).pullsLeft chunks.length =
        cfg.pulls mg c e + (cfg'.world.connections c).pullsLeft chunks.length := by
    rw [hpulls, h.pullsLeft_eq, Nat.zero_add]
  rcases step_cases hstep with ⟨e, rfl, hraises, rfl⟩ | ⟨hnot, hconnections, -⟩
  · rcases World.status_handle hlive' with hlive | rfl
    · refine ⟨hlive, ?_⟩
      by_cases hwrite : e = .write c
      · subst hwrite
        simp only [World.connections_handle_write, modifyAt_self, pulls, if_pos]
        exact (h.2 hlive).pullsLeft_pump mg hresults
      · apply hspared
        · cases e with
          | write d => exact if_neg fun hd : d = c => hwrite (by rw [hd])
          | accept d | poll d | httpMessage d msg calls | wakeup d id | close d
          | mongoose d send => rfl
        · apply World.sparesProducer_handle hraises hlive hok hwrite
          rintro rfl
          rw [World.handle, World.status_forget, if_pos rfl] at hlive'
          exact absurd hlive' (by simp)
    · exact absurd hraises h.1
  · rw [hconnections] at hlive' ⊢
    refine ⟨hlive', ?_⟩
    cases e with
    | loop e => exact absurd rfl (hnot e)
    | headers | begin | wait | put | advance => exact (Nat.zero_add _).symm

/-- The invocations of a run are those that are left at its start and not at its end. -/
theorem pullsLeft_run {es : List Event} (hresults : ∀ i ≤ chunks.length, results i = chunks[i]?)
    (h : cfg.Pumping c before chunks results) (hmeets : Meets (step mg) (KeepsProducer c) cfg es)
    (hrun : run (step mg) cfg es = some cfg') (hlive' : (cfg'.world.connections c).status = .live) :
    (cfg.world.connections c).status = .live ∧
      (cfg.world.connections c).pullsLeft chunks.length =
        cfg.invocations mg c es + (cfg'.world.connections c).pullsLeft chunks.length := by
  induction es generalizing cfg with
  | nil =>
      obtain rfl := Option.some.inj hrun
      exact ⟨hlive', (Nat.zero_add _).symm⟩
  | cons e es ih =>
      obtain ⟨cfg₁, hstep, hrest⟩ := Option.bind_eq_some_iff.mp hrun
      obtain ⟨hok, hmeets⟩ := hmeets
      rw [hstep] at hmeets
      obtain ⟨hlive₁, hafter⟩ := ih (pumped_step hresults h hok hstep) hmeets hrest
      obtain ⟨hlive, hpaid⟩ := pullsLeft_step hresults h hok hstep hlive₁
      refine ⟨hlive, ?_⟩
      simp only [invocations, hstep]
      omega

end Config

/-! ### The call of `stream` -/

namespace Progress

/-- Where a call of `stream` stands once it has made its stream object, with the
number of wake-ups in flight and the state of the response. -/
inductive OpeningAt (r : ℕ) : Pc → ℕ → AsyncResponse.State → Prop
  | opened : OpeningAt r (.streamOpened r) 0 .pending
  | refused : OpeningAt r (.streamDecided r false) 0 .pending
  | posted : OpeningAt r (.streamDecided r true) 1 .pending
  | stored : OpeningAt r (.streamStored r) 1 .streaming

structure Fresh (p : Progress) (r : ℕ) (s : StreamRef) (preamble : Bytes) : Prop where
  response : s.response = r
  mStream : p.mStream = some s
  state : (p.stream s.number).mState = .start
  data : (p.stream s.number).mData = preamble

/-- From the making of a stream object on, where no wake-up is delivered before
`stream` has returned. -/
inductive Opening (r : ℕ) (s : StreamRef) (preamble : Bytes) (p : Progress) : Prop
  | calling (t : ℕ) (pc : Pc) (n : ℕ) (hwaiting : p.Waiting 1 n) (hthreads : p.Only t pc)
      (hpc : OpeningAt r pc n p.mState) (hfresh : p.Fresh r s preamble)
  | streaming (hstreaming : Streaming .any 1 r s preamble p)
  /-- The wake-up was not posted. -/
  | failed (hstate : p.mState = .failed) (htable : p.table = none) (hflight : p.inFlight = 0)
      (hthreads : p.Quiet) (hhandles : p.handles = [])
      (hstart : (p.stream s.number).mState = .start)

namespace Opening

open View

variable {r t : ℕ} {s : StreamRef} {preamble : Bytes} {v v' : View}

/-- The next access of the call of `stream`. -/
theorem advance_calling {pc : Pc} {n : ℕ} (hwaiting : v.progress.Waiting 1 n)
    (hthreads : v.progress.Only t pc) (hpc : OpeningAt r pc n v.progress.mState)
    (hfresh : v.progress.Fresh r s preamble) (answer : Bool) :
    Opening r s preamble (v.commit t (v.shared.advance answer pc)).progress := by
  obtain ⟨hresponse, hmStream, hstart, hdata⟩ := hfresh
  generalize hstate : v.progress.mState = state at hpc
  cases hpc with
  | opened =>
      cases answer with
      | false =>
          exact .calling t _ 0 (hwaiting.congr rfl rfl rfl rfl rfl rfl rfl rfl)
            (only_commit hthreads _) (hstate ▸ .refused) ⟨hresponse, hmStream, hstart, hdata⟩
      | true =>
          obtain ⟨hpending, htable, hflight, houtputs, hhandles, hputs, hpasses, hposts⟩ := hwaiting
          have hflight : v.inFlight = 0 := hflight
          refine .calling t _ 1 ⟨hpending, htable, ?_, houtputs, hhandles, hputs, hpasses,
            Nat.succ_le_succ hposts⟩ (only_commit hthreads _) (hstate ▸ .posted)
            ⟨hresponse, hmStream, hstart, hdata⟩
          show v.inFlight + 1 = 1
          omega
  | refused =>
      refine .failed rfl hwaiting.table hwaiting.inFlight (quiet_commit hthreads rfl) ?_ hstart
      have hhandles : v.shared.history.returned.reduceOption = [] := hwaiting.handles
      simp [Shared.advance, Shared.updateResponse, Shared.returns, List.reduceOption_append,
        hhandles]
  | posted =>
      exact .calling t _ 1 (hwaiting.congr rfl rfl rfl rfl rfl rfl rfl rfl)
        (only_commit hthreads _) .stored ⟨hresponse, hmStream, hstart, hdata⟩
  | stored =>
      have hheld : v.shared.response.mStream = some s := hmStream
      have hhandles : v.shared.history.returned.reduceOption = [] := hwaiting.handles
      have hhandles' : (v.commit t (v.shared.advance answer (.streamStored r))).progress.handles =
          [s] := by
        simp [Shared.advance, Shared.returns, List.reduceOption_append, hhandles, hheld]
      refine .streaming (.handed ⟨hresponse, hstate, ?_, hwaiting.passes,
        Nat.le_of_succ_le_succ hwaiting.posts⟩ hwaiting.pending hwaiting.table hwaiting.inFlight
        (quiet_commit hthreads rfl) hmStream hstart hdata ?_ (hwaiting.puts _) hwaiting.outputs)
      · rw [hhandles']
        simp
      · rw [hhandles']
        simp

theorem step_calling {pc : Pc} {n : ℕ} (hwaiting : v.progress.Waiting 1 n)
    (hthreads : v.progress.Only t pc) (hpc : OpeningAt r pc n v.progress.mState)
    (hfresh : v.progress.Fresh r s preamble) {e : View.Event} (hok : v.Conforming r e)
    (hpermitted : v.Permitted ⟨True, False, False⟩ r e) (hstep : v.step r e = some v') :
    Opening r s preamble v'.progress := by
  have hsame : Opening r s preamble v.progress := .calling t pc n hwaiting hthreads hpc hfresh
  have hpc' : v.threads t = pc := threads_of_only hthreads
  cases e with
  | deliver =>
      have hpositive := (View.step_deliver hstep).1
      have hflight : v.inFlight = n := hwaiting.inFlight
      obtain ⟨hearly, hlate⟩ := hpermitted
      generalize v.progress.mState = state at hpc
      cases hpc with
      | opened | refused => omega
      | posted => exact (hearly t hpc').elim
      | stored => exact (hlate t hpc').elim
  | poll =>
      rw [View.step, poll_of_ne] at hstep
      · exact Option.some.inj hstep ▸ hsame
      · intro hfailed
        have hfailed : v.progress.mState = .failed := hfailed
        rw [hfailed] at hpc
        cases hpc
  | release blocked =>
      rw [View.step, release_of_none hwaiting.table] at hstep
      exact Option.some.inj hstep ▸ hsame
  | headers headers => exact Option.some.inj hstep ▸ hsame
  | begin t' call =>
      obtain ⟨hidle, rfl⟩ := View.step_begin hstep
      have hnot := hok t
      rw [hpc'] at hnot
      generalize hstate : v.progress.mState = state at hpc
      cases hpc with
      | opened | refused | posted => exact absurd rfl hnot
      | stored =>
          have hstate : v.shared.response.mState = .streaming := hstate
          rw [progress_begin_of_ne (by simp [hstate]) hidle]
          exact hsame
  | wait t' s' =>
      have hmem := mem_handles_of_wait hstep
      rw [hwaiting.handles] at hmem
      exact absurd hmem (by simp)
  | put t' s' op =>
      have hgranted : v.threads t' = .granted s' := hok
      rw [pc_of_granted hgranted hthreads] at hpc
      cases hpc
  | advance t' answer =>
      obtain rfl := Option.some.inj hstep
      by_cases ht : t' = t
      · subst ht
        rw [hpc']
        exact advance_calling hwaiting hthreads hpc hfresh answer
      · rw [advance_of_idle (threads_of_only_ne hthreads ht)]
        exact hsame

/-- A stream whose wake-up was not posted is never served. -/
theorem step_failed (hstate : v.progress.mState = .failed) (htable : v.progress.table = none)
    (hflight : v.progress.inFlight = 0) (hthreads : v.progress.Quiet)
    (hhandles : v.progress.handles = [])
    (hstart : (v.progress.stream s.number).mState = .start) {e : View.Event}
    (hok : v.Conforming r e) (hstep : v.step r e = some v') :
    Opening r s preamble v'.progress := by
  have hsame : Opening r s preamble v.progress :=
    .failed hstate htable hflight hthreads hhandles hstart
  cases e with
  | deliver =>
      exact absurd hflight (Nat.ne_of_gt (View.step_deliver hstep).1)
  | poll =>
      obtain rfl := Option.some.inj hstep
      unfold View.poll
      split_ifs
      · exact .failed hstate htable hflight hthreads hhandles hstart
      · exact hsame
  | release blocked =>
      rw [View.step, release_of_none htable] at hstep
      exact Option.some.inj hstep ▸ hsame
  | headers headers => exact Option.some.inj hstep ▸ hsame
  | begin t call =>
      obtain ⟨hidle, rfl⟩ := View.step_begin hstep
      have hstate : v.shared.response.mState = .failed := hstate
      rw [progress_begin_of_ne (by simp [hstate]) hidle]
      exact hsame
  | wait t s' =>
      have hmem := mem_handles_of_wait hstep
      rw [hhandles] at hmem
      exact absurd hmem (by simp)
  | put t s' op =>
      have hgranted : v.threads t = .granted s' := hok
      exact absurd hthreads (not_quiet_of_granted hgranted)
  | advance t answer =>
      obtain rfl := Option.some.inj hstep
      rw [advance_of_idle (threads_of_quiet hthreads t)]
      exact hsame

theorem step (h : Opening r s preamble v.progress) {e : View.Event} (hok : v.Conforming r e)
    (hpermitted : v.Permitted ⟨True, False, False⟩ r e) (hstep : v.step r e = some v') :
    Opening r s preamble v'.progress := by
  cases h with
  | calling t pc n hwaiting hthreads hpc hfresh =>
      exact step_calling hwaiting hthreads hpc hfresh hok hpermitted hstep
  | streaming hstreaming => exact .streaming (hstreaming.step hok hstep)
  | failed hstate htable hflight hthreads hhandles hstart =>
      exact step_failed hstate htable hflight hthreads hhandles hstart hok hstep

end Opening

end Progress

namespace Config

variable {mg : Mongoose} {cfg cfg₀ cfg₁ cfg₂ cfg₃ cfg₄ : Config} {c r t : ℕ} {code : ℤ}
  {encoding : Bytes} {chunks : List Bytes}

/-- No wake-up of `r` is delivered before `stream` has returned. -/
def AfterReturn (r : ℕ) (cfg : Config) (e : Event) : Prop :=
  cfg.Conforming r e ∧ cfg.Timely r e ∧ cfg.Punctual r e

/-- The stream object that the next access of thread `t` makes. -/
theorem opening_of_streamChecked (hinit : cfg₀.Initial)
    (h₁ : Reaches (step mg) (Conforming r) cfg₀ cfg₁)
    (hpc : cfg₁.threads t = .streamChecked r code encoding)
    (hstep : cfg₁.step mg (.advance t true) = some cfg₂) (hopen : cfg₂.IsOpen r) :
    Progress.Opening r ⟨r, cfg₁.world.made r⟩ ((cfg₁.world.responses r).preamble code encoding)
      (cfg₂.view r).progress := by
  have howned := Owned.of_reaches hinit h₁
  have hreq : (cfg₁.threads t).request = some r := by rw [hpc]; rfl
  have hr := howned.thread t r hreq
  have hview := view_step mg howned hr hstep hopen
  have habout : (Event.advance t true).about mg cfg₁ r = some (.advance t true) := if_pos hreq
  have hpc' : (cfg₁.view r).threads t = .streamChecked r code encoding :=
    (threads_view_of_request hreq).trans hpc
  rw [habout] at hview
  have hunposted : ((cfg₁.view r).progress.threads t).unposted = some r := by
    rw [View.progress_threads, hpc']
    rfl
  obtain ⟨hwaiting, honly, hstate⟩ :=
    (stage_of_conforming hinit h₁ hr (isOpen_of_step howned hr hstep hopen)).waiting_of_unposted
      hunposted
  have hstate : (cfg₁.view r).shared.response.mState = .pending := hstate
  simp only [View.step, hpc', Option.some.injEq] at hview
  rw [← hview]
  refine .calling t _ 0 (hwaiting.congr rfl rfl rfl rfl rfl rfl rfl rfl)
    (View.only_commit honly _) ?_ ⟨rfl, rfl, ?_, ?_⟩
  · show Progress.OpeningAt r (.streamOpened r) 0 (cfg₁.view r).shared.response.mState
    rw [hstate]
    exact .opened
  · simp [Shared.advance, Shared.openStream, view, shared]
  · simp [Shared.advance, Shared.openStream, view, shared]

theorem opening_of_reaches (hinit : cfg₀.Initial)
    (h₁ : Reaches (step mg) (Conforming r) cfg₀ cfg₁)
    (hpc : cfg₁.threads t = .streamChecked r code encoding)
    (hstep : cfg₁.step mg (.advance t true) = some cfg₂)
    (h : Reaches (step mg) (AfterReturn r) cfg₂ cfg) (hopen : cfg.IsOpen r) :
    Progress.Opening r ⟨r, cfg₁.world.made r⟩ ((cfg₁.world.responses r).preamble code encoding)
      (cfg.view r).progress := by
  have howned₁ := Owned.of_reaches hinit h₁
  have hr₁ := howned₁.thread t r (by rw [hpc]; rfl)
  have hr₂ := Nat.lt_of_lt_of_le hr₁ (mRequestCounter_le_step hstep)
  have h₂ : Reaches (step mg) anyEvent cfg₀ cfg₂ :=
    (h₁.mono fun _ _ _ => trivial).next trivial hstep
  refine view_of_reaches (P := fun v => Progress.Opening r ⟨r, cfg₁.world.made r⟩
      ((cfg₁.world.responses r).preamble code encoding) v.progress) hinit h₂ h ?_ ?_ ?_
    (Nat.lt_of_lt_of_le hr₂ (mRequestCounter_le_of_reaches h)) hopen
  · exact fun _ => opening_of_streamChecked hinit h₁ hpc hstep
  · exact fun hle => absurd hr₂ (Nat.not_lt.mpr hle)
  · rintro cfg e ve v' ⟨hok, hearly, hlate⟩ habout hopening hstep'
    exact hopening.step (conforming_view hok habout)
      (permitted_view ⟨fun hsend => absurd trivial hsend, fun _ => hearly, fun _ => hlate⟩ habout)
      hstep'

/-- What an asynchronous stream that is completed has written. -/
theorem bytes_of_completed (hinit : cfg₀.Initial)
    (h₁ : Reaches (step mg) (Conforming r) cfg₀ cfg₁)
    (hpc : cfg₁.threads t = .streamChecked r code encoding)
    (hstep : cfg₁.step mg (.advance t true) = some cfg₂)
    (h : Reaches (step mg) (AfterReturn r) cfg₂ cfg) (hopen : cfg.IsOpen r)
    (hplan : (cfg.history r).puts (cfg₁.world.made r) = plan chunks)
    (hcompleted : (cfg.world.streams ⟨r, cfg₁.world.made r⟩).mState = .completed) :
    outputBytes mg (cfg.streamOutputs ⟨r, cfg₁.world.made r⟩) =
      streamBytes mg ((cfg₁.world.responses r).preamble code encoding) chunks := by
  have hcompleted' : ((cfg.view r).progress.stream (cfg₁.world.made r)).mState = .completed :=
    hcompleted
  cases opening_of_reaches hinit h₁ hpc hstep h hopen with
  | calling t' pc n _ _ _ hfresh =>
      exact absurd (hfresh.state.symm.trans hcompleted') (by simp)
  | failed _ _ _ _ _ hstart => exact absurd (hstart.symm.trans hcompleted') (by simp)
  | streaming hstreaming =>
      have hputs : (cfg.view r).progress.puts (cfg₁.world.made r) <+: plan chunks := by
        exact hplan ▸ List.prefix_rfl
      rw [streamOutputs_eq hstreaming, (hstreaming.outputs_of_plan hputs).2.mpr hcompleted',
        outputBytes_written]

/-- A synchronous stream of these chunks on connection `c`, from the call of
`response::stream` with header map `headers` to the end of the producer.  `conns`
are the connections before the call, `cfg` is the program after it. -/
structure Pulled (mg : Mongoose) (headers : Headers) (code : ℤ) (encoding : Bytes)
    (chunks : List Bytes) (c : ℕ) (conns : ℕ → Connection) (cfg : Config) (es : List Event)
    (cfg' : Config) : Prop where
  live : (conns c).status = .live
  context : (conns c).fnData ≠ none
  call : ∃ results, (∀ i ≤ chunks.length, results i = chunks[i]?) ∧ cfg.world.connections =
    (Response.stream mg conns { mConn := some c, mHeaders := headers } code encoding results).1
  keeps : Meets (step mg) (KeepsProducer c) cfg es
  run : run (step mg) cfg es = some cfg'
  live' : (cfg'.world.connections c).status = .live
  ended : (cfg'.world.connections c).fnData = some { mStream := none }

/-- An asynchronous stream of these chunks, from the access with which
`async_response::stream` makes it to its completion. -/
structure Pushed (mg : Mongoose) (headers : Headers) (code : ℤ) (encoding : Bytes)
    (chunks : List Bytes) (s : StreamRef) (cfg₀ cfg : Config) : Prop where
  initial : cfg₀.Initial
  opening : ∃ cfg₁ cfg₂ t, Reaches (step mg) (Conforming s.response) cfg₀ cfg₁ ∧
    cfg₁.threads t = .streamChecked s.response code encoding ∧
    (cfg₁.world.responses s.response).mHeaders = headers ∧
    cfg₁.world.made s.response = s.number ∧
    cfg₁.step mg (.advance t true) = some cfg₂ ∧
    Reaches (step mg) (AfterReturn s.response) cfg₂ cfg
  isOpen : cfg.IsOpen s.response
  puts : (cfg.history s.response).puts s.number = plan chunks
  completed : (cfg.world.streams s).mState = .completed

/-- What the call of `response::stream` wrote, and what the producer has written since. -/
def pulledOutputs (before after later : Connection) : List Output :=
  after.log.drop before.log.length ++ later.producerOutputs.drop after.producerOutputs.length

variable {headers : Headers} {conns : ℕ → Connection} {es : List Event} {s : StreamRef}

/-- The bytes of a synchronous stream that has run to its end, and the calls of
its callback. -/
theorem Pulled.bytes (h : Pulled mg headers code encoding chunks c conns cfg₃ es cfg₄) :
    outputBytes mg (pulledOutputs (conns c) (cfg₃.world.connections c)
        (cfg₄.world.connections c)) =
      streamBytes mg (formatPreamble code ((headers.remove (text "Content-Length")).set
        (text "Transfer-Encoding") encoding).format) chunks ∧
      cfg₃.invocations mg c es = chunks.length + 1 := by
  obtain ⟨hlive, hcontext, ⟨results, hresults, hcall⟩, hkeeps, hrun, hlive', hended⟩ := h
  obtain ⟨context, hcontext⟩ := Option.ne_none_iff_exists'.mp hcontext
  have hconn : cfg₃.world.connections c = ((conns c).write mg .handler (.send (formatPreamble code
      ((headers.remove (text "Content-Length")).set
        (text "Transfer-Encoding") encoding).format))).setStream { results := results } := by
    rw [hcall]
    simp only [Response.stream, modifyAt_self]
  have hlive₃ : (cfg₃.world.connections c).status = .live := by rw [hconn]; exact hlive
  have hfnData₃ : (cfg₃.world.connections c).fnData =
      some { mStream := some { results := results } } := by
    rw [hconn]
    simp [Connection.setStream, hcontext]
  constructor
  · rw [pulledOutputs, producerOutputs_of_ended hlive₃ hfnData₃ hresults
      (reaches_of_run hrun hkeeps) hlive' hended, List.drop_left]
    have hlog : (cfg₃.world.connections c).log.drop (conns c).log.length =
        [⟨.handler, .send (formatPreamble code ((headers.remove (text "Content-Length")).set
          (text "Transfer-Encoding") encoding).format)⟩] := by
      rw [hconn, Connection.log_setStream, Connection.log_write, List.drop_left]
    rw [hlog]
    simp [outputBytes, streamBytes, Write.bytes, List.flatMap_map]
  · have hpumping : cfg₃.Pumping c (cfg₃.world.connections c).producerOutputs chunks results :=
      ⟨by simp [hlive₃], fun _ => .running 0 (Nat.zero_le _) hfnData₃ (List.append_nil _).symm⟩
    obtain ⟨-, hpaid⟩ := pullsLeft_run hresults hpumping hkeeps hrun hlive'
    have hfirst : (cfg₃.world.connections c).pullsLeft chunks.length = chunks.length + 1 := by
      simp [Connection.pullsLeft, hfnData₃]
    have hlast : (cfg₄.world.connections c).pullsLeft chunks.length = 0 := by
      simp [Connection.pullsLeft, hended]
    omega

theorem Pushed.bytes (h : Pushed mg headers code encoding chunks s cfg₀ cfg) :
    outputBytes mg (cfg.streamOutputs s) =
      streamBytes mg (formatPreamble code ((headers.remove (text "Content-Length")).set
        (text "Transfer-Encoding") encoding).format) chunks := by
  obtain ⟨hinit, ⟨cfg₁, cfg₂, t, h₁, hpc, rfl, hmade, hstep, h⟩, hopen, hputs, hcompleted⟩ := h
  obtain ⟨r, n⟩ := s
  obtain rfl : cfg₁.world.made r = n := hmade
  exact bytes_of_completed hinit h₁ hpc hstep h hopen hputs hcompleted

/-- A synchronous and an asynchronous stream with the same status code, headers,
encoding and chunks write the same bytes, whatever the order of events; the
callback of the synchronous one is invoked once for each chunk and once more. -/
theorem streams_agree
    (hpulled : Pulled mg headers code encoding chunks c conns cfg₃ es cfg₄)
    (hpushed : Pushed mg headers code encoding chunks s cfg₀ cfg) :
    outputBytes mg (pulledOutputs (conns c) (cfg₃.world.connections c)
        (cfg₄.world.connections c)) = outputBytes mg (cfg.streamOutputs s) ∧
      cfg₃.invocations mg c es = chunks.length + 1 :=
  ⟨hpulled.bytes.1.trans hpushed.bytes.symm, hpulled.bytes.2⟩

def enteringStream : List Event :=
  firstRequest ++ [.begin 0 0 (.stream 200 (text "chunked"))]

theorem pulled_one : ∃ cfg₃ cfg₄,
    Pulled .plain Headers.empty 200 (text "chunked") [[1]] 0 (fun c =>
      ((run (step .plain) (start syncRoutes) [.loop (.accept 0)]).get rfl).world.connections c)
      cfg₃ (flushing ++ flushing) cfg₄ := by
  refine ⟨(run (step .plain) (start syncRoutes) (pulling [[1]])).get rfl, _, rfl, by decide,
    ⟨fun i => [[(1 : UInt8)]][i]?, fun _ _ => rfl, rfl⟩, ?_, rfl, rfl, rfl⟩
  exact ⟨trivial, trivial, trivial, trivial, trivial⟩

theorem pushed_one : ∃ cfg,
    Pushed .plain Headers.empty 200 (text "chunked") [[1]] ⟨0, 0⟩ (start asyncRoutes) cfg := by
  have hentering : Meets (step .plain) (Conforming 0) (start asyncRoutes) enteringStream :=
    ⟨trivial, trivial, fun _ t => by cases t <;> nofun, trivial⟩
  have hmeets : Meets (step .plain) (AfterReturn 0)
      ((run (step .plain) (start asyncRoutes) (enteringStream ++ [.advance 0 true])).get rfl)
      ([.advance 0 true, .advance 0 true, .advance 0 true, .loop (.wakeup 0 0)] ++
        sending (.send [1]) ++ sending .close) := by
    refine ⟨⟨trivial, nofun, nofun⟩, ⟨trivial, nofun, nofun⟩, ⟨trivial, nofun, nofun⟩,
      ⟨trivial, fun _ _ t => ?_, fun _ _ t => ?_⟩, ⟨trivial, nofun, nofun⟩,
      ⟨trivial, nofun, nofun⟩, ⟨fun _ t => ?_, nofun, nofun⟩, ⟨fun _ => rfl, nofun, nofun⟩,
      ⟨trivial, nofun, nofun⟩, ⟨trivial, nofun, nofun⟩, ⟨trivial, nofun, nofun⟩,
      ⟨trivial, fun _ _ t => ?_, fun _ _ t => ?_⟩, ⟨trivial, nofun, nofun⟩,
      ⟨trivial, nofun, nofun⟩, ⟨fun _ t => ?_, nofun, nofun⟩, ⟨fun _ => rfl, nofun, nofun⟩,
      ⟨trivial, nofun, nofun⟩, ⟨trivial, nofun, nofun⟩, ⟨trivial, nofun, nofun⟩,
      ⟨trivial, fun _ _ t => ?_, fun _ _ t => ?_⟩, trivial⟩ <;> cases t <;> nofun
  have hentered := reaches_of_run rfl hentering
  have hrun := reaches_of_run rfl hmeets
  exact ⟨_, initial_start _, ⟨_, _, 0, hentered, rfl, rfl, rfl, rfl, hrun⟩, rfl, rfl, rfl⟩

theorem streams_agree_one : ∃ (conns : ℕ → Connection) (cfg₃ cfg₄ cfg : Config) (es : List Event),
    outputBytes .plain (pulledOutputs (conns 0) (cfg₃.world.connections 0)
        (cfg₄.world.connections 0)) = outputBytes .plain (cfg.streamOutputs ⟨0, 0⟩) ∧
      cfg₃.invocations .plain 0 es = 2 := by
  obtain ⟨cfg₃, cfg₄, hpulled⟩ := pulled_one
  obtain ⟨cfg, hpushed⟩ := pushed_one
  exact ⟨_, cfg₃, cfg₄, cfg, _, streams_agree hpulled hpushed⟩

end Config

end Mgxx.Http
