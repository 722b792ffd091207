import Mgxx.Concurrency.Use

/-!
A stream on its way from the response that made it to the table.
-/

namespace Mgxx.Http

open Mgxx.Library

namespace Progress.Stage

variable {a : Allowed} {limit r : ℕ} {p : Progress}

/-- The first delivery to a response that is used for streaming only finds it
streaming, unless the call has not got that far. -/
theorem first_delivery (h : Stage a limit r p) (hsend : ¬a.send) (hflight : 0 < p.inFlight)
    (hfirst : p.deliveries = 0) (htimely : ∀ t, p.threads t ≠ .streamDecided r true) :
    p.pending = true ∧ p.table = none ∧ p.mState = .streaming ∧
      ∃ s, p.mStream = some s ∧ (p.stream s.number).mState = .start ∧
        IsPreamble (p.stream s.number).mData := by
  have hzero {α : Prop} (hnone : p.inFlight = 0) : α := absurd hnone (Nat.ne_of_gt hflight)
  have hlater {α : Prop} {s : StreamRef} (hserved : Served a p s) : α :=
    absurd hfirst (Nat.ne_of_gt hserved.deliveries)
  cases h with
  | untouched hw => exact hzero hw.inFlight
  | calling _ _ hw => exact hzero hw.inFlight
  | failed hw => exact hzero hw.inFlight
  | answered hanswered => exact hzero hanswered.inFlight
  | sending hsends => exact absurd hsends hsend
  | posted t pc hw hthreads hpc =>
      cases hpc with
      | send hsends => exact absurd hsends hsend
      | stream s hheld =>
          have hnot := htimely t
          rw [hthreads, Function.update_self] at hnot
          exact absurd rfl hnot
  | stored t s hw hthreads hheld hstate =>
      exact ⟨hw.pending, hw.table, hstate, s, hheld.mStream, hheld.state, hheld.data⟩
  | streaming s preamble hpreamble hstreaming =>
      cases hstreaming with
      | handed howes hpending htable hone hthreads hheld hstate hdata =>
          exact ⟨hpending, htable, howes.mState, s, hheld, hstate, hdata ▸ hpreamble⟩
      | completed _ _ _ _ hnone => exact hzero hnone
      | resting _ hserved => exact hlater hserved
      | unreturned _ _ _ hserved => exact hlater hserved
      | granted _ _ hserved => exact hlater hserved
      | outstanding _ _ _ hserved => exact hlater hserved

/-- Until `stream` returns, the response keeps the pointer it will return,
unless a delivery comes too early. -/
theorem held_of_stored (h : Stage a limit r p) (hlate : ¬a.late) {t : ℕ}
    (ht : p.threads t = .streamStored r) : ∃ s, p.mStream = some s := by
  have hquiet {α : Prop} (hthreads : p.Quiet) : α := by
    rw [hthreads] at ht
    exact absurd ht (by simp)
  have honly {α : Prop} {t' : ℕ} {pc : Pc} (hthreads : p.Only t' pc)
      (hne : pc ≠ .streamStored r) : α := by
    rw [hthreads, Function.update_apply] at ht
    split_ifs at ht
    exact absurd ht hne
  cases h with
  | untouched _ hthreads => exact hquiet hthreads
  | calling _ _ _ hthreads hpc => exact honly hthreads (by cases hpc <;> simp)
  | posted _ _ _ hthreads hpc => exact honly hthreads (by cases hpc <;> simp)
  | sending _ _ hthreads => exact hquiet hthreads
  | stored _ s _ _ hheld => exact ⟨s, hheld.mStream⟩
  | failed _ hthreads => exact hquiet hthreads
  | answered hanswered hrest =>
      cases hrest with
      | quiet hthreads => exact hquiet hthreads
      | send _ _ hthreads => exact honly hthreads (by simp)
      | decided _ _ _ hthreads => exact honly hthreads (by simp)
      | stored _ s _ _ _ hheld => exact ⟨s, hheld.mStream⟩
  | streaming s preamble hpreamble hstreaming =>
      cases hstreaming with
      | handed _ _ _ _ hthreads => exact hquiet hthreads
      | completed _ _ _ _ _ hthreads => exact hquiet hthreads
      | resting _ _ _ hthreads => exact hquiet hthreads
      | unreturned _ hlates => exact absurd hlates hlate
      | granted _ _ _ _ hthreads => exact honly hthreads (by simp)
      | outstanding _ _ _ _ hop =>
          cases hop with
          | written _ hthreads => exact honly hthreads (by simp)
          | stored _ _ hthreads hpc =>
              exact honly hthreads (by rcases hpc with rfl | rfl | rfl <;> simp)
          | posted hthreads => exact hquiet hthreads
          | lost hthreads => exact hquiet hthreads

/-- The stream in the table is the one the caller has. -/
theorem returned_of_table (h : Stage a limit r p) (hlate : ¬a.late) {s : StreamRef}
    (hs : p.table = some s) : s ∈ p.handles ∧ ∀ s' ∈ p.handles, s' = s := by
  have hnone {α : Prop} (htable : p.table = none) : α := by
    rw [htable] at hs
    exact absurd hs (by simp)
  rcases h.waiting_or_answered_or_streaming with ⟨n, -, hwaiting⟩ | ⟨hanswered, -⟩ |
    ⟨s', preamble, -, hstreaming⟩
  · exact hnone hwaiting.table
  · exact hnone hanswered.table
  · rcases hstreaming.handed_or_served_or_completed with ⟨-, htable, -⟩ | ⟨hserved, -⟩ |
      ⟨-, htable, -⟩
    · exact hnone htable
    · obtain rfl : s' = s := Option.some.inj (hserved.table.symm.trans hs)
      exact ⟨hserved.returned.resolve_left hlate, hstreaming.owes.handles⟩
    · exact hnone htable

end Progress.Stage

namespace Config

variable {mg : Mongoose} {cfg cfg' cfg₀ : Config} {r : ℕ}

/-- The use of a response for one stream, by one thread, whose wake-up is not
delivered before `streaming` is stored. -/
def TimelyStream (r : ℕ) (cfg : Config) (e : Event) : Prop :=
  cfg.Conforming r e ∧ StreamsOnly r e ∧ cfg.Timely r e

theorem stage_of_timely (hinit : cfg₀.Initial) (h : Reaches (step mg) (TimelyStream r) cfg₀ cfg)
    (hr : r < cfg.world.mRequestCounter) (hopen : cfg.IsOpen r) :
    Progress.Stage ⟨False, False, True⟩ 1 r (cfg.view r).progress :=
  stage_of_reaches hinit h (fun _ _ hok => ⟨hok.1, fun _ => hok.2.1, fun _ => hok.2.2,
    fun hlate => absurd trivial hlate⟩) hr hopen

/-- The delivery that moves a streaming response to the table of streams. -/
theorem wakeup_of_streaming {c : ℕ} {s : StreamRef}
    (hr : cfg.world.mPendingResponses.find c r = some r)
    (hnone : cfg.world.mPendingStreams.find c r = none)
    (hstate : (cfg.world.responses r).mState = .streaming)
    (hheld : (cfg.world.responses r).mStream = some s)
    (hstart : (cfg.world.streams s).mState = .start)
    (hstep : cfg.step mg (.loop (.wakeup c r)) = some cfg') :
    cfg'.world.mPendingResponses.find c r = none ∧
      cfg'.world.mPendingStreams.find c r = some (some s) ∧
      (cfg'.world.connections c).log = (cfg.world.connections c).log ++
        [⟨.stream s, .send (cfg.world.streams s).mData⟩] := by
  obtain ⟨-, rfl⟩ := step_loop hstep
  have hwakeup : (cfg.world.take c r).handleWakeup mg c r =
      ((cfg.world.take c r).handOff c r r).serveStream mg c r (some s) := by
    rw [← hheld]
    exact World.handleWakeup_of_streaming hnone hr hstate
  have hstart' : (((cfg.world.take c r).handOff c r r).streams s).mState = .start := hstart
  simp only [World.handle, hwakeup]
  refine ⟨?_, ?_, ?_⟩
  · rw [World.mPendingResponses_serveStream, World.find_mPendingResponses_handOff,
      if_pos ⟨rfl, rfl⟩]
  · rw [World.find_mPendingStreams_serveStream,
      if_neg fun h => absurd (hstart'.symm.trans h.1) (by simp),
      World.find_mPendingStreams_handOff, if_pos ⟨rfl, rfl⟩]
    exact congrArg some hheld
  · rw [World.log_serveStream, if_pos rfl]
    simp only [AsyncStream.serveOutput, hstart', World.connections_handOff]
    rfl

/-- A response used for streaming only, and in time, is never answered with a
payload: its first wake-up moves it to the table of streams and writes the preamble. -/
theorem stream_handed_over (hinit : cfg₀.Initial)
    (h : Reaches (step mg) (TimelyStream r) cfg₀ cfg) :
    (∀ d, ∀ o ∈ (cfg.world.connections d).log, o.source ≠ .response r) ∧
      ∀ c cfg', cfg.TimelyStream r (.loop (.wakeup c r)) → (cfg.history r).deliveries = 0 →
        cfg.step mg (.loop (.wakeup c r)) = some cfg' →
        cfg.world.mPendingResponses.find c r = some r ∧
          cfg'.world.mPendingResponses.find c r = none ∧
          ∃ s code headers, cfg'.world.mPendingStreams.find c r = some (some s) ∧
            (cfg'.world.connections c).log = (cfg.world.connections c).log ++
              [⟨.stream s, .send (formatPreamble code headers)⟩] := by
  constructor
  · refine h.invariant_of (J := fun cfg => Reaches (step mg) (TimelyStream r) cfg₀ cfg)
      (P := fun cfg => ∀ d, ∀ o ∈ (cfg.world.connections d).log, o.source ≠ .response r)
      (fun _ h => h) ?_ ?_
    · intro d o ho
      rw [hinit.connections d] at ho
      exact absurd ho (by simp)
    · intro cfg e cfg' hreach ih hok hstep d o ho hsource
      have hreach' := hreach.next hok hstep
      by_cases hlive : (cfg'.world.connections d).status = .live
      · have howned := Owned.of_reaches hinit hreach'
        have hrequest : o.source.request = some r := by rw [hsource]; rfl
        obtain ⟨hconn, hmem⟩ := output_mem_view howned ho hrequest
        have hr := (howned.output d o r ho hrequest).1
        have hstage := stage_of_timely hinit hreach' hr (by rwa [IsOpen, hconn])
        have hmem : o ∈ (cfg'.view r).progress.outputs := hmem
        rcases hstage.source_of_mem_outputs hmem with hfailed | ⟨-, hallowed⟩ | ⟨s, hstream⟩
        · exact absurd (hsource.symm.trans hfailed) (by simp)
        · exact hallowed.elim id id
        · exact absurd (hsource.symm.trans hstream) (by simp)
      · rw [log_step_of_not_live hstep hlive] at ho
        exact ih d o ho hsource
  · intro c cfg' hok hfirst hstep
    have howned := Owned.of_reaches hinit h
    obtain ⟨⟨hlive, hmem⟩, -⟩ := step_loop hstep
    obtain ⟨hr, hconn⟩ := howned.wakeup c r hmem
    have hconn : cfg.conn r = c := hconn
    have hstage := stage_of_timely hinit h hr (by rwa [IsOpen, hconn])
    have hflight : 0 < (cfg.view r).progress.inFlight :=
      List.count_pos_iff.mpr (by rwa [hconn])
    have htimely (t : ℕ) : (cfg.view r).progress.threads t ≠ .streamDecided r true := by
      rcases threads_view cfg r t with hidle | hsame
      · rw [View.progress_threads, hidle]
        simp
      · rw [View.progress_threads, hsame]
        exact hok.2.2 c rfl t
    obtain ⟨hpending, htable, hstate, s, hheld, hstart, code, headers, hdata⟩ :=
      hstage.first_delivery id hflight hfirst htimely
    have hentry : cfg.world.mPendingResponses.find c r = some r := by
      obtain ⟨r', hr'⟩ := Option.isSome_iff_exists.mp hpending
      rw [hconn] at hr'
      rwa [(howned.responseEntry c r r' hr').1] at hr'
    have hresponse := (howned.held r s hr hheld).1
    have hnone := find_mPendingStreams_of_table howned htable
    rw [hconn] at hnone
    subst hresponse
    obtain ⟨hgone, htabled, hlog⟩ :=
      wakeup_of_streaming hentry hnone hstate hheld hstart hstep
    refine ⟨hentry, hgone, s, code, headers, htabled, ?_⟩
    have hdata : (cfg.world.streams s).mData = formatPreamble code headers := hdata
    rw [hlog, hdata]

theorem stream_handed_over_first : ∃ cfg cfg', Reaches (step .plain) (TimelyStream 0)
    (start asyncRoutes) cfg ∧ cfg.step .plain (.loop (.wakeup 0 0)) = some cfg' ∧
      ∃ s code headers, cfg'.world.mPendingStreams.find 0 0 = some (some s) ∧
        (cfg'.world.connections 0).log = (cfg.world.connections 0).log ++
          [⟨.stream s, .send (formatPreamble code headers)⟩] := by
  have hmeets : Meets (step .plain) (TimelyStream 0) (start asyncRoutes)
      (postingStream ++ [.advance 0 true]) :=
    ⟨⟨trivial, trivial, nofun⟩, ⟨trivial, trivial, nofun⟩, ⟨fun _ _ => nofun, trivial, nofun⟩,
      ⟨trivial, trivial, nofun⟩, ⟨trivial, trivial, nofun⟩, ⟨trivial, trivial, nofun⟩, trivial⟩
  have hrun := reaches_of_run rfl hmeets
  obtain ⟨-, -, hmoved⟩ := (stream_handed_over (initial_start _) hrun).2 0 _
    ⟨trivial, trivial, fun _ _ t => by cases t <;> nofun⟩ rfl rfl
  exact ⟨_, _, hrun, rfl, hmoved⟩

/-- A wake-up that overtakes the store of `streaming`: the response, which has
no payload, is answered with it, and the stream never gets to the table. -/
theorem stream_replied_early : ∃ cfg,
    run (step .plain) (start asyncRoutes) (postingStream ++ [.loop (.wakeup 0 0)]) = some cfg ∧
      (cfg.history 0).deliveries = 1 ∧ cfg.world.mPendingStreams.find 0 0 = none ∧
      (cfg.world.connections 0).log = [⟨.response 0, .reply (-1) [] (.sized 0 [])⟩] :=
  ⟨_, rfl, rfl, rfl, rfl⟩

/-- When no delivery comes between the store of `streaming` and the return,
`stream` returns the stream it has made, and that stream is the one in the table. -/
theorem stream_returned (hinit : cfg₀.Initial)
    (h : Reaches (step mg) (fun cfg e => cfg.Conforming r e ∧ cfg.Punctual r e) cfg₀ cfg)
    (hr : r < cfg.world.mRequestCounter) (hopen : cfg.IsOpen r) :
    (∀ t answer cfg', cfg.threads t = .streamStored r →
        cfg.step mg (.advance t answer) = some cfg' →
        ∃ s, (cfg'.history r).returned = (cfg.history r).returned ++ [some s]) ∧
      ∀ p, cfg.world.mPendingStreams.find (cfg.conn r) r = some p →
        ∃ s, p = some s ∧ some s ∈ (cfg.history r).returned ∧
          ∀ s', some s' ∈ (cfg.history r).returned → s' = s := by
  have howned := Owned.of_reaches hinit h
  have hstage : Progress.Stage ⟨True, True, False⟩ 1 r (cfg.view r).progress :=
    stage_of_reaches hinit h (fun _ _ hok => ⟨hok.1, fun h => absurd trivial h,
      fun h => absurd trivial h, fun _ => hok.2⟩) hr hopen
  constructor
  · intro t answer cfg' ht hstep
    have hreq : (cfg.threads t).request = some r := by rw [ht]; rfl
    obtain ⟨s, hheld⟩ := hstage.held_of_stored id ((threads_view_of_request hreq).trans ht)
    have hheld : (cfg.world.responses r).mStream = some s := hheld
    simp only [step, hreq, Option.some.injEq] at hstep
    refine ⟨s, ?_⟩
    rw [← hstep, history_commit, if_pos rfl, ht]
    simp only [Shared.advance, Shared.returns, shared, hheld]
  · intro p hp
    obtain ⟨⟨n, -, rfl⟩, -⟩ := howned.streamEntry _ _ p hp
    obtain ⟨hmem, honly⟩ := hstage.returned_of_table id (table_eq_some.mpr hp)
    refine ⟨_, rfl, List.reduceOption_mem_iff.mp hmem, fun s' hs' => ?_⟩
    exact honly s' (List.reduceOption_mem_iff.mpr hs')

theorem stream_returned_first :
    (∃ cfg cfg' : Config, cfg.step .plain (.advance 0 true) = some cfg' ∧
      ∃ s, (cfg'.history 0).returned = (cfg.history 0).returned ++ [some s]) ∧
      ∃ (cfg : Config) (p : _), cfg.world.mPendingStreams.find (cfg.conn 0) 0 = some p ∧
        ∃ s, p = some s ∧ some s ∈ (cfg.history 0).returned ∧
          ∀ s', some s' ∈ (cfg.history 0).returned → s' = s := by
  have hmeets : Meets (step .plain) (fun cfg e => cfg.Conforming 0 e ∧ cfg.Punctual 0 e)
      (start asyncRoutes) (postingStream ++ [.advance 0 true]) :=
    ⟨⟨trivial, nofun⟩, ⟨trivial, nofun⟩, ⟨fun _ _ => nofun, nofun⟩, ⟨trivial, nofun⟩,
      ⟨trivial, nofun⟩, ⟨trivial, nofun⟩, trivial⟩
  have hrun := reaches_of_run rfl hmeets
  have hmeets' : Meets (step .plain) (fun cfg e => cfg.Conforming 0 e ∧ cfg.Punctual 0 e)
      (start asyncRoutes)
      (postingStream ++ [.advance 0 true, .advance 0 true, .loop (.wakeup 0 0)]) :=
    ⟨⟨trivial, nofun⟩, ⟨trivial, nofun⟩, ⟨fun _ _ => nofun, nofun⟩, ⟨trivial, nofun⟩,
      ⟨trivial, nofun⟩, ⟨trivial, nofun⟩, ⟨trivial, nofun⟩,
      ⟨trivial, fun _ _ t => by cases t <;> nofun⟩, trivial⟩
  have hrun' := reaches_of_run rfl hmeets'
  have hinit := initial_start asyncRoutes
  exact ⟨⟨_, _, rfl, (stream_returned hinit hrun (by decide) rfl).1 0 true _ rfl rfl⟩,
    ⟨_, _, rfl, (stream_returned hinit hrun' (by decide) rfl).2 _ rfl⟩⟩

/-- A wake-up that overtakes the return: the stream is in the table, and the
caller has a null pointer. -/
theorem stream_returned_null : ∃ cfg,
    run (step .plain) (start asyncRoutes)
        (postingStream ++ [.advance 0 true, .loop (.wakeup 0 0), .advance 0 true]) = some cfg ∧
      (cfg.history 0).posts = 1 ∧ (cfg.world.connections 0).status = .live ∧
      (cfg.history 0).returned = [none] ∧
      cfg.world.mPendingStreams.find 0 0 = some (some ⟨0, 0⟩) :=
  ⟨_, rfl, rfl, rfl, rfl, rfl⟩

end Config

end Mgxx.Http
