import Mgxx.Concurrency.Use

/-!
Wake-ups and the entries they name.
-/

namespace Mgxx.Http

open Mgxx.Library

namespace World

/-- An id names a stream once the stream has left its response, and before
that when the response is in state `streaming`. -/
def NamesStream (w : World) (c id : ℕ) : Prop :=
  w.mPendingStreams.find c id ≠ none ∨
    ∃ r, w.mPendingResponses.find c id = some r ∧ (w.responses r).mState = .streaming

/-- What a wake-up should write: nothing but stream data for a stream, one
reply for a response, and one error for an id that is in neither table. -/
structure AnswersOnce (w : World) (c id : ℕ) (out : List Output) : Prop where
  replies : (out.filter fun o => o.write.isReply).length ≤ 1
  stream : w.NamesStream c id → ∀ o ∈ out, o.write.isReply = false
  response : ∀ r, w.mPendingResponses.find c id = some r → ¬w.NamesStream c id →
    out = [w.replyOutput r]
  unknown : w.mPendingResponses.find c id = none → w.mPendingStreams.find c id = none →
    out = [⟨.notFound id, internalServerError⟩]

variable (mg : Mongoose) (w : World) (c id : ℕ)

/-- Serving a stream is no reply. -/
theorem exists_log_serveStream (stream : Option StreamRef) :
    ∃ out, ((w.serveStream mg c id stream).connections c).log = (w.connections c).log ++ out ∧
      ∀ o ∈ out, o.write.isReply = false := by
  cases stream with
  | none => exact ⟨[], (List.append_nil _).symm, by simp⟩
  | some s =>
      refine ⟨_, by rw [log_serveStream, if_pos rfl], ?_⟩
      intro o ho
      obtain ⟨write, hwrite, rfl⟩ := List.mem_map.mp ho
      unfold AsyncStream.serveOutput at hwrite
      split at hwrite <;> simp_all [Write.isReply]

theorem answersOnce_of_namesStream {w : World} {c id : ℕ} (hnames : w.NamesStream c id)
    {out : List Output} (hout : ∀ o ∈ out, o.write.isReply = false) : w.AnswersOnce c id out where
  replies := by
    rw [List.filter_eq_nil_iff.mpr fun o ho => by simp [hout o ho]]
    exact Nat.zero_le 1
  stream _ := hout
  response r _ hnot := absurd hnames hnot
  unknown hresponse hstream := by
    rcases hnames with hentry | ⟨r, hr, -⟩
    · exact absurd hstream hentry
    · exact absurd (hresponse.symm.trans hr) (by simp)

/-- A wake-up is answered as it should be exactly when its id is in one of the
tables; otherwise two functions each send the error. -/
theorem answersOnce_handleWakeup_iff :
    ∃ out, ((w.handleWakeup mg c id).connections c).log = (w.connections c).log ++ out ∧
      (w.AnswersOnce c id out ↔
        w.mPendingStreams.find c id ≠ none ∨ w.mPendingResponses.find c id ≠ none) := by
  refine handleWakeup_elim
    (P := fun w' => ∃ out, (w'.connections c).log = (w.connections c).log ++ out ∧
      (w.AnswersOnce c id out ↔
        w.mPendingStreams.find c id ≠ none ∨ w.mPendingResponses.find c id ≠ none))
    ?_ ?_ ?_ ?_
  · intro stream hstream
    obtain ⟨out, hlog, hout⟩ := exists_log_serveStream mg w c id stream
    have hentry : w.mPendingStreams.find c id ≠ none := by simp [hstream]
    exact ⟨out, hlog, iff_of_true (answersOnce_of_namesStream (Or.inl hentry) hout) (Or.inl hentry)⟩
  · intro r hstream hr hstate
    obtain ⟨out, hlog, hout⟩ :=
      exists_log_serveStream mg (w.handOff c id r) c id (w.responses r).mStream
    refine ⟨out, by rw [hlog, connections_handOff], ?_⟩
    exact iff_of_true (answersOnce_of_namesStream (Or.inr ⟨r, hr, hstate⟩) hout)
      (Or.inr (by simp [hr]))
  · intro r hstream hr hstate
    have hnot : ¬w.NamesStream c id := by
      rintro (hentry | ⟨r', hr', hstreaming⟩)
      · exact hentry hstream
      · obtain rfl := Option.some.inj (hr.symm.trans hr')
        exact hstate hstreaming
    refine ⟨[w.replyOutput r], by rw [log_reply, if_pos rfl],
      iff_of_true ⟨?_, fun hnames => absurd hnames hnot, ?_, ?_⟩ (Or.inr (by simp [hr]))⟩
    · exact List.length_filter_le ..
    · intro r' hr' _
      rw [Option.some.inj (hr.symm.trans hr')]
    · intro hresponse
      exact absurd (hresponse.symm.trans hr) (by simp)
  · intro hstream hresponse
    refine ⟨[⟨.notFound id, internalServerError⟩, ⟨.notFound id, internalServerError⟩], ?_,
      iff_of_false ?_ ?_⟩
    · simp [log_write]
    · intro hanswers
      exact absurd (hanswers.unknown hresponse hstream) (by simp)
    · simp [hstream, hresponse]

end World

namespace Config

variable {mg : Mongoose} {cfg cfg₀ : Config}

/-- A producer that closes its stream twice: the second wake-up finds no entry,
and the client receives two error replies after the end of the stream. -/
theorem error_replied_twice : ∃ cfg w,
    run (step .plain) (start asyncRoutes)
        (openingStream ++ .loop (.wakeup 0 0) :: putting .close ++ .loop (.wakeup 0 0) ::
          putting .close) = some cfg ∧
      cfg.world.loopStep .plain (.wakeup 0 0) = some w ∧
      (w.connections 0).log = (cfg.world.connections 0).log ++
        [⟨.notFound 0, internalServerError⟩, ⟨.notFound 0, internalServerError⟩] :=
  ⟨_, _, rfl, rfl, rfl⟩

/-- A wake-up in flight to an open connection names an entry of exactly one table. -/
theorem entry_of_wakeup {a : Progress.Allowed} {limit c id : ℕ} (howned : Owned cfg)
    (hmem : (c, id) ∈ cfg.world.wakeups)
    (hstage : Progress.Stage a limit id (cfg.view id).progress) :
    cfg.world.mPendingResponses.find c id ≠ none ∧ cfg.world.mPendingStreams.find c id = none ∨
      cfg.world.mPendingResponses.find c id = none ∧
        cfg.world.mPendingStreams.find c id ≠ none := by
  obtain ⟨-, hconn⟩ := howned.wakeup c id hmem
  have hconn : cfg.conn id = c := hconn
  have hflight : 0 < (cfg.view id).progress.inFlight := by
    refine List.count_pos_iff.mpr ?_
    rwa [hconn]
  rcases hstage.entry hflight with ⟨hpending, htable⟩ | ⟨hpending, s, htable⟩
  · left
    refine ⟨fun hnone => ?_, hconn ▸ find_mPendingStreams_of_table howned htable⟩
    have hpending : (cfg.world.mPendingResponses.find (cfg.conn id) id).isSome = true := hpending
    rw [hconn, hnone] at hpending
    exact absurd hpending (by simp)
  · right
    have hentry := table_eq_some.mp htable
    rw [hconn] at hentry
    exact ⟨(howned.streamEntry c id _ hentry).2.2.2.2, by simp [hentry]⟩

def AllConforming (cfg : Config) (e : Event) : Prop := ∀ r, cfg.Conforming r e

theorem stage_of_allConforming (hinit : cfg₀.Initial)
    (h : Reaches (step mg) AllConforming cfg₀ cfg) {r : ℕ} (hr : r < cfg.world.mRequestCounter)
    (hopen : cfg.IsOpen r) : Progress.Stage .any 1 r (cfg.view r).progress :=
  stage_of_reaches hinit h (fun _ e hok => ⟨hok r, permitted_any r e⟩) hr hopen

theorem not_notFound_of_stage {a : Progress.Allowed} {limit r : ℕ} {p : Progress}
    (h : Progress.Stage a limit r p) {o : Output} (ho : o ∈ p.outputs) (id : ℕ) :
    o.source ≠ .notFound id := by
  rcases h.source_of_mem_outputs ho with hsource | ⟨hsource, -⟩ | ⟨s, hsource⟩ <;>
    rw [hsource] <;> simp

/-- No run that uses its responses as it should takes the error path of
`handle_response` or of `handle_wakeup`: every wake-up in flight to an open
connection finds its entry, in one table and not in the other. -/
theorem wakeups_find_entries (hinit : cfg₀.Initial)
    (h : Reaches (step mg) AllConforming cfg₀ cfg) :
    (∀ c id, (c, id) ∈ cfg.world.wakeups → (cfg.world.connections c).status = .live →
      cfg.world.mPendingResponses.find c id ≠ none ∧
          cfg.world.mPendingStreams.find c id = none ∨
        cfg.world.mPendingResponses.find c id = none ∧
          cfg.world.mPendingStreams.find c id ≠ none) ∧
      ∀ d, ∀ o ∈ (cfg.world.connections d).log, ∀ id, o.source ≠ .notFound id := by
  constructor
  · intro c id hmem hlive
    have howned := Owned.of_reaches hinit h
    obtain ⟨hid, hconn⟩ := howned.wakeup c id hmem
    exact entry_of_wakeup howned hmem
      (stage_of_allConforming hinit h hid (by rwa [IsOpen, conn, hconn]))
  · refine h.invariant_of (J := fun cfg => Reaches (step mg) AllConforming cfg₀ cfg)
      (P := fun cfg => ∀ d, ∀ o ∈ (cfg.world.connections d).log, ∀ id, o.source ≠ .notFound id)
      (fun _ h => h) ?_ ?_
    · intro d o ho
      rw [hinit.connections d] at ho
      exact absurd ho (by simp)
    · intro cfg e cfg' hreach ih hok hstep d o ho id hsource
      have hreach' := hreach.next hok hstep
      by_cases hlive : (cfg'.world.connections d).status = .live
      · -- what is written on an open connection is in the view of the request it is for
        have hrequest : o.source.request = some id := by rw [hsource]; rfl
        obtain ⟨hid, hconn⟩ := (Owned.of_reaches hinit hreach').output d o id ho hrequest
        have hstage := stage_of_allConforming hinit hreach' hid (by rwa [IsOpen, conn, hconn])
        refine not_notFound_of_stage hstage (o := o) ?_ id hsource
        simp only [View.progress_outputs, view, List.mem_filter]
        exact ⟨by rwa [conn, hconn], by simp [hrequest]⟩
      · rw [log_step_of_not_live hstep hlive] at ho
        exact ih d o ho id hsource

theorem wakeups_find_entries_first : ∃ cfg, run (step .plain) (start asyncRoutes) postingStream =
      some cfg ∧ (0, 0) ∈ cfg.world.wakeups ∧
      (cfg.world.mPendingResponses.find 0 0 ≠ none ∧ cfg.world.mPendingStreams.find 0 0 = none ∨
        cfg.world.mPendingResponses.find 0 0 = none ∧
          cfg.world.mPendingStreams.find 0 0 ≠ none) := by
  have hmeets : Meets (step .plain) AllConforming (start asyncRoutes) postingStream :=
    ⟨fun _ => trivial, fun _ => trivial, fun _ _ _ => nofun, fun _ => trivial, fun _ => trivial,
      trivial⟩
  have hmem : (0, 0) ∈ [(0, 0)] := List.mem_singleton_self (0, 0)
  exact ⟨_, rfl, hmem, (wakeups_find_entries (initial_start _) (reaches_of_run rfl hmeets)).1 0 0
    hmem rfl⟩

end Config

end Mgxx.Http
