import Mgxx.Concurrency.Lifting
import Mgxx.Properties.Flushing

/-!
A stream can be brought to its end from wherever a conforming producer and the
event loop have left it, unless a wake-up could not be posted.
-/

namespace Mgxx.Http

open Mgxx.Library

/-- What is left of a plan once some of its chunks are sent. -/
theorem exists_plan_rest {ops : List Put} {bodies : List Bytes} (hplan : ops <+: plan bodies)
    (hopen : Put.close ∉ ops) : ∃ rest, plan bodies = ops ++ plan rest := by
  induction ops generalizing bodies with
  | nil => exact ⟨bodies, rfl⟩
  | cons op ops ih =>
      cases bodies with
      | nil =>
          obtain ⟨rfl, -⟩ := List.cons_prefix_cons.mp hplan
          exact absurd List.mem_cons_self hopen
      | cons body bodies =>
          obtain ⟨rfl, hrest⟩ := List.cons_prefix_cons.mp hplan
          obtain ⟨rest, hrest⟩ := ih hrest fun h => hopen (List.mem_cons_of_mem _ h)
          exact ⟨rest, congrArg (Put.send body :: ·) hrest⟩

namespace View

open Progress

variable {v v' : View} {r t t' : ℕ} {s : StreamRef} {preamble : Bytes} {ops : List Put} {op : Put}
  {bodies : List Bytes}

/-- A wake-up has been lost: the slot is full, or the stream has failed, and nobody is going
to post a wake-up for it. -/
structure Lost (v : View) (s : StreamRef) : Prop where
  inFlight : v.inFlight = 0
  state : (v.shared.stream s.number).mState = .hasData ∨
    (v.shared.stream s.number).mState = .close ∨ (v.shared.stream s.number).mState = .failed
  threads : ∀ t, v.threads t = .idle ∨ v.threads t = .putRefused s

theorem finished_of_resting (h : Resting v s preamble ops) (hplan : ops <+: plan bodies)
    (hopen : Put.close ∉ ops) (t : ℕ) :
    ∃ v', Leads r t v v' ∧ Finished v' s preamble (plan bodies) := by
  obtain ⟨rest, hrest⟩ := exists_plan_rest hplan hopen
  rw [hrest]
  exact h.finished rest t

theorem finished_of_posted (h : Posted v s preamble ops op) (hplan : ops ++ [op] <+: plan bodies)
    (hopen : Put.close ∉ ops) (t : ℕ) :
    ∃ v', Leads r t v v' ∧ Finished v' s preamble (plan bodies) := by
  cases op with
  | close =>
      rw [← eq_plan_of_close hplan]
      exact ⟨_, h.deliver t, h.finished⟩
  | send body =>
      have hopen' : Put.close ∉ ops ++ [.send body] := by simp [hopen]
      obtain ⟨v', hleads, hfinished⟩ := finished_of_resting (r := r) h.resting hplan hopen' t
      exact ⟨v', (h.deliver t).trans hleads, hfinished⟩

theorem finished_of_granted (h : Attached v s preamble ops) (hflight : v.inFlight = 0)
    (hthreads : v.progress.Only t' (.granted s)) (hputs : v.shared.history.puts s.number = ops)
    (hplan : ops <+: plan bodies) (hopen : Put.close ∉ ops) (t : ℕ) :
    ∃ v', Leads r t v v' ∧ Finished v' s preamble (plan bodies) := by
  obtain ⟨rest, hrest⟩ := exists_plan_rest hplan hopen
  obtain ⟨op, more, hmore⟩ : ∃ op more, plan rest = op :: more := by
    cases rest with
    | nil => exact ⟨.close, [], rfl⟩
    | cons body rest => exact ⟨.send body, plan rest, rfl⟩
  obtain ⟨v₁, hleads, hposted⟩ := posted_of_granted (r := r) h hflight hthreads hputs op t
  have hplan' : ops ++ [op] <+: plan bodies := by
    rw [hrest, hmore]
    exact ⟨more, by simp⟩
  obtain ⟨v₂, hleads', hfinished⟩ := finished_of_posted (r := r) hposted hplan' hopen t
  exact ⟨v₂, hleads.trans hleads', hfinished⟩

/-- The first delivery writes the preamble out. -/
theorem resting_of_handed (hpending : v.pending = true) (htable : v.table = none)
    (hflight : v.inFlight = 1) (hthreads : v.progress.Quiet)
    (hstreaming : v.shared.response.mState = .streaming)
    (hheld : v.shared.response.mStream = some s)
    (hstate : (v.shared.stream s.number).mState = .start)
    (hdata : (v.shared.stream s.number).mData = preamble)
    (hputs : v.shared.history.puts s.number = []) (houtputs : v.outputs = [])
    (hreturned : some s ∈ v.shared.history.returned) :
    Leads r t v (v.take.handOff.serve s) ∧ Resting (v.take.handOff.serve s) s preamble [] := by
  refine ⟨.step .deliver trivial trivial ?_, ⟨?_, hreturned, ?_⟩, ?_, hthreads, ?_, hputs⟩
  · rw [← deliver_of_held (r := r) hpending htable hstreaming hheld]
    exact if_pos (by rw [hflight]; exact Nat.one_pos)
  · simp [serve, handOff, take, Shared.updateResponse, hheld, hstate]
  · simp [serve, handOff, take, Shared.updateResponse, AsyncStream.serveOutput, hstate, hdata,
      houtputs, written]
  · simp [serve, handOff, take, hflight]
  · simp [serve, handOff, take, Shared.updateStream, Shared.updateResponse, AsyncStream.serve,
      AsyncStream.markFlush, hstate]

/-- From any situation in which no wake-up has been lost, the producer can finish its plan. -/
theorem exists_finished {limit : ℕ}
    (h : Streaming .any limit r s preamble v.progress)
    (hreturned : some s ∈ v.shared.history.returned) (hlost : ¬v.Lost s)
    (hplan : v.shared.history.puts s.number <+: plan bodies) (t : ℕ) :
    ∃ v', Leads r t v v' ∧ Finished v' s preamble (plan bodies) := by
  cases h with
  | handed howes hpending htable hflight hthreads hheld hstate hdata _ hputs houtputs =>
      obtain ⟨hleads, hresting⟩ := resting_of_handed (t := t) hpending htable hflight hthreads
        howes.mState hheld hstate hdata hputs houtputs hreturned
      obtain ⟨v', hleads', hfinished⟩ := finished_of_resting (r := r) hresting
        (List.nil_prefix : [] <+: plan bodies) List.not_mem_nil t
      exact ⟨v', hleads.trans hleads', hfinished⟩
  | resting _ hserved hflight hthreads hstate hputs houtputs =>
      exact finished_of_resting ⟨⟨hserved.table, hreturned, houtputs⟩, hflight, hthreads, hstate, rfl⟩
        hplan hputs t
  | unreturned _ _ _ _ _ _ _ hhandles _ _ _ =>
      have hmem : s ∈ v.progress.handles := List.reduceOption_mem_iff.mpr hreturned
      rw [hhandles] at hmem
      exact absurd hmem List.not_mem_nil
  | granted t' _ hserved hflight hthreads _ hputs houtputs =>
      exact finished_of_granted ⟨hserved.table, hreturned, houtputs⟩ hflight hthreads rfl hplan
        hputs t
  | outstanding ops op _ hserved hop hdata hputs hopen houtputs =>
      have hputs' : v.shared.history.puts s.number = ops ++ [op] := hputs
      rw [hputs'] at hplan
      have hattached : Attached v s preamble ops := ⟨hserved.table, hreturned, houtputs⟩
      have hfilling {t' : ℕ} {pc : Pc} (hthreads : v.progress.Only t' pc) (hflight : v.inFlight = 0)
          (hpc : pc = .putWritten s op ∨ (pc = .putStored s ∨ pc = .putLocked s) ∧
            (v.shared.stream s.number).mState = op.state) :
          ∃ v', Leads r t v v' ∧ Finished v' s preamble (plan bodies) := by
        have hfilling : Filling v s preamble ops op t' pc :=
          ⟨hattached, hflight, hthreads, hdata, hputs⟩
        obtain ⟨v₁, hleads₁, hposted⟩ := hfilling.posted (r := r) hpc t
        obtain ⟨v₂, hleads₂, hfinished⟩ := finished_of_posted (r := r) hposted hplan hopen t
        exact ⟨v₂, hleads₁.trans hleads₂, hfinished⟩
      have hfull {state : AsyncStream.State} (hstate : state = op.state) :
          state = .hasData ∨ state = .close ∨ state = .failed := by
        cases op with
        | send body => exact Or.inl hstate
        | close => exact Or.inr (Or.inl hstate)
      cases hop with
      | written t' hthreads hflight _ => exact hfilling hthreads hflight (Or.inl rfl)
      | stored t' pc hthreads hpc hflight hstate =>
          rcases hpc with rfl | rfl | rfl
          · exact hfilling hthreads hflight (Or.inr ⟨Or.inl rfl, hstate⟩)
          · exact hfilling hthreads hflight (Or.inr ⟨Or.inr rfl, hstate⟩)
          · refine absurd ⟨hflight, hfull hstate, fun t₁ => ?_⟩ hlost
            by_cases ht : t₁ = t'
            · exact Or.inr (ht ▸ threads_of_only hthreads)
            · exact Or.inl (threads_of_only_ne hthreads ht)
      | posted hthreads hflight hstate =>
          exact finished_of_posted ⟨hattached, hflight, hthreads, hstate, hdata, hputs⟩ hplan hopen t
      | lost hthreads hflight hstate =>
          refine absurd ⟨hflight, ?_, fun t₁ => Or.inl (threads_of_quiet hthreads t₁)⟩ hlost
          exact hstate.elim hfull fun hfailed => Or.inr (Or.inr hfailed)
  | completed ops _ _ _ _ _ hstate hputs hopen houtputs =>
      have hputs' : v.shared.history.puts s.number = ops ++ [.close] := hputs
      rw [hputs'] at hplan
      have hall := eq_plan_of_close hplan
      exact ⟨v, .refl v, ⟨hstate, hputs'.trans hall, houtputs.trans (by rw [hall])⟩⟩

/-- No conforming step gets over a lost wake-up. -/
theorem Lost.step {limit : ℕ} (h : v.Lost s)
    (hstreaming : Streaming .any limit r s preamble v.progress) {ve : View.Event}
    (hok : v.Conforming r ve) (hstep : v.step r ve = some v') : v'.Lost s := by
  have hflush : (v.shared.stream s.number).mState ≠ .flush := by
    rcases h.state with hstate | hstate | hstate <;> simp [hstate]
  cases ve with
  | deliver =>
      obtain ⟨hflight, -⟩ := step_deliver hstep
      exact absurd h.inFlight (Nat.ne_of_gt hflight)
  | poll =>
      obtain rfl := Option.some.inj hstep
      unfold View.poll
      split_ifs <;> exact ⟨h.inFlight, h.state, h.threads⟩
  | release blocked =>
      obtain rfl := Option.some.inj hstep
      unfold View.release
      split
      · exact h
      · next s' _ =>
          refine ⟨h.inFlight, ?_, h.threads⟩
          by_cases hs : s'.number = s.number
          · simpa [Shared.updateStream, hs, AsyncStream.release, hflush] using h.state
          · simpa [Shared.updateStream, Function.update_of_ne (Ne.symm hs)] using h.state
  | headers headers =>
      obtain rfl := Option.some.inj hstep
      exact ⟨h.inFlight, h.state, h.threads⟩
  | begin t call =>
      obtain ⟨hidle, rfl⟩ := step_begin hstep
      have hpending : v.shared.response.mState ≠ .pending := by
        have hstate : v.shared.response.mState = .streaming := hstreaming.owes.mState
        simp [hstate]
      rw [Shared.begin_of_ne hpending]
      refine ⟨h.inFlight, h.state, fun t' => ?_⟩
      by_cases ht : t' = t
      · exact Or.inl (by simp [ht])
      · simpa [ht] using h.threads t'
  | wait t s' =>
      obtain rfl := hstreaming.owes.handles s' (mem_handles_of_wait hstep)
      obtain ⟨-, -, granted, hwait, rfl⟩ := step_wait hstep
      cases granted with
      | false => exact h
      | true =>
          have hempty := (AsyncStream.wait_eq_true_iff _).mp hwait
          rcases h.state with hstate | hstate | hstate <;> simp [hstate] at hempty
  | put t s' op =>
      have hgranted : v.threads t = .granted s' := hok
      rcases h.threads t with hidle | hrefused
      · rw [hidle] at hgranted
        cases hgranted
      · rw [hrefused] at hgranted
        cases hgranted
  | advance t answer =>
      obtain rfl := Option.some.inj hstep
      rcases h.threads t with hidle | hrefused
      · rwa [advance_of_idle hidle]
      · rw [hrefused]
        refine ⟨by simp [Shared.advance, h.inFlight], ?_, fun t' => ?_⟩
        · simp [Shared.advance, Shared.updateStream, AsyncStream.markFailed]
        · by_cases ht : t' = t
          · exact Or.inl (by simp [ht, Shared.advance])
          · simpa [ht, Shared.advance] using h.threads t'

end View

namespace Config

variable {mg : Mongoose} {cfg cfg₀ cfg₁ cfg₂ : Config} {r t : ℕ} {s : StreamRef}
  {bodies : List Bytes}

theorem lost_of_reaches (hinit : cfg₀.Initial) (h₁ : Reaches (step mg) anyEvent cfg₀ cfg₁)
    (hhanded : cfg₁.HandedOver r s) (h : Reaches (step mg) (Conforming r) cfg₁ cfg)
    (hlost : (cfg.view r).Lost s) (h₂ : Reaches (step mg) (Conforming r) cfg cfg₂)
    (hopen : cfg₂.IsOpen r) : (cfg₂.view r).Lost s := by
  have howned := Owned.of_reaches hinit h₁
  obtain ⟨-, hr, -, -⟩ := howned.responseEntry _ _ _ hhanded.entry
  refine h₂.invariant_of (J := fun cfg₂ => Reaches (step mg) (Conforming r) cfg₁ cfg₂)
    (P := fun cfg₂ => cfg₂.IsOpen r → (cfg₂.view r).Lost s) (fun _ h₂ => h.trans h₂)
    (fun _ => hlost) ?_ hopen
  intro cfg e cfg' hreaches hlost hok hstep hopen
  have howned' : Owned cfg := Owned.of_reaches hinit
    (h₁.trans (hreaches.mono fun _ _ _ => trivial))
  have hr' := Nat.lt_of_lt_of_le hr (mRequestCounter_le_of_reaches hreaches)
  have hbefore := isOpen_of_step howned' hr' hstep hopen
  have hnext := view_step mg howned' hr' hstep hopen
  cases habout : e.about mg cfg r with
  | none =>
      rw [habout] at hnext
      exact hnext ▸ hlost hbefore
  | some ve =>
      rw [habout] at hnext
      exact (hlost hbefore).step (streaming_of_reaches hinit h₁ hhanded hreaches hbefore)
        (conforming_view hok habout) hnext

/-- On a connection without a synchronous stream, a conforming producer can always write out what
is left of its plan, unless a wake-up has been lost; then the stream is never completed. -/
theorem can_finish (hio : 0 < mg.ioSize) (hchunk : ∀ data, mg.mgHttpWriteChunk data ≠ [])
    (hinit : cfg₀.Initial)
    (h₁ : Reaches (step mg) anyEvent cfg₀ cfg₁) (hhanded : cfg₁.HandedOver r s)
    (h : Reaches (step mg) (Conforming r) cfg₁ cfg) (hopen : cfg.IsOpen r)
    (hidle : cfg.threads t = .idle)
    (hfnData : (cfg.world.connections (cfg.conn r)).fnData.bind RemoteContext.mStream = none)
    (hplan : (cfg.history r).puts s.number <+: plan bodies) :
    (¬(cfg.view r).Lost s → ∃ cfg₂, Reaches (step mg) (Conforming r) cfg cfg₂ ∧ cfg₂.IsOpen r ∧
      (cfg₂.world.streams s).mState = .completed ∧ (cfg₂.history r).puts s.number = plan bodies ∧
      cfg₂.streamOutputs s = written s (cfg₁.world.streams s).mData (plan bodies)) ∧
    ((cfg.view r).Lost s → ∀ cfg₂, Reaches (step mg) (Conforming r) cfg cfg₂ → cfg₂.IsOpen r →
      (cfg₂.world.streams s).mState ≠ .completed) := by
  have hstreaming := streaming_of_reaches hinit h₁ hhanded h hopen
  obtain rfl := hstreaming.owes.response
  constructor
  · intro hlost
    have howned₁ := Owned.of_reaches hinit h₁
    obtain ⟨-, hr, -, -⟩ := howned₁.responseEntry _ _ _ hhanded.entry
    have howned : Owned cfg := Owned.of_reaches hinit (h₁.trans (h.mono fun _ _ _ => trivial))
    have hreturned : some s ∈ (cfg.history s.response).returned :=
      h.invariant (P := fun cfg => some s ∈ (cfg.history s.response).returned) hhanded.returned
        fun _ _ _ hs _ hstep => mem_returned_step hstep hs
    have hdrivable : cfg.Drivable s.response t :=
      ⟨howned, Nat.lt_of_lt_of_le hr (mRequestCounter_le_of_reaches h), hopen,
        fun r' hr' => by simp [hidle, Pc.request] at hr', hfnData⟩
    obtain ⟨v, hleads, hfinished⟩ := View.exists_finished hstreaming hreturned hlost hplan t
    have hbusy (cfg' : Config) (h' : Reaches (step mg) (Conforming s.response) cfg cfg')
        (hopen' : cfg'.IsOpen s.response) (s' : StreamRef)
        (htable : (cfg'.view s.response).table = some s')
        (hflush : ((cfg'.view s.response).shared.stream s'.number).mState = .flush) :
        (cfg'.world.connections (cfg'.conn s.response)).Busy := by
      obtain rfl :=
        (streaming_of_reaches hinit h₁ hhanded (h.trans h') hopen').eq_of_table htable
      exact busy_of_reaches hio hchunk hinit h₁ hhanded (h.trans h') hopen' hflush
    obtain ⟨cfg₂, hreaches, hdrivable₂, rfl⟩ := exists_of_leads_reading hdrivable hio hbusy hleads
    refine ⟨cfg₂, hreaches, hdrivable₂.isOpen, hfinished.state, hfinished.puts, ?_⟩
    rw [streamOutputs_eq (streaming_of_reaches hinit h₁ hhanded (h.trans hreaches)
      hdrivable₂.isOpen)]
    exact hfinished.outputs
  · intro hlost cfg₂ h₂ hopen₂ hcompleted
    have hstate := (lost_of_reaches hinit h₁ hhanded h hlost h₂ hopen₂).state
    have hcompleted' : ((cfg₂.view s.response).shared.stream s.number).mState = .completed :=
      hcompleted
    rw [hcompleted'] at hstate
    simp at hstate

theorem can_finish_one : ∃ cfg cfg' : Config,
    run (step .plain) (start asyncRoutes) openingStream = some cfg ∧
      Reaches (step .plain) (Conforming 0) cfg cfg' ∧
      cfg'.streamOutputs ⟨0, 0⟩ =
        written ⟨0, 0⟩ (cfg.world.streams ⟨0, 0⟩).mData (plan [[1], [2, 3]]) := by
  have hopening : Reaches (step .plain) anyEvent (start asyncRoutes) _ :=
    reaches_of_run rfl (meets_anyEvent _ openingStream)
  have hplan : [] <+: plan [[1], [2, 3]] := List.nil_prefix
  obtain ⟨cfg', hreaches, -, -, -, houtputs⟩ := (can_finish (t := 1) (by decide)
    (by simp [Mongoose.plain, Chunked.encodeChunk, Chunked.lineEnd]) (initial_start _) hopening
    handedOver_openingStream (.refl _) rfl rfl rfl hplan).1
    fun hlost => absurd hlost.inFlight (by decide)
  exact ⟨_, cfg', rfl, hreaches, houtputs⟩

end Config

end Mgxx.Http
