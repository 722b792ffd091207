import Mgxx.Concurrency.Use

/-!
The chunks of a stream, from its hand-over to the worker on.
-/

namespace Mgxx.Http

open Mgxx.Library

def plan (bodies : List Bytes) : List Put := bodies.map Put.send ++ [.close]

theorem close_not_mem_sends (bodies : List Bytes) : Put.close ∉ bodies.map Put.send := by
  simp

/-- `close` comes last, so that a producer that has called it has sent everything. -/
theorem eq_plan_of_close {bodies : List Bytes} {ops : List Put}
    (h : ops ++ [.close] <+: plan bodies) : ops ++ [.close] = plan bodies := by
  rcases List.prefix_concat_iff.mp h with heq | hpart
  · exact heq
  · have hmem : Put.close ∈ bodies.map Put.send :=
      hpart.subset (List.mem_append_right ops (List.mem_singleton_self _))
    exact absurd hmem (close_not_mem_sends bodies)

theorem ne_plan_of_close_not_mem {bodies : List Bytes} {ops : List Put} (h : Put.close ∉ ops) :
    ops ≠ plan bodies := by
  rintro rfl
  exact h (List.mem_append_right _ (List.mem_singleton_self _))

section Written

variable {s : StreamRef} {preamble : Bytes} {ops ops' : List Put}

theorem written_mono (h : ops <+: ops') : written s preamble ops <+: written s preamble ops' :=
  List.cons_prefix_cons.mpr ⟨rfl, h.map _⟩

/-- What is written for a part of the plan is not all of it. -/
theorem written_ne (h : ops <+: ops') (hne : ops ≠ ops') :
    written s preamble ops ≠ written s preamble ops' := by
  intro heq
  have hlength := congrArg List.length heq
  simp only [written, List.length_cons, List.length_map, Nat.add_right_cancel_iff] at hlength
  exact hne (h.eq_of_length hlength)

end Written

namespace Progress.Streaming

variable {a : Allowed} {limit r : ℕ} {s : StreamRef} {preamble : Bytes} {p : Progress}

/-- The outputs are those of the part of the plan that is delivered, and all of
them are written when the stream is completed and not before. -/
theorem outputs_of_plan (h : Streaming a limit r s preamble p) {bodies : List Bytes}
    (hplan : p.puts s.number <+: plan bodies) :
    p.outputs <+: written s preamble (plan bodies) ∧
      (p.outputs = written s preamble (plan bodies) ↔
        (p.stream s.number).mState = .completed) := by
  -- some of the plan is still to come
  have hpart {ops : List Put} (houtputs : p.outputs = written s preamble ops)
      (hops : ops <+: plan bodies) (hne : ops ≠ plan bodies)
      (hstate : (p.stream s.number).mState ≠ .completed) :
      p.outputs <+: written s preamble (plan bodies) ∧
        (p.outputs = written s preamble (plan bodies) ↔
          (p.stream s.number).mState = .completed) := by
    rw [houtputs]
    exact ⟨written_mono hops, iff_of_false (written_ne hops hne) hstate⟩
  have hresting (hstate : (p.stream s.number).mState = .flush ∨
      (p.stream s.number).mState = .empty) : (p.stream s.number).mState ≠ .completed := by
    rcases hstate with hstate | hstate <;> simp [hstate]
  cases h with
  | handed _ _ _ _ _ _ hstate _ _ _ houtputs =>
      rw [houtputs]
      exact ⟨List.nil_prefix, iff_of_false (by simp [written]) (by simp [hstate])⟩
  | resting _ _ _ _ hstate hputs houtputs =>
      exact hpart houtputs hplan (ne_plan_of_close_not_mem hputs) (hresting hstate)
  | unreturned _ _ _ _ _ _ _ _ hstate hputs houtputs =>
      exact hpart houtputs List.nil_prefix (ne_plan_of_close_not_mem (by simp)) (hresting hstate)
  | granted _ _ _ _ _ hstate hputs houtputs =>
      exact hpart houtputs hplan (ne_plan_of_close_not_mem hputs) (hresting (Or.inr hstate))
  | outstanding ops op _ _ hop _ hputs hopen houtputs =>
      rw [hputs] at hplan
      refine hpart houtputs ((List.prefix_append _ _).trans hplan)
        (ne_plan_of_close_not_mem hopen) ?_
      have hop' : op.state ≠ .completed := by cases op <;> simp [Put.state]
      cases hop with
      | written _ _ _ hstate => simp [hstate]
      | stored _ _ _ _ _ hstate => rwa [hstate]
      | posted _ _ hstate => rwa [hstate]
      | lost _ _ hstate => rcases hstate with hstate | hstate <;> rw [hstate] <;> simp [hop']
  | completed ops _ _ _ _ _ hstate hputs _ houtputs =>
      rw [hputs] at hplan
      rw [houtputs, eq_plan_of_close hplan]
      exact ⟨List.prefix_rfl, iff_of_true rfl hstate⟩

/-- There is one wake-up at most, and only for a full slot. -/
theorem inFlight_le (h : Streaming a limit r s preamble p) :
    p.inFlight ≤ 1 ∧ (0 < p.inFlight → (p.stream s.number).mState = .start ∨
      (p.stream s.number).mState = .hasData ∨ (p.stream s.number).mState = .close) := by
  have hnone (hflight : p.inFlight = 0) : p.inFlight ≤ 1 ∧
      (0 < p.inFlight → (p.stream s.number).mState = .start ∨
        (p.stream s.number).mState = .hasData ∨ (p.stream s.number).mState = .close) :=
    ⟨hflight ▸ Nat.zero_le 1, fun hpos => absurd hflight (Nat.ne_of_gt hpos)⟩
  cases h with
  | handed _ _ _ hflight _ _ hstate => exact ⟨Nat.le_of_eq hflight, fun _ => Or.inl hstate⟩
  | resting _ _ hflight => exact hnone hflight
  | unreturned _ _ _ _ hflight => exact hnone hflight
  | granted _ _ _ hflight => exact hnone hflight
  | completed _ _ _ _ hflight => exact hnone hflight
  | outstanding _ op _ _ hop =>
      cases hop with
      | written _ _ hflight => exact hnone hflight
      | stored _ _ _ _ hflight => exact hnone hflight
      | lost _ hflight => exact hnone hflight
      | posted _ hflight hstate =>
          refine ⟨Nat.le_of_eq hflight, fun _ => Or.inr ?_⟩
          cases op with
          | send body => exact Or.inl hstate
          | close => exact Or.inr hstate

theorem source_of_mem_outputs (h : Streaming a limit r s preamble p) {o : Output}
    (ho : o ∈ p.outputs) : o.source = .stream s := by
  rcases h.handed_or_served_or_completed with ⟨-, -, houtputs⟩ | ⟨-, ops, -, -, houtputs⟩ |
    ⟨-, -, -, ops, houtputs⟩
  · rw [houtputs] at ho
    exact absurd ho (by simp)
  · exact source_of_mem_written (houtputs ▸ ho)
  · exact source_of_mem_written (houtputs ▸ ho)

end Progress.Streaming

namespace Config

variable {mg : Mongoose} {cfg cfg₀ cfg₁ : Config} {r : ℕ} {s : StreamRef}

/-- `stream()` has returned `s`, its response is still in the table, and its
wake-up is in flight. -/
structure HandedOver (cfg : Config) (r : ℕ) (s : StreamRef) : Prop where
  entry : cfg.world.mPendingResponses.find (cfg.conn r) r = some r
  mState : (cfg.world.responses r).mState = .streaming
  mStream : (cfg.world.responses r).mStream = some s
  start : (cfg.world.streams s).mState = .start
  wakeup : cfg.world.wakeups.count (cfg.conn r, r) = 1
  returned : some s ∈ (cfg.history r).returned
  only : ∀ s', some s' ∈ (cfg.history r).returned → s' = s
  threads : ∀ t, (cfg.threads t).request ≠ some r
  puts : (cfg.history r).puts s.number = []

def streamOutputs (cfg : Config) (s : StreamRef) : List Output :=
  (cfg.world.connections (cfg.conn s.response)).log.filter fun o => o.source = .stream s

/-- A response that is used as it should be gets there whenever `stream` has
returned before the first delivery. -/
theorem handedOver_of_conforming (hinit : cfg₀.Initial)
    (h : Reaches (step mg) (Conforming r) cfg₀ cfg)
    (hentry : cfg.world.mPendingResponses.find (cfg.conn r) r = some r)
    (hstate : (cfg.world.responses r).mState = .streaming)
    (hs : some s ∈ (cfg.history r).returned) : cfg.HandedOver r s := by
  have howned := Owned.of_reaches hinit h
  obtain ⟨-, hr, -, hopen⟩ := howned.responseEntry _ _ _ hentry
  have hstage : Progress.Stage .any 1 r (cfg.view r).progress :=
    stage_of_reaches hinit h (fun _ e hok => ⟨hok, permitted_any r e⟩) hr hopen
  have hpending : (cfg.view r).progress.pending = true := by
    simp [view, hentry]
  have hmem : s ∈ (cfg.view r).progress.handles := List.reduceOption_mem_iff.mpr hs
  have hgone (hnot : (cfg.view r).progress.pending = false) : cfg.HandedOver r s :=
    absurd (hpending.symm.trans hnot) (by simp)
  rcases hstage.waiting_or_answered_or_streaming with ⟨n, -, hwaiting⟩ | ⟨hanswered, -⟩ |
    ⟨s', preamble, -, hstreaming⟩
  · -- nothing has been returned yet
    rw [hwaiting.handles] at hmem
    exact absurd hmem (by simp)
  · exact hgone hanswered.pending
  · cases hstreaming with
    | resting _ hserved => exact hgone hserved.pending
    | unreturned _ _ _ hserved => exact hgone hserved.pending
    | granted _ _ hserved => exact hgone hserved.pending
    | outstanding _ _ _ hserved => exact hgone hserved.pending
    | completed _ _ hnot => exact hgone hnot
    | handed howes _ _ hflight hthreads hheld hstart _ hreturned hputs =>
        obtain rfl := howes.handles s hmem
        obtain rfl := howes.response
        refine ⟨hentry, hstate, hheld, hstart, hflight, hs, fun s' hs' => ?_, fun t ht => ?_, hputs⟩
        · exact howes.handles s' (List.reduceOption_mem_iff.mpr hs')
        · have hidle : (cfg.view s.response).threads t = .idle := congrFun hthreads t
          rw [threads_view_of_request ht] at hidle
          rw [hidle] at ht
          exact absurd ht (by simp [Pc.request])

theorem streaming_of_handedOver (howned : Owned cfg) (h : cfg.HandedOver r s) :
    Progress.Streaming .any (max (cfg.history r).passes (cfg.history r).posts) r s
      (cfg.world.streams s).mData (cfg.view r).progress := by
  obtain ⟨-, hr, -, -⟩ := howned.responseEntry _ _ _ h.entry
  obtain ⟨rfl, -, -⟩ := howned.held r s hr h.mStream
  have hone : cfg.world.mPendingStreams.find (cfg.conn s.response) s.response = none := by
    by_contra hsome
    obtain ⟨p, hp⟩ := Option.ne_none_iff_exists'.mp hsome
    have hnone := (howned.streamEntry _ _ p hp).2.2.2.2
    exact absurd (hnone.symm.trans h.entry) (by simp)
  refine .handed ⟨rfl, h.mState, ?_, le_max_left _ _, le_max_right _ _⟩ ?_ ?_ h.wakeup ?_ h.mStream
    h.start rfl (List.reduceOption_mem_iff.mpr h.returned) h.puts ?_
  · exact fun s' hs' => h.only s' (List.reduceOption_mem_iff.mp hs')
  · simp [view, h.entry]
  · simp [view, hone]
  · funext t
    exact if_neg (h.threads t)
  · refine List.filter_eq_nil_iff.mpr fun o ho hsource => ?_
    exact howned.unwritten _ _ o (by simp [h.entry]) ho (of_decide_eq_true hsource)

/-- Everything written for the request is written for its stream. -/
theorem streamOutputs_eq {a : Progress.Allowed} {limit : ℕ} {preamble : Bytes}
    (h : Progress.Streaming a limit s.response s preamble (cfg.view s.response).progress) :
    cfg.streamOutputs s = (cfg.view s.response).progress.outputs := by
  have hall : ((cfg.view s.response).progress.outputs).filter (fun o => o.source = .stream s) =
      (cfg.view s.response).progress.outputs :=
    List.filter_eq_self.mpr fun o ho => decide_eq_true (h.source_of_mem_outputs ho)
  rw [← hall, View.progress_outputs, view, List.filter_filter]
  refine List.filter_congr fun o _ => ?_
  by_cases hsource : o.source = .stream s
  · simp [hsource, Source.request]
  · simp [hsource]

theorem streaming_of_reaches (hinit : cfg₀.Initial) (h₁ : Reaches (step mg) anyEvent cfg₀ cfg₁)
    (hhanded : cfg₁.HandedOver r s) (h : Reaches (step mg) (Conforming r) cfg₁ cfg)
    (hopen : cfg.IsOpen r) :
    Progress.Streaming .any (max (cfg₁.history r).passes (cfg₁.history r).posts) r s
      (cfg₁.world.streams s).mData (cfg.view r).progress := by
  have howned := Owned.of_reaches hinit h₁
  obtain ⟨-, hr, -, -⟩ := howned.responseEntry _ _ _ hhanded.entry
  refine view_of_reaches (P := fun v => Progress.Streaming .any
      (max (cfg₁.history r).passes (cfg₁.history r).posts) r s (cfg₁.world.streams s).mData
      v.progress) hinit h₁ h ?_ ?_ ?_
    (Nat.lt_of_lt_of_le hr (mRequestCounter_le_of_reaches h)) hopen
  · exact fun _ _ => streaming_of_handedOver howned hhanded
  · exact fun hle => absurd hr (Nat.not_lt.mpr hle)
  · exact fun cfg e ve v' hok habout hstreaming hstep =>
      hstreaming.step (conforming_view hok habout) hstep

/-- From its hand-over on, whatever a conforming producer and the event loop
do in whatever order, what is written for a stream is a prefix of the preamble
and the chunks the producer plans to send, each in its place and once; it is
all of them exactly when the stream is completed.  One wake-up at most is in
flight, and only while the slot is full. -/
theorem chunks_in_order (hinit : cfg₀.Initial) (h₁ : Reaches (step mg) anyEvent cfg₀ cfg₁)
    (hhanded : cfg₁.HandedOver r s) (h : Reaches (step mg) (Conforming r) cfg₁ cfg)
    (hopen : cfg.IsOpen r) {bodies : List Bytes}
    (hplan : (cfg.history r).puts s.number <+: plan bodies) :
    cfg.streamOutputs s <+: written s (cfg₁.world.streams s).mData (plan bodies) ∧
      (cfg.streamOutputs s = written s (cfg₁.world.streams s).mData (plan bodies) ↔
        (cfg.world.streams s).mState = .completed) ∧
      cfg.world.wakeups.count (cfg.conn r, r) ≤ 1 ∧
      (0 < cfg.world.wakeups.count (cfg.conn r, r) →
        (cfg.world.streams s).mState = .start ∨ (cfg.world.streams s).mState = .hasData ∨
          (cfg.world.streams s).mState = .close) := by
  have hstreaming := streaming_of_reaches hinit h₁ hhanded h hopen
  obtain rfl := hstreaming.owes.response
  rw [streamOutputs_eq hstreaming]
  obtain ⟨hpart, hall⟩ := hstreaming.outputs_of_plan hplan
  obtain ⟨hone, hfull⟩ := hstreaming.inFlight_le
  exact ⟨hpart, hall, hone, hfull⟩

theorem handedOver_openingStream :
    ((run (step .plain) (start asyncRoutes) openingStream).get rfl).HandedOver 0 ⟨0, 0⟩ := by
  refine ⟨rfl, rfl, rfl, rfl, rfl, List.mem_singleton_self _, fun s' hs' => ?_, fun t => ?_, rfl⟩
  · exact Option.some.inj (List.mem_singleton.mp hs')
  · cases t <;> nofun

theorem chunks_in_order_one : ∃ cfg₁ cfg : Config,
    run (step .plain) (start asyncRoutes) openingStream = some cfg₁ ∧
      cfg.streamOutputs ⟨0, 0⟩ = written ⟨0, 0⟩ (cfg₁.world.streams ⟨0, 0⟩).mData [.send [1]] ∧
      cfg.streamOutputs ⟨0, 0⟩ <+:
        written ⟨0, 0⟩ (cfg₁.world.streams ⟨0, 0⟩).mData (plan [[1]]) := by
  have hmeets : Meets (step .plain) (Conforming 0)
      ((run (step .plain) (start asyncRoutes) openingStream).get rfl)
      (.loop (.wakeup 0 0) :: sending (.send [1])) :=
    ⟨trivial, trivial, trivial, fun _ t => by cases t <;> nofun, fun _ => rfl, trivial, trivial,
      trivial, trivial, trivial⟩
  have hrun := reaches_of_run rfl hmeets
  have hopening : Reaches (step .plain) anyEvent (start asyncRoutes) _ :=
    reaches_of_run rfl (meets_anyEvent _ openingStream)
  have hplan : [Put.send [1]] <+: plan [[1]] := ⟨[.close], rfl⟩
  exact ⟨_, _, rfl, rfl,
    (chunks_in_order (initial_start _) hopening handedOver_openingStream hrun rfl hplan).1⟩

end Config

end Mgxx.Http
