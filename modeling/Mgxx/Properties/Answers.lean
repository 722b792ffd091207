import Mgxx.Concurrency.Use

/-!
One answer for each request.
-/

namespace Mgxx.Http

open Mgxx.Library

namespace Progress.Stage

variable {a : Allowed} {limit r : ℕ} {p : Progress}

theorem passes_le (h : Stage a limit r p) : p.passes ≤ limit := by
  rcases h.waiting_or_answered_or_streaming with ⟨n, -, hwaiting⟩ | ⟨hanswered, -⟩ |
    ⟨s, preamble, -, hstreaming⟩
  · exact hwaiting.passes
  · exact hanswered.passes
  · exact hstreaming.owes.passes

theorem posts_le (h : Stage a limit r p) : p.posts ≤ limit := by
  rcases h.waiting_or_answered_or_streaming with ⟨n, hn, hwaiting⟩ | ⟨hanswered, -⟩ |
    ⟨s, preamble, -, hstreaming⟩
  · -- a waiting request has room for the wake-up that is in flight
    have hposts := hwaiting.posts
    omega
  · exact hanswered.posts
  · exact hstreaming.owes.posts

/-- Once as many calls have passed the check as may, the response is settled
whenever no call is deciding on it. -/
theorem settled (h : Stage a limit r p) (hpasses : p.passes = limit)
    (hdeciding : ∀ t, (p.threads t).deciding ≠ some r) : p.mState ≠ .pending := by
  have honly {t : ℕ} {pc : Pc} (hthreads : p.Only t pc) (hpc : pc.deciding = some r) :
      p.mState ≠ .pending := by
    have hnot := hdeciding t
    rw [hthreads, Function.update_self] at hnot
    exact absurd hpc hnot
  cases h with
  | untouched _ _ _ hlimit => exact absurd (hpasses ▸ hlimit) (Nat.not_succ_le_self limit)
  | calling t pc _ hthreads hpc => exact honly hthreads (by cases hpc <;> rfl)
  | posted t pc _ hthreads hpc => exact honly hthreads (by cases hpc <;> rfl)
  | sending _ _ _ hstate => simp [hstate]
  | stored _ _ _ _ _ hstate => simp [hstate]
  | failed _ _ hstate => simp [hstate]
  | streaming s preamble hpreamble hstreaming => simp [hstreaming.mState_eq]
  | answered hanswered hrest =>
      cases hrest with
      | quiet hthreads hstate => exact hstate
      | stored _ _ _ _ hstate => exact hstate
      | send t hsend hthreads => exact honly hthreads rfl
      | decided t s hearly hthreads => exact honly hthreads rfl

/-- At most one response head is written. -/
theorem heads_le (h : Stage a limit r p) :
    (p.outputs.filter fun o => o.write.isHead).length ≤ 1 := by
  rcases h.outputs with hnil | ⟨o, houtputs, -⟩ | ⟨s, preamble, ops, houtputs⟩
  · simp [hnil]
  · rw [houtputs]
    exact List.length_filter_le ..
  · have hchunks : (ops.map fun op => op.output s).filter (fun o => o.write.isHead) = [] := by
      rw [List.filter_eq_nil_iff]
      intro o ho
      obtain ⟨op, -, rfl⟩ := List.mem_map.mp ho
      simp [Put.output, Write.isHead]
    rw [houtputs, written, List.filter_cons, hchunks]
    split_ifs <;> simp

end Progress.Stage

namespace Config

variable {mg : Mongoose} {cfg cfg₀ : Config} {r : ℕ}

theorem stage_of_conforming (hinit : cfg₀.Initial)
    (h : Reaches (step mg) (Conforming r) cfg₀ cfg) (hr : r < cfg.world.mRequestCounter)
    (hopen : cfg.IsOpen r) : Progress.Stage .any 1 r (cfg.view r).progress :=
  stage_of_reaches hinit h (fun _ e hok => ⟨hok, permitted_any r e⟩) hr hopen

/-- A call that finds the response settled changes nothing; `stream` returns null. -/
theorem begin_settled {t : ℕ} {call : Call} {cfg' : Config}
    (hstate : (cfg.world.responses r).mState ≠ .pending)
    (hstep : cfg.step mg (.begin t r call) = some cfg') :
    cfg'.world = cfg.world ∧ cfg'.threads = cfg.threads ∧
      (cfg'.history r).returned = (cfg.history r).returned ++ call.refusal := by
  obtain ⟨hidle, -, rfl⟩ := step_begin hstep
  have hthreads : Function.update cfg.threads t .idle = cfg.threads := by
    rw [← hidle, Function.update_eq_self]
  have hstate' : (cfg.shared r).response.mState ≠ .pending := hstate
  rw [Shared.begin_of_ne hstate']
  refine ⟨world_commit_of_same rfl rfl rfl rfl, hthreads, ?_⟩
  rw [history_commit, if_pos rfl]
  rfl

/-- As long as its calls do not overlap, a response takes one of them and turns
the others away, and its connection receives at most one response head. -/
theorem one_answer (hinit : cfg₀.Initial) (h : Reaches (step mg) (Conforming r) cfg₀ cfg)
    (hr : r < cfg.world.mRequestCounter) (hopen : cfg.IsOpen r) :
    (cfg.history r).passes ≤ 1 ∧ (cfg.history r).posts ≤ 1 ∧
      (((cfg.world.connections (cfg.conn r)).log.filter fun o =>
        o.source.request = some r).filter fun o => o.write.isHead).length ≤ 1 ∧
      ∀ t call cfg', (cfg.history r).passes = 1 → cfg.Conforming r (.begin t r call) →
        cfg.step mg (.begin t r call) = some cfg' →
        cfg'.world = cfg.world ∧ cfg'.threads = cfg.threads ∧
          (cfg'.history r).returned = (cfg.history r).returned ++ call.refusal := by
  have hstage := stage_of_conforming hinit h hr hopen
  refine ⟨hstage.passes_le, hstage.posts_le, hstage.heads_le, ?_⟩
  intro t call cfg' hpasses hok hstep
  refine begin_settled (hstage.settled hpasses fun t' => ?_) hstep
  rcases threads_view cfg r t' with hidle | hsame
  · rw [View.progress_threads, hidle]
    simp [Pc.deciding]
  · rw [View.progress_threads, hsame]
    exact hok rfl t'

theorem one_answer_second : ∃ cfg cfg' : Config,
    cfg.step .plain (.begin 1 0 (.stream 200 [])) = some cfg' ∧ (cfg.history 0).posts ≤ 1 ∧
      cfg'.world = cfg.world ∧ cfg'.threads = cfg.threads ∧
      (cfg'.history 0).returned = (cfg.history 0).returned ++ [none] := by
  have hmeets : Meets (step .plain) (Conforming 0) (start asyncRoutes)
      (firstRequest ++ [.begin 0 0 (.send 200 []), .advance 0 true, .advance 0 true,
        .advance 0 true, .loop (.wakeup 0 0)]) :=
    ⟨trivial, trivial, fun _ _ => nofun, trivial, trivial, trivial, trivial, trivial⟩
  have hrun := reaches_of_run rfl hmeets
  obtain ⟨-, hposts, -, hrefused⟩ := one_answer (initial_start _) hrun (by decide) rfl
  exact ⟨_, _, rfl, hposts, hrefused 1 (.stream 200 []) _ rfl (fun _ t => by cases t <;> nofun) rfl⟩

/-- Two threads that call `send` at the same time both find the response
pending and both post.  One wake-up is answered, the other is not found: three
response heads for one request. -/
theorem two_sends_answered : ∃ cfg,
    run (step .plain) (start asyncRoutes)
        (firstRequest ++ [.begin 0 0 (.send 200 []), .begin 1 0 (.send 201 []),
          .advance 0 true, .advance 1 true, .advance 0 true, .advance 1 true,
          .advance 0 true, .advance 1 true,
          .loop (.wakeup 0 0), .loop (.wakeup 0 0)]) = some cfg ∧
      (cfg.history 0).passes = 2 ∧ (cfg.history 0).posts = 2 ∧
      (cfg.world.connections 0).status = .live ∧
      (((cfg.world.connections 0).log.filter fun o =>
        o.source.request = some 0).filter fun o => o.write.isHead).length = 3 :=
  ⟨_, rfl, rfl, rfl, rfl, rfl⟩

end Config

end Mgxx.Http
