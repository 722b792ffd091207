import Mgxx.Concurrency.Lifecycle

/-!
How a request is used.  The conditions below are conditions on the events of a
run; under them, every state of the run finds the request in one of the
situations of its life, as long as its connection is open.
-/

namespace Mgxx.Http

open Mgxx.Library

namespace Config

/-- The calls on response `r` do not overlap: none begins while another is
between its check of `m_state` and its last store to it.  A stream of `r` has
one producer at a time, which calls `send` and `close` right after `wait` has
returned true.  It is so when one thread uses the response, and one the stream. -/
def Conforming (r : ℕ) (cfg : Config) : Event → Prop
  | .begin _ r' _ => r' = r → ∀ t, (cfg.threads t).deciding ≠ some r
  | .wait _ s => s.response = r → ∀ t, (cfg.threads t).stream ≠ some s
  | .put t s _ => s.response = r → cfg.threads t = .granted s
  | .loop _ | .headers _ _ | .advance _ _ => True

def StreamsOnly (r : ℕ) : Event → Prop
  | .begin _ r' (.send _ _) => r' ≠ r
  | .begin _ _ (.stream _ _) | .loop _ | .headers _ _ | .wait _ _ | .put _ _ _
  | .advance _ _ => True

/-- No wake-up of `r` is delivered while a call of `stream` is between the post
and the store of `streaming`. -/
def Timely (r : ℕ) (cfg : Config) (e : Event) : Prop :=
  ∀ c, e = .loop (.wakeup c r) → ∀ t, cfg.threads t ≠ .streamDecided r true

/-- No wake-up of `r` is delivered while a call of `stream` is between the store
of `streaming` and the read of `m_stream` for the return. -/
def Punctual (r : ℕ) (cfg : Config) (e : Event) : Prop :=
  ∀ c, e = .loop (.wakeup c r) → ∀ t, cfg.threads t ≠ .streamStored r

structure Permitted (a : Progress.Allowed) (r : ℕ) (cfg : Config) (e : Event) : Prop where
  send : ¬a.send → StreamsOnly r e
  early : ¬a.early → Timely r cfg e
  late : ¬a.late → Punctual r cfg e

variable {mg : Mongoose} {cfg cfg' : Config} {r : ℕ} {e : Event}

theorem permitted_any (r : ℕ) (e : Event) : cfg.Permitted .any r e :=
  ⟨fun h => absurd trivial h, fun h => absurd trivial h, fun h => absurd trivial h⟩

theorem threads_view_of_request {t : ℕ} (h : (cfg.threads t).request = some r) :
    (cfg.view r).threads t = cfg.threads t := if_pos h

variable (cfg r) in
theorem threads_view (t : ℕ) : (cfg.view r).threads t = .idle ∨
    (cfg.view r).threads t = cfg.threads t := by
  simp only [view]
  split_ifs
  · exact Or.inr rfl
  · exact Or.inl rfl

/-- The event of the program that a request has seen. -/
theorem event_of_about {ve : View.Event} : e.about mg cfg r = some ve →
    match ve with
    | .deliver => ∃ c, e = .loop (.wakeup c r)
    | .poll => e = .loop (.poll (cfg.conn r))
    | .release blocked => ∃ c, e = .loop (.write c) ∧ blocked = cfg.world.blocked mg c
    | .headers h => e = .headers r h
    | .begin t call => e = .begin t r call
    | .wait t s => e = .wait t s ∧ s.response = r
    | .put t s op => e = .put t s op ∧ s.response = r
    | .advance t answer => e = .advance t answer ∧ (cfg.threads t).request = some r := by
  intro habout
  cases e with
  | loop e =>
      cases e <;> simp only [Event.about, Option.ite_none_right_eq_some, Option.some.injEq,
        reduceCtorEq] at habout
      case poll c =>
        obtain ⟨rfl, rfl⟩ := habout
        rfl
      case wakeup c id =>
        obtain ⟨rfl, rfl⟩ := habout
        exact ⟨c, rfl⟩
      case write c =>
        subst habout
        exact ⟨c, rfl, rfl⟩
  | headers r' h =>
      simp only [Event.about, Option.ite_none_right_eq_some, Option.some.injEq] at habout
      obtain ⟨rfl, rfl⟩ := habout
      rfl
  | begin t r' call =>
      simp only [Event.about, Option.ite_none_right_eq_some, Option.some.injEq] at habout
      obtain ⟨rfl, rfl⟩ := habout
      rfl
  | wait t s =>
      simp only [Event.about, Option.ite_none_right_eq_some, Option.some.injEq] at habout
      obtain ⟨hs, rfl⟩ := habout
      exact ⟨rfl, hs⟩
  | put t s op =>
      simp only [Event.about, Option.ite_none_right_eq_some, Option.some.injEq] at habout
      obtain ⟨hs, rfl⟩ := habout
      exact ⟨rfl, hs⟩
  | advance t answer =>
      simp only [Event.about, Option.ite_none_right_eq_some, Option.some.injEq] at habout
      obtain ⟨hrequest, rfl⟩ := habout
      exact ⟨rfl, hrequest⟩

theorem conforming_view {ve : View.Event} (h : cfg.Conforming r e)
    (habout : e.about mg cfg r = some ve) : (cfg.view r).Conforming r ve := by
  have hevent := event_of_about habout
  cases ve with
  | begin t call =>
      obtain rfl := hevent
      intro t'
      rcases threads_view cfg r t' with hidle | hsame
      · rw [hidle]
        simp [Pc.deciding]
      · rw [hsame]
        exact h rfl t'
  | wait t s =>
      obtain ⟨rfl, hs⟩ := hevent
      intro t'
      rcases threads_view cfg r t' with hidle | hsame
      · rw [hidle]
        simp [Pc.stream]
      · rw [hsame]
        exact h hs t'
  | put t s op =>
      obtain ⟨rfl, hs⟩ := hevent
      have hpc : cfg.threads t = .granted s := h hs
      exact (threads_view_of_request (by rw [hpc]; exact congrArg some hs)).trans hpc
  | deliver | poll | release _ | headers _ | advance _ _ => trivial

theorem permitted_view {a : Progress.Allowed} {ve : View.Event} (h : cfg.Permitted a r e)
    (habout : e.about mg cfg r = some ve) : (cfg.view r).Permitted a r ve := by
  have hpc {t : ℕ} {pc : Pc} (hpc : (cfg.view r).threads t = pc) (hne : pc ≠ .idle) :
      cfg.threads t = pc := by
    rcases threads_view cfg r t with hidle | hsame
    · exact absurd (hpc.symm.trans hidle) hne
    · exact hsame.symm.trans hpc
  have hevent := event_of_about habout
  cases ve with
  | deliver =>
      obtain ⟨c, rfl⟩ := hevent
      refine ⟨fun t ht => ?_, fun t ht => ?_⟩
      · by_contra hearly
        exact h.early hearly c rfl t (hpc ht (by simp))
      · by_contra hlate
        exact h.late hlate c rfl t (hpc ht (by simp))
  | begin t call =>
      obtain rfl := hevent
      cases call with
      | send code body =>
          by_contra hsend
          exact h.send hsend rfl
      | stream code encoding => trivial
  | poll | release _ | headers _ | wait _ _ | put _ _ _ | advance _ _ => trivial

/-! ### Requests come and connections go -/

theorem conn_step (howned : Owned cfg) (hr : r < cfg.world.mRequestCounter)
    (hstep : cfg.step mg e = some cfg') : cfg'.conn r = cfg.conn r := by
  have hcommit {t r' : ℕ} {access : Access} (hlocal : Local cfg r' access) :
      (cfg.commit t r' access).conn r = cfg.conn r :=
    field_responses_commit AsyncResponse.mConn hlocal.mConn r
  cases e with
  | loop e =>
      obtain ⟨-, rfl⟩ := step_loop hstep
      exact World.mConn_handle hr e
  | headers r' h =>
      obtain rfl := step_headers hstep
      exact field_modifyAt (g := fun response => { response with mHeaders := h })
        AsyncResponse.mConn (fun _ => rfl) cfg.world.responses r' r
  | begin t r' call =>
      obtain ⟨-, -, rfl⟩ := step_begin hstep
      exact hcommit (local_of_mild (Owned.mild_begin r' call))
  | wait t s =>
      obtain ⟨-, -, granted, -, rfl⟩ := step_wait hstep
      cases granted <;> rfl
  | put t s op =>
      obtain ⟨-, hs, rfl⟩ := step_put hstep
      exact hcommit (local_of_mild (Owned.mild_put (howned.returned s.response s hs).2 op))
  | advance t answer =>
      rcases step_advance hstep with ⟨-, rfl⟩ | ⟨r', hreq, rfl⟩
      · rfl
      · exact hcommit (local_advance howned hreq answer)

/-- Workers touch neither the connections nor the endpoint. -/
theorem step_of_worker (hstep : cfg.step mg e = some cfg') (he : ∀ e', e ≠ .loop e') :
    cfg'.world.connections = cfg.world.connections ∧
      cfg'.world.toEndpoint = cfg.world.toEndpoint := by
  cases e with
  | loop e => exact absurd rfl (he e)
  | headers r' h =>
      obtain rfl := step_headers hstep
      exact ⟨rfl, rfl⟩
  | begin t r' call =>
      obtain ⟨-, -, rfl⟩ := step_begin hstep
      exact ⟨rfl, rfl⟩
  | wait t s =>
      obtain ⟨-, -, granted, -, rfl⟩ := step_wait hstep
      cases granted <;> exact ⟨rfl, rfl⟩
  | put t s op =>
      obtain ⟨-, -, rfl⟩ := step_put hstep
      exact ⟨rfl, rfl⟩
  | advance t answer =>
      rcases step_advance hstep with ⟨-, rfl⟩ | ⟨r', -, rfl⟩
      · exact ⟨rfl, rfl⟩
      · exact ⟨rfl, rfl⟩

/-- A step is a turn of the event loop or one of a worker. -/
theorem step_cases (hstep : cfg.step mg e = some cfg') :
    (∃ e', e = .loop e' ∧ cfg.world.Raises e' ∧
      cfg' = { cfg with world := cfg.world.handle mg e', history := record cfg.history e' }) ∨
    (∀ e', e ≠ .loop e') ∧ cfg'.world.connections = cfg.world.connections ∧
      cfg'.world.toEndpoint = cfg.world.toEndpoint := by
  by_cases he : ∃ e', e = .loop e'
  · obtain ⟨e, rfl⟩ := he
    exact Or.inl ⟨e, rfl, step_loop hstep⟩
  · have hnot : ∀ e', e ≠ .loop e' := fun e' h => he ⟨e', h⟩
    exact Or.inr ⟨hnot, step_of_worker hstep hnot⟩

theorem mRequestCounter_le_step (hstep : cfg.step mg e = some cfg') :
    cfg.world.mRequestCounter ≤ cfg'.world.mRequestCounter := by
  rcases step_cases hstep with ⟨e, rfl, -, rfl⟩ | ⟨-, -, hendpoint⟩
  · rcases World.mRequestCounter_handle mg cfg.world e with hsame | ⟨c, msg, calls, -, hadd⟩
    · exact Nat.le_of_eq hsame.symm
    · rw [hadd]
      exact Nat.le_succ _
  · rw [hendpoint]

theorem mRequestCounter_le_of_reaches {ok : Config → Event → Prop}
    (h : Reaches (step mg) ok cfg cfg') :
    cfg.world.mRequestCounter ≤ cfg'.world.mRequestCounter :=
  h.invariant (P := fun cfg' => cfg.world.mRequestCounter ≤ cfg'.world.mRequestCounter) le_rfl
    fun _ _ _ hle _ hstep => hle.trans (mRequestCounter_le_step hstep)

/-- The connection of a request does not open again. -/
theorem isOpen_of_step (howned : Owned cfg) (hr : r < cfg.world.mRequestCounter)
    (hstep : cfg.step mg e = some cfg') (hopen : cfg'.IsOpen r) : cfg.IsOpen r := by
  have hconn := conn_step howned hr hstep
  unfold IsOpen at hopen ⊢
  rw [hconn] at hopen
  rcases step_cases hstep with ⟨e, rfl, hraises, rfl⟩ | ⟨-, hconnections, -⟩
  · rcases World.status_handle hopen with hlive | rfl
    · exact hlive
    · exact absurd hraises (howned.identity r hr).2
  · rwa [hconnections] at hopen

theorem isOpen_of_reaches (howned : Owned cfg) (hr : r < cfg.world.mRequestCounter)
    (h : Reaches (step mg) anyEvent cfg cfg') (hopen : cfg'.IsOpen r) : cfg.IsOpen r := by
  refine (h.invariant (P := fun cfg' => Owned cfg' ∧ r < cfg'.world.mRequestCounter ∧
    (cfg'.IsOpen r → cfg.IsOpen r)) ⟨howned, hr, id⟩ ?_).2.2 hopen
  rintro cfg₁ e cfg₂ ⟨howned₁, hr₁, hopen₁⟩ - hstep
  exact ⟨howned₁.step hstep, Nat.lt_of_lt_of_le hr₁ (mRequestCounter_le_step hstep),
    fun hopen₂ => hopen₁ (isOpen_of_step howned₁ hr₁ hstep hopen₂)⟩

theorem log_step_of_not_live {d : ℕ}
    (hstep : cfg.step mg e = some cfg') (h : (cfg'.world.connections d).status ≠ .live) :
    (cfg'.world.connections d).log = (cfg.world.connections d).log := by
  rcases step_cases hstep with ⟨e, rfl, hraises, rfl⟩ | ⟨-, hconnections, -⟩
  · exact World.log_handle_of_not_live hraises h
  · rw [hconnections]

theorem output_mem_view (howned : Owned cfg) {d : ℕ} {o : Output}
    (ho : o ∈ (cfg.world.connections d).log) (hr : o.source.request = some r) :
    cfg.conn r = d ∧ o ∈ (cfg.view r).outputs := by
  obtain ⟨-, hconn⟩ := howned.output d o r ho hr
  have hconn : cfg.conn r = d := hconn
  refine ⟨hconn, ?_⟩
  simp only [view, List.mem_filter]
  exact ⟨by rwa [hconn], by simp [hr]⟩

theorem find_mPendingStreams_of_table (howned : Owned cfg)
    (h : (cfg.view r).table = none) :
    cfg.world.mPendingStreams.find (cfg.conn r) r = none := by
  cases hp : cfg.world.mPendingStreams.find (cfg.conn r) r with
  | none => rfl
  | some p =>
      obtain ⟨⟨n, -, rfl⟩, -⟩ := howned.streamEntry _ _ p hp
      simp [view, hp] at h

def fresh (c r : ℕ) (stream : ℕ → AsyncStream) : View where
  pending := true
  table := none
  shared :=
    { response := { mConn := c, mId := r }
      stream := stream
      made := 0
      history := {} }
  inFlight := 0
  threads _ := .idle
  outputs := []

theorem view_addResponse_new (howned : Owned cfg) (c : ℕ) :
    ({ cfg with world := cfg.world.addResponse c } : Config).view cfg.world.mRequestCounter =
      fresh c cfg.world.mRequestCounter
        fun n => cfg.world.streams ⟨cfg.world.mRequestCounter, n⟩ := by
  have hlt (n : ℕ) : ¬cfg.world.mRequestCounter + n < cfg.world.mRequestCounter := by omega
  have hresponse : (cfg.world.addResponse c).responses cfg.world.mRequestCounter =
      { mConn := c, mId := cfg.world.mRequestCounter } := by simp [World.addResponse]
  have hconn : ({ cfg with world := cfg.world.addResponse c } : Config).conn
      cfg.world.mRequestCounter = c := congrArg AsyncResponse.mConn hresponse
  have hentry : (cfg.world.addResponse c).mPendingResponses.find c cfg.world.mRequestCounter =
      some cfg.world.mRequestCounter := by
    rw [World.addResponse, NestedMap.find_set, if_pos ⟨rfl, rfl⟩]
  have hstream : cfg.world.mPendingStreams.find c cfg.world.mRequestCounter = none := by
    by_contra hsome
    obtain ⟨p, hp⟩ := Option.ne_none_iff_exists'.mp hsome
    exact hlt 0 (howned.streamEntry _ _ p hp).2.1
  have hcount : cfg.world.wakeups.count (c, cfg.world.mRequestCounter) = 0 :=
    List.count_eq_zero.mpr fun hmem => hlt 0 (howned.wakeup _ _ hmem).1
  have hlog : (cfg.world.connections c).log.filter
      (fun o => o.source.request = some cfg.world.mRequestCounter) = [] := by
    rw [List.filter_eq_nil_iff]
    intro o ho hsource
    exact hlt 0 (howned.output c o _ ho (of_decide_eq_true hsource)).1
  obtain ⟨hmade, hhistory⟩ := howned.unborn cfg.world.mRequestCounter le_rfl
  ext1 <;> simp only [view, hconn]
  · rw [hentry]
    rfl
  · exact congrArg Option.join hstream
  · simp only [shared, hresponse, hhistory]
    exact congrArg (fun made => Shared.mk _ _ made _) hmade
  · exact hcount
  · funext t
    exact if_neg fun hreq => hlt 0 (howned.thread t _ hreq)
  · exact hlog

theorem view_new (howned : Owned cfg) (hstep : cfg.step mg e = some cfg')
    (hold : cfg.world.mRequestCounter ≤ r) (hnew : r < cfg'.world.mRequestCounter) :
    ∃ c stream, cfg'.view r = fresh c r stream := by
  rcases step_cases hstep with ⟨e, rfl, -, rfl⟩ | ⟨-, -, hendpoint⟩
  · rcases World.mRequestCounter_handle mg cfg.world e with hsame | ⟨c, msg, calls, rfl, hadd⟩
    · exact absurd (hsame ▸ hnew) (Nat.not_lt.mpr hold)
    · obtain rfl : r = cfg.world.mRequestCounter := by
        refine Nat.le_antisymm (Nat.le_of_lt_succ ?_) hold
        simpa only [hadd, World.addResponse] using hnew
      refine ⟨c, fun n => cfg.world.streams ⟨cfg.world.mRequestCounter, n⟩, ?_⟩
      simp only [hadd, record]
      exact view_addResponse_new howned c
  · rw [hendpoint] at hnew
    exact absurd hnew (Nat.not_lt.mpr hold)

/-- The induction rule for what is said of one request: what a request that comes in
meets, and every step of its view keeps, holds while its connection is open. -/
theorem view_of_reaches {ok : Config → Event → Prop} {P : View → Prop} {cfg₀ cfg₁ : Config}
    (hinit : cfg₀.Initial) (h₁ : Reaches (step mg) anyEvent cfg₀ cfg₁)
    (h : Reaches (step mg) ok cfg₁ cfg)
    (hstart : r < cfg₁.world.mRequestCounter → cfg₁.IsOpen r → P (cfg₁.view r))
    (hfresh : cfg₁.world.mRequestCounter ≤ r → ∀ c stream, P (fresh c r stream))
    (hkeeps : ∀ cfg e ve v', ok cfg e → e.about mg cfg r = some ve → P (cfg.view r) →
      (cfg.view r).step r ve = some v' → P v')
    (hr : r < cfg.world.mRequestCounter) (hopen : cfg.IsOpen r) : P (cfg.view r) := by
  refine (h.invariant_of (J := Owned)
    (P := fun cfg => cfg₁.world.mRequestCounter ≤ cfg.world.mRequestCounter ∧
      (r < cfg.world.mRequestCounter → cfg.IsOpen r → P (cfg.view r)))
    (fun cfg' h' => ?_) ⟨le_rfl, hstart⟩ ?_).2 hr hopen
  · exact Owned.of_reaches hinit (h₁.trans (h'.mono fun _ _ _ => trivial))
  · rintro cfg e cfg' howned ⟨hle, hview⟩ hok hstep
    refine ⟨hle.trans (mRequestCounter_le_step hstep), fun hr hopen => ?_⟩
    by_cases hold : r < cfg.world.mRequestCounter
    · have hbefore := hview hold (isOpen_of_step howned hold hstep hopen)
      have hnext := view_step mg howned hold hstep hopen
      cases habout : e.about mg cfg r with
      | none =>
          rw [habout] at hnext
          exact hnext ▸ hbefore
      | some ve =>
          rw [habout] at hnext
          exact hkeeps cfg e ve _ hok habout hbefore hnext
    · obtain ⟨c, stream, hnew⟩ := view_new howned hstep (Nat.not_lt.mp hold) hr
      rw [hnew]
      exact hfresh (hle.trans (Nat.not_lt.mp hold)) c stream

/-- In every run that uses request `r` as it should be used, the request is in
one of the situations of its life while its connection is open. -/
theorem stage_of_reaches {a : Progress.Allowed} {ok : Config → Event → Prop} {cfg₀ : Config}
    (hinit : cfg₀.Initial) (h : Reaches (step mg) ok cfg₀ cfg)
    (hok : ∀ cfg e, ok cfg e → cfg.Conforming r e ∧ cfg.Permitted a r e)
    (hr : r < cfg.world.mRequestCounter) (hopen : cfg.IsOpen r) :
    Progress.Stage a 1 r (cfg.view r).progress := by
  refine view_of_reaches (P := fun v => Progress.Stage a 1 r v.progress) hinit (.refl cfg₀) h
    ?_ ?_ ?_ hr hopen
  · exact fun hr => absurd hr (hinit.not_lt r)
  · intro _ c stream
    exact .untouched ⟨rfl, rfl, rfl, rfl, rfl, fun _ => rfl, Nat.zero_le _, le_rfl⟩ rfl rfl le_rfl
  · intro cfg e ve v' hok' habout hstage hstep
    obtain ⟨hconforming, hpermitted⟩ := hok cfg e hok'
    exact hstage.step (conforming_view hconforming habout) (permitted_view hpermitted habout) hstep

end Config

end Mgxx.Http
