import Mgxx.Server.Refinement

/-!
A server with several endpoints.  The endpoints share the manager, its queue of
wake-ups and the threads, and they count their requests each for itself, so that
two of them use the same ids; the connections keep them apart.
-/

namespace Mgxx

open Http Library

namespace ServerState

variable {net : NetText} {mg : Mongoose} {s s' : ServerState}

/-- Every event that mongoose raises is handled: no handler follows a pointer that
is null, dangling or of another type. -/
theorem exists_step_of_reaches (h : Reaches (step net mg) anyEvent start s)
    {e : ServerEvent} (henabled : s.Enabled e) (he : e.isWorker = false) :
    ∃ s', s.step net mg e = some s' := by
  obtain ⟨s', hexec, -⟩ := (Wired.of_reaches h).exec mg henabled he
  exact ⟨s', step_eq_some.mpr ⟨henabled, hexec⟩⟩

def exampleAddr : MgAddr := ⟨fun i => UInt8.ofNat (i + 1), (31, 144), false⟩

def twoEndpoints : List ServerEvent := [
  .listen 0 Config.asyncRoutes, .listen 1 Config.asyncRoutes,
  .accept 0 2 exampleAddr, .accept 1 3 exampleAddr,
  .loop (.httpMessage 2 ⟨[], []⟩ []), .loop (.httpMessage 3 ⟨[], []⟩ [])]

theorem exists_step_of_reaches_close : ∃ s s',
    run (step groupsText .plain) start twoEndpoints = some s ∧
      s.step groupsText .plain (.loop (.close 2)) = some s' := by
  have hrun : Reaches (step groupsText .plain) anyEvent start _ :=
    reaches_of_run rfl (meets_anyEvent _ twoEndpoints)
  obtain ⟨s', hs'⟩ := exists_step_of_reaches hrun (e := .loop (.close 2)) (by decide) rfl
  exact ⟨_, s', rfl, hs'⟩

/-- An open accepted connection: the ones that have a context. -/
def IsPeer (s : ServerState) (c : ℕ) : Prop :=
  (s.connections c).status = .live ∧ (s.connections c).isListening = false

/-- There is one context for each open accepted connection and no other: it names the
endpoint that accepted the connection, and shows the address of its peer. -/
theorem contexts_of_reaches (h : Reaches (step net mg) anyEvent start s) :
    (∀ p, s.contexts p ≠ none ↔
      ∃! c, s.IsPeer c ∧ (s.connections c).fnData = .context p) ∧
    ∀ c, s.IsPeer c → ∃ p context, (s.connections c).fnData = .context p ∧
      s.contexts p = some context ∧ (s.connections c).owner = some context.mEndpoint ∧
      context.mEndpoint < s.mEndpoints.length ∧
      context.mIp = formatIp net (s.connections c).rem := by
  have hw := Wired.of_reaches h
  refine ⟨fun p => ⟨fun hp => ?_, ?_⟩, ?_⟩
  · obtain ⟨c, hc⟩ := hw.covered p hp
    refine ⟨c, ⟨⟨hw.held c p hc, ?_⟩, hc⟩, fun d hd => hw.unique d c p hd.2 hc⟩
    by_contra hlistening
    obtain ⟨-, -, -, k, -, hk⟩ := hw.listening c (by simpa using hlistening)
    exact absurd (hk.symm.trans hc) (by simp)
  · rintro ⟨c, ⟨⟨hlive, hpeer⟩, hc⟩, -⟩
    obtain ⟨-, -, q, context, hq, hcontext, -⟩ := hw.peer c hlive hpeer
    obtain rfl := FnData.context.inj (hq.symm.trans hc)
    rw [hcontext]
    simp
  · rintro c ⟨hlive, hpeer⟩
    obtain ⟨-, -, p, context, hp, hcontext, howner, hip⟩ := hw.peer c hlive hpeer
    exact ⟨p, context, hp, hcontext, howner, hw.owner c _ howner, hip⟩

theorem contexts_of_reaches_two : ∃ s,
    run (step groupsText .plain) start twoEndpoints = some s ∧
      ∃ p context, (s.connections 3).fnData = .context p ∧ s.contexts p = some context ∧
        (s.connections 3).owner = some context.mEndpoint ∧
        context.mEndpoint < s.mEndpoints.length ∧
        context.mIp = formatIp groupsText (s.connections 3).rem := by
  have hrun : Reaches (step groupsText .plain) anyEvent start _ :=
    reaches_of_run rfl (meets_anyEvent _ twoEndpoints)
  exact ⟨_, rfl, (contexts_of_reaches hrun).2 3 ⟨rfl, rfl⟩⟩

/-- The part of each endpoint is a state that a program with this one endpoint can reach. -/
theorem slice_of_reaches (h : Reaches (step net mg) anyEvent start s) {k : ℕ} {site : Site}
    (hsite : s.mEndpoints[k]? = some site) :
    ∃ routes, Reaches (Config.step mg) anyEvent (Config.start routes) (s.slice k site) :=
  (parted_of_reaches h).reaches k site hsite

theorem slice_of_reaches_two : ∃ s site,
    run (step groupsText .plain) start twoEndpoints = some s ∧ s.mEndpoints[1]? = some site ∧
      site.mRequestCounter = 1 ∧
      ∃ routes, Reaches (Config.step .plain) anyEvent (Config.start routes) (s.slice 1 site) := by
  have hrun : Reaches (step groupsText .plain) anyEvent start _ :=
    reaches_of_run rfl (meets_anyEvent _ twoEndpoints)
  exact ⟨_, _, rfl, rfl, rfl, slice_of_reaches hrun rfl⟩

/-- As long as no event concerns an endpoint, its part stays as it is, whatever the
other endpoints do. -/
theorem slice_of_unconcerned (h : Reaches (step net mg) anyEvent start s) {k : ℕ}
    {site : Site} (hsite : s.mEndpoints[k]? = some site)
    (hrun : Reaches (step net mg) (fun s e => s.concerns e ≠ some k) s s') :
    s'.mEndpoints[k]? = some site ∧ s'.slice k site = s.slice k site := by
  refine (hrun.invariant (P := fun t => Parted net mg t ∧
    t.mEndpoints[k]? = some site ∧ t.slice k site = s.slice k site)
    ⟨parted_of_reaches h, hsite, rfl⟩ ?_).2
  rintro t e t' ⟨hparted, hsite, hslice⟩ hconcerns hstep
  obtain ⟨hsite', hslice'⟩ := hparted.unconcerned hstep hsite hconcerns
  exact ⟨hparted.step hstep, hsite', hslice'.trans hslice⟩

/-- The second endpoint answers its request; the first one sees nothing of it. -/
def answering : List ServerEvent := [
  .worker 1 (.begin 0 0 (.send 200 (text "ok"))), .worker 1 (.advance 0 true),
  .worker 1 (.advance 0 true), .worker 1 (.advance 0 true), .loop (.wakeup 3 0)]

theorem slice_of_unconcerned_two : ∃ s s' site,
    run (step groupsText .plain) start twoEndpoints = some s ∧
      run (step groupsText .plain) s answering = some s' ∧
      s.mEndpoints[0]? = some site ∧ (s'.connections 3).send ≠ [] ∧
      s'.mEndpoints[0]? = some site ∧ s'.slice 0 site = s.slice 0 site := by
  have hrun : Reaches (step groupsText .plain) anyEvent start _ :=
    reaches_of_run rfl (meets_anyEvent _ twoEndpoints)
  have hrest (s s' : ServerState) (h : run (step groupsText .plain) s answering = some s')
      (hmeets : Meets (step groupsText .plain) (fun s e => s.concerns e ≠ some 0) s answering) :=
    reaches_of_run h hmeets
  refine ⟨_, _, _, rfl, rfl, rfl, by decide +kernel, slice_of_unconcerned hrun rfl
    (hrest _ _ rfl ⟨?_, ?_, ?_, ?_, ?_, trivial⟩)⟩
  · decide
  · decide
  · decide
  · decide
  · decide

/-- A wake-up names a request of the endpoint that accepted the connection, and this
request came over the connection. -/
theorem request_of_wakeup (h : Reaches (step net mg) anyEvent start s) {c id : ℕ}
    (hmem : (c, id) ∈ s.wakeups) : ∃ k site, (s.connections c).owner = some k ∧
      s.mEndpoints[k]? = some site ∧ id < site.mRequestCounter ∧
      (site.responses id).mConn = c := by
  have hparted := parted_of_reaches h
  obtain ⟨k, howner⟩ := Option.ne_none_iff_exists'.mp (hparted.wakeups (c, id) hmem)
  have hk := hparted.wired.owner c k howner
  have hsite : s.mEndpoints[k]? = some s.mEndpoints[k] := List.getElem?_eq_getElem hk
  have hslice : (c, id) ∈ (s.slice k s.mEndpoints[k]).world.wakeups :=
    List.mem_filter.mpr ⟨hmem, owns_iff.mpr howner⟩
  obtain ⟨hlt, hconn⟩ := (hparted.owned hsite).wakeup c id hslice
  exact ⟨k, _, howner, hsite, hlt, hconn⟩

def posting : List ServerEvent := twoEndpoints ++
  [.worker 0 (.begin 0 0 (.send 200 [])), .worker 0 (.advance 0 true),
    .worker 0 (.advance 0 true), .worker 1 (.begin 1 0 (.send 200 [])),
    .worker 1 (.advance 1 true), .worker 1 (.advance 1 true)]

theorem request_of_wakeup_two : ∃ s, run (step groupsText .plain) start posting = some s ∧
    s.wakeups = [(2, 0), (3, 0)] ∧ ∃ k site, (s.connections 3).owner = some k ∧
      s.mEndpoints[k]? = some site ∧ 0 < site.mRequestCounter ∧
      (site.responses 0).mConn = 3 := by
  have hrun : Reaches (step groupsText .plain) anyEvent start _ :=
    reaches_of_run rfl (meets_anyEvent _ posting)
  exact ⟨_, rfl, rfl, request_of_wakeup hrun (by decide)⟩

end ServerState

end Mgxx
