import Mgxx.Concurrency.Keys
import Mgxx.Server.Connections

/-!
The pointers of the connections.  A listening connection points to an endpoint
that exists; an open accepted one points to a context of its own, which names the
endpoint that accepted it; and no context is left once its connection is closed.
So no handler is ever given a pointer it must not follow.
-/

namespace Mgxx

open Http Library

namespace ServerState

/-- The pointers are what the handlers take them for. -/
structure Wired (net : NetText) (s : ServerState) : Prop where
  unused : ∀ c, (s.connections c).status = .unused → s.connections c = {}
  listening : ∀ c, (s.connections c).isListening = true →
    (s.connections c).owner = none ∧ (s.connections c).fn = .eventManagerHandler ∧
      (s.connections c).data = some 'E' ∧
      ∃ k < s.mEndpoints.length, (s.connections c).fnData = .endpoint k
  peer : ∀ c, (s.connections c).status = .live → (s.connections c).isListening = false →
    (s.connections c).fn = .eventManagerContextHandler ∧ (s.connections c).data = some 'R' ∧
      ∃ p context, (s.connections c).fnData = .context p ∧ s.contexts p = some context ∧
        (s.connections c).owner = some context.mEndpoint ∧
        context.mIp = formatIp net (s.connections c).rem
  /-- A connection that is closed has let go of its context. -/
  held : ∀ c p, (s.connections c).fnData = .context p → (s.connections c).status = .live
  unique : ∀ c d p, (s.connections c).fnData = .context p →
    (s.connections d).fnData = .context p → c = d
  covered : ∀ p, s.contexts p ≠ none → ∃ c, (s.connections c).fnData = .context p
  bounded : ∀ c p, (s.connections c).fnData = .context p → p < s.allocated
  owner : ∀ c k, (s.connections c).owner = some k → k < s.mEndpoints.length

section Fields

variable (s : ServerState) (k c d p : ℕ) (cfg : Config)

theorem connections_settle : (s.settle k c cfg).connections =
    modifyAt s.connections c fun conn =>
      { conn with
        status := (cfg.world.connections c).status
        send := (cfg.world.connections c).send
        sent := (cfg.world.connections c).sent
        log := (cfg.world.connections c).log } := rfl

/-- What a handler cannot change of a connection. -/
theorem field_settle {β : Type} (field : MgConnection → β)
    (h : ∀ (conn : MgConnection) (status : Status) (send : Bytes) (sent : Bool)
      (log : List Output), field { conn with status, send, sent, log } = field conn) :
    field ((s.settle k c cfg).connections d) = field (s.connections d) := by
  rw [connections_settle, modifyAt_apply]
  split_ifs with hd
  · rw [h, hd]
  · rfl

@[simp] theorem isListening_settle :
    ((s.settle k c cfg).connections d).isListening = (s.connections d).isListening :=
  field_settle s k c d cfg MgConnection.isListening fun _ _ _ _ _ => rfl
@[simp] theorem fn_settle : ((s.settle k c cfg).connections d).fn = (s.connections d).fn :=
  field_settle s k c d cfg MgConnection.fn fun _ _ _ _ _ => rfl
@[simp] theorem fnData_settle :
    ((s.settle k c cfg).connections d).fnData = (s.connections d).fnData :=
  field_settle s k c d cfg MgConnection.fnData fun _ _ _ _ _ => rfl
@[simp] theorem data_settle : ((s.settle k c cfg).connections d).data = (s.connections d).data :=
  field_settle s k c d cfg MgConnection.data fun _ _ _ _ _ => rfl
@[simp] theorem rem_settle : ((s.settle k c cfg).connections d).rem = (s.connections d).rem :=
  field_settle s k c d cfg MgConnection.rem fun _ _ _ _ _ => rfl
@[simp] theorem owner_settle : ((s.settle k c cfg).connections d).owner = (s.connections d).owner :=
  field_settle s k c d cfg MgConnection.owner fun _ _ _ _ _ => rfl
@[simp] theorem allocated_settle : (s.settle k c cfg).allocated = s.allocated := rfl
@[simp] theorem length_settle :
    (s.settle k c cfg).mEndpoints.length = s.mEndpoints.length := List.length_set ..

theorem connections_settle_of_ne (h : d ≠ c) :
    (s.settle k c cfg).connections d = s.connections d := by
  rw [connections_settle, modifyAt_of_ne h]

theorem status_settle_self :
    ((s.settle k c cfg).connections c).status = (cfg.world.connections c).status := by
  simp [settle]

/-- A handler changes what a context takes part in, and leaves the rest of it. -/
theorem contexts_settle : (s.settle k c cfg).contexts p =
    if (s.connections c).fnData = .context p then
      (s.contexts p).map fun context => { context with
        toRemoteContext := (cfg.world.connections c).fnData.getD context.toRemoteContext }
    else s.contexts p := by
  cases hdata : (s.connections c).fnData with
  | null => simp [settle, hdata]
  | endpoint k => simp [settle, hdata]
  | context q =>
      by_cases hp : p = q
      · subst hp
        simp [settle, hdata]
      · simp [settle, hdata, modifyAt_of_ne hp, Ne.symm hp]

variable (net : NetText) (l : ℕ) (rem : MgAddr)

/-- A connection as `promote_context` leaves it. -/
theorem connections_promote_self :
    ((s.connect l c rem).promoteContext net k c).connections c =
      { status := .live, fn := .eventManagerContextHandler, fnData := .context s.allocated,
        data := some 'R', rem, owner := some k } := by
  simp [promoteContext, connect]

theorem connections_promote_of_ne (h : d ≠ c) :
    ((s.connect l c rem).promoteContext net k c).connections d = s.connections d := by
  simp [promoteContext, connect, modifyAt_of_ne h, Function.update_of_ne h]

theorem contexts_promote : ((s.connect l c rem).promoteContext net k c).contexts =
    Function.update s.contexts s.allocated
      (some { mEndpoint := k, mIp := formatIp net rem }) := by
  simp [promoteContext, connect]

end Fields

section Wired

variable {net : NetText} {mg : Mongoose} {s s' : ServerState} {c d k : ℕ}

theorem wired_start : Wired net start := by
  constructor <;> intros <;> simp_all [start]

theorem step_eq_some {e : ServerEvent} : s.step net mg e = some s' ↔
    s.Enabled e ∧ s.exec net mg e = some s' := by
  simp [step]

theorem enabled_loop {e : LoopEvent} (h : s.Enabled (.loop e)) :
    (s.connections e.conn).status = .live ∧
      (e.forPeer = true → (s.connections e.conn).isListening = false) := by
  cases e with
  | accept c => exact False.elim h
  | wakeup c id => exact ⟨h.1, fun hpeer => absurd hpeer (by simp [LoopEvent.forPeer])⟩
  | poll c => exact h
  | httpMessage c msg calls => exact h
  | write c => exact ⟨h.1, fun _ => h.2.1⟩
  | close c => exact h
  | mongoose c send => exact h

theorem forPeer_of_readsContext {e : LoopEvent} (h : e.readsContext = true) :
    e.forPeer = true := by
  cases e <;> simp_all [LoopEvent.readsContext, LoopEvent.forPeer]

theorem exec_worker {e : Event} (h : s.exec net mg (.worker k e) = some s') :
    ∃ site, s.mEndpoints[k]? = some site ∧ ∃ cfg, (s.config k site).step mg e = some cfg ∧
      s' = { s with
        mEndpoints := s.mEndpoints.set k (Site.ofConfig cfg)
        wakeups := cfg.world.wakeups
        threads := fun t => if e.thread = some t then ⟨k, cfg.threads t⟩ else s.threads t } := by
  simp only [exec, Option.bind_eq_bind, Option.bind_eq_some_iff, Option.some.injEq] at h
  obtain ⟨site, hsite, cfg, hcfg, rfl⟩ := h
  exact ⟨site, hsite, cfg, hcfg, rfl⟩

namespace Wired

theorem context_of_peer (h : Wired net s) (hlive : (s.connections c).status = .live)
    (hpeer : (s.connections c).isListening = false) :
    ∃ context, s.contextOf c = some context ∧ s.target c = some context.mEndpoint ∧
      (s.connections c).owner = some context.mEndpoint := by
  obtain ⟨hfn, -, p, context, hdata, hcontext, howner, -⟩ := h.peer c hlive hpeer
  exact ⟨context, by simp [contextOf, hdata, hcontext], by simp [target, hfn, hdata, hcontext],
    howner⟩

/-- Every event of an open connection finds an endpoint. -/
theorem exists_target (h : Wired net s) (hlive : (s.connections c).status = .live) :
    ∃ k site, s.target c = some k ∧ s.mEndpoints[k]? = some site := by
  cases hlistening : (s.connections c).isListening with
  | true =>
      obtain ⟨-, hfn, -, k, hk, hdata⟩ := h.listening c hlistening
      exact ⟨k, s.mEndpoints[k], by simp [target, hfn, hdata], List.getElem?_eq_getElem hk⟩
  | false =>
      obtain ⟨context, -, htarget, howner⟩ := h.context_of_peer hlive hlistening
      have hk := h.owner c _ howner
      exact ⟨_, s.mEndpoints[context.mEndpoint], htarget, List.getElem?_eq_getElem hk⟩

/-- A handler leaves the pointers as they are, unless it closes an accepted connection. -/
theorem settle (h : Wired net s) (hlive : (s.connections c).status = .live) {cfg : Config}
    (hstatus : (cfg.world.connections c).status ≠ .unused)
    (hheld : (s.connections c).isListening = false → (cfg.world.connections c).status = .live) :
    Wired net (s.settle k c cfg) := by
  have hstatus' (d : ℕ) (hd : d ≠ c) :
      ((s.settle k c cfg).connections d).status = (s.connections d).status := by
    rw [connections_settle_of_ne s k c d cfg hd]
  constructor <;> try simp only [isListening_settle, fn_settle, fnData_settle, data_settle,
    rem_settle, owner_settle, allocated_settle, length_settle, contexts_settle]
  case unused =>
    intro d hd
    by_cases hdc : d = c
    · rw [hdc, status_settle_self] at hd
      exact absurd hd hstatus
    · rw [connections_settle_of_ne s k c d cfg hdc] at hd ⊢
      exact h.unused d hd
  case listening => exact h.listening
  case peer =>
    intro d hd hpeer
    have hdlive : (s.connections d).status = .live := by
      by_cases hdc : d = c
      · rw [hdc, hlive]
      · rwa [hstatus' d hdc] at hd
    obtain ⟨hfn, hdata, p, context, hfnData, hcontext, howner, hip⟩ := h.peer d hdlive hpeer
    refine ⟨hfn, hdata, p, ?_⟩
    rw [hcontext]
    split_ifs
    · exact ⟨_, hfnData, rfl, howner, hip⟩
    · exact ⟨context, hfnData, rfl, howner, hip⟩
  case held =>
    intro d p hp
    by_cases hdc : d = c
    · rw [hdc, status_settle_self]
      refine hheld ?_
      by_contra hlistening
      obtain ⟨-, -, -, k, -, hk⟩ := h.listening c (by simpa using hlistening)
      rw [hdc, hk] at hp
      exact absurd hp (by simp)
    · rw [hstatus' d hdc]
      exact h.held d p hp
  case unique => exact h.unique
  case covered =>
    intro p hp
    apply h.covered p
    intro hnone
    simp [hnone] at hp
  case bounded => exact h.bounded
  case owner => exact h.owner

/-- The context of an accepted connection is deleted when it is closed, and no
connection points to it any more. -/
theorem delete (h : Wired net s) (hlive : (s.connections c).status = .live)
    (hpeer : (s.connections c).isListening = false) {cfg : Config}
    (hclosed : (cfg.world.connections c).status = .closed) :
    ∃ s', (s.settle k c cfg).deleteContext c = some s' ∧ Wired net s' := by
  obtain ⟨-, hmark, p, context, hdata, hcontext, -⟩ := h.peer c hlive hpeer
  have hp : (s.settle k c cfg).contexts p ≠ none := by
    simp [contexts_settle, hdata, hcontext]
  obtain ⟨context', hcontext'⟩ := Option.ne_none_iff_exists'.mp hp
  generalize hs₁ : s.settle k c cfg = s₁ at hcontext'
  have hdata₁ : (s₁.connections c).fnData = .context p := by rw [← hs₁, fnData_settle, hdata]
  have hmark₁ : (s₁.connections c).data = some 'R' := by rw [← hs₁, data_settle, hmark]
  refine ⟨_, by simp only [deleteContext, hmark₁, hdata₁, hcontext']; rfl, ?_⟩
  generalize hs' : ({ s₁ with
    connections := modifyAt s₁.connections c fun conn => { conn with fnData := .null, data := none }
    contexts := Function.update s₁.contexts p none } : ServerState) = s'
  have hself : (s'.connections c).status = .closed ∧ (s'.connections c).fnData = .null ∧
      (s'.connections c).isListening = false ∧ (s'.connections c).owner = (s.connections c).owner := by
    rw [← hs', ← hs₁]
    simp [hclosed, hpeer, status_settle_self]
  have hother (d : ℕ) (hd : d ≠ c) : s'.connections d = s.connections d := by
    rw [← hs', ← hs₁]
    simp [modifyAt_of_ne hd, connections_settle_of_ne s k c d cfg hd]
  have hcontexts (q : ℕ) (hq : q ≠ p) : s'.contexts q = s.contexts q := by
    rw [← hs', ← hs₁]
    simp [Function.update_of_ne hq, contexts_settle, hdata, Ne.symm hq]
  have hgone : s'.contexts p = none := by rw [← hs']; simp
  have hlength : s'.mEndpoints.length = s.mEndpoints.length := by rw [← hs', ← hs₁]; simp
  have hallocated : s'.allocated = s.allocated := by rw [← hs', ← hs₁]; rfl
  have hne (d q : ℕ) (hq : (s'.connections d).fnData = .context q) :
      d ≠ c ∧ q ≠ p ∧ (s.connections d).fnData = .context q := by
    have hd : d ≠ c := by
      rintro rfl
      rw [hself.2.1] at hq
      exact absurd hq (by simp)
    rw [hother d hd] at hq
    refine ⟨hd, ?_, hq⟩
    rintro rfl
    exact hd (h.unique d c q hq hdata)
  constructor
  case unused =>
    intro d hd
    have hdc : d ≠ c := by
      rintro rfl
      rw [hself.1] at hd
      exact absurd hd (by simp)
    rw [hother d hdc] at hd ⊢
    exact h.unused d hd
  case listening =>
    intro d hd
    have hdc : d ≠ c := by
      rintro rfl
      rw [hself.2.2.1] at hd
      exact absurd hd (by simp)
    rw [hother d hdc] at hd ⊢
    rw [hlength]
    exact h.listening d hd
  case peer =>
    intro d hd hdpeer
    have hdc : d ≠ c := by
      rintro rfl
      rw [hself.1] at hd
      exact absurd hd (by simp)
    rw [hother d hdc] at hd hdpeer ⊢
    obtain ⟨hfn, hdmark, q, qcontext, hq, hqcontext, hrest⟩ := h.peer d hd hdpeer
    have hqp : q ≠ p := by
      rintro rfl
      exact hdc (h.unique d c q hq hdata)
    exact ⟨hfn, hdmark, q, qcontext, hq, (hcontexts q hqp).trans hqcontext, hrest⟩
  case held =>
    intro d q hq
    obtain ⟨hd, -, hold⟩ := hne d q hq
    rw [hother d hd]
    exact h.held d q hold
  case unique =>
    intro d d' q hq hq'
    exact h.unique d d' q (hne d q hq).2.2 (hne d' q hq').2.2
  case covered =>
    intro q hq
    have hqp : q ≠ p := by
      rintro rfl
      exact hq hgone
    rw [hcontexts q hqp] at hq
    obtain ⟨d, hd⟩ := h.covered q hq
    have hdc : d ≠ c := by
      rintro rfl
      exact hqp (FnData.context.inj (hd.symm.trans hdata))
    exact ⟨d, by rw [hother d hdc, hd]⟩
  case bounded =>
    intro d q hq
    rw [hallocated]
    exact h.bounded d q (hne d q hq).2.2
  case owner =>
    intro d j hj
    rw [hlength]
    by_cases hdc : d = c
    · rw [hdc, hself.2.2.2] at hj
      exact h.owner c j hj
    · rw [hother d hdc] at hj
      exact h.owner d j hj

/-- What the steps of the workers leave alone. -/
theorem of_same (h : Wired net s) (hconns : s'.connections = s.connections)
    (hcontexts : s'.contexts = s.contexts) (hallocated : s'.allocated = s.allocated)
    (hlength : s'.mEndpoints.length = s.mEndpoints.length) : Wired net s' := by
  obtain ⟨hunused, hlistening, hpeer, hheld, hunique, hcovered, hbounded, howner⟩ := h
  constructor <;> rw [hconns]
  · exact hunused
  · rw [hlength]
    exact hlistening
  · rw [hcontexts]
    exact hpeer
  · exact hheld
  · exact hunique
  · rw [hcontexts]
    exact hcovered
  · rw [hallocated]
    exact hbounded
  · rw [hlength]
    exact howner

theorem listen (h : Wired net s) (hunused : (s.connections c).status = .unused)
    (routes : Endpoint) : Wired net (s.listen c routes) := by
  have hself : (s.listen c routes).connections c =
      { status := .live, isListening := true, fnData := .endpoint s.mEndpoints.length,
        data := some 'E' } := Function.update_self ..
  have hother (d : ℕ) (hd : d ≠ c) : (s.listen c routes).connections d = s.connections d :=
    Function.update_of_ne hd ..
  have hnone := h.unused c hunused
  have hlength : (s.listen c routes).mEndpoints.length = s.mEndpoints.length + 1 := by
    simp [ServerState.listen]
  -- the new connection holds no context, and the others are as they were
  have hdata (d p : ℕ) : ((s.listen c routes).connections d).fnData = .context p ↔
      (s.connections d).fnData = .context p := by
    by_cases hd : d = c
    · rw [hd, hself, hnone]
      simp
    · rw [hother d hd]
  constructor <;> try simp only [hdata]
  case unused =>
    intro d hd
    by_cases hdc : d = c
    · rw [hdc, hself] at hd
      exact absurd hd (by simp)
    · rw [hother d hdc] at hd ⊢
      exact h.unused d hd
  case listening =>
    intro d hd
    rw [hlength]
    by_cases hdc : d = c
    · rw [hdc, hself]
      exact ⟨rfl, rfl, rfl, _, Nat.lt_succ_self _, rfl⟩
    · rw [hother d hdc] at hd ⊢
      obtain ⟨howner, hfn, hmark, k, hk, hkdata⟩ := h.listening d hd
      exact ⟨howner, hfn, hmark, k, Nat.lt_succ_of_lt hk, hkdata⟩
  case peer =>
    intro d hlive hpeer
    by_cases hdc : d = c
    · rw [hdc, hself] at hpeer
      exact absurd hpeer (by simp)
    · rw [hother d hdc] at hlive hpeer ⊢
      exact h.peer d hlive hpeer
  case held =>
    intro d p hp
    have hlive := h.held d p hp
    rw [hother d]
    · exact hlive
    · rintro rfl
      exact absurd (hunused.symm.trans hlive) (by simp)
  case unique => exact h.unique
  case covered => exact h.covered
  case bounded => exact h.bounded
  case owner =>
    intro d k hk
    rw [hlength]
    by_cases hdc : d = c
    · rw [hdc, hself] at hk
      exact absurd hk (by simp)
    · rw [hother d hdc] at hk
      exact Nat.lt_succ_of_lt (h.owner d k hk)

/-- A connection that is accepted gets a context of its own. -/
theorem accept (h : Wired net s) {l : ℕ} (hlistening : (s.connections l).isListening = true)
    (hunused : (s.connections c).status = .unused) (rem : MgAddr) :
    ∃ k site, (s.connect l c rem).target c = some k ∧ s.mEndpoints[k]? = some site ∧
      (s.connections l).fnData = .endpoint k ∧
      Wired net ((s.connect l c rem).promoteContext net k c) := by
  obtain ⟨-, hfn, -, k, hk, hkdata⟩ := h.listening l hlistening
  have hnew : (s.connect l c rem).connections c =
      { status := .live, fn := (s.connections l).fn, fnData := (s.connections l).fnData, rem } :=
    Function.update_self ..
  refine ⟨k, s.mEndpoints[k], by simp [target, hnew, hfn, hkdata], List.getElem?_eq_getElem hk,
    hkdata, ?_⟩
  have hself := connections_promote_self s k c net l rem
  have hother (d : ℕ) (hd : d ≠ c) := connections_promote_of_ne s k c d net l rem hd
  have hcontexts := contexts_promote s k c net l rem
  have hallocated : ((s.connect l c rem).promoteContext net k c).allocated =
      s.allocated + 1 := rfl
  have hlength : ((s.connect l c rem).promoteContext net k c).mEndpoints.length =
      s.mEndpoints.length := rfl
  generalize (s.connect l c rem).promoteContext net k c = s' at *
  have hne (d p : ℕ) (hp : (s.connections d).fnData = .context p) : d ≠ c ∧ p ≠ s.allocated := by
    refine ⟨?_, Nat.ne_of_lt (h.bounded d p hp)⟩
    rintro rfl
    exact absurd (hunused.symm.trans (h.held d p hp)) (by simp)
  have hcases (d p : ℕ) (hp : (s'.connections d).fnData = .context p) :
      d = c ∧ p = s.allocated ∨ (s.connections d).fnData = .context p := by
    by_cases hd : d = c
    · left
      rw [hd, hself] at hp
      exact ⟨hd, (FnData.context.inj hp).symm⟩
    · right
      rwa [hother d hd] at hp
  constructor
  case unused =>
    intro d hd
    by_cases hdc : d = c
    · rw [hdc, hself] at hd
      exact absurd hd (by simp)
    · rw [hother d hdc] at hd ⊢
      exact h.unused d hd
  case listening =>
    intro d hd
    by_cases hdc : d = c
    · rw [hdc, hself] at hd
      exact absurd hd (by simp)
    · rw [hother d hdc] at hd ⊢
      rw [hlength]
      exact h.listening d hd
  case peer =>
    intro d hlive hpeer
    by_cases hdc : d = c
    · rw [hdc, hself, hcontexts]
      exact ⟨rfl, rfl, s.allocated, _, rfl, Function.update_self .., rfl, rfl⟩
    · rw [hother d hdc] at hlive hpeer ⊢
      obtain ⟨hfn, hmark, p, context, hp, hcontext, hrest⟩ := h.peer d hlive hpeer
      refine ⟨hfn, hmark, p, context, hp, ?_, hrest⟩
      rw [hcontexts, Function.update_of_ne (hne d p hp).2, hcontext]
  case held =>
    intro d p hp
    rcases hcases d p hp with ⟨rfl, -⟩ | hold
    · rw [hself]
    · rw [hother d (hne d p hold).1]
      exact h.held d p hold
  case unique =>
    intro d d' p hp hp'
    rcases hcases d p hp with ⟨rfl, rfl⟩ | hold
    · rcases hcases d' _ hp' with ⟨rfl, -⟩ | hold'
      · rfl
      · exact absurd rfl (hne d' _ hold').2
    · rcases hcases d' p hp' with ⟨rfl, rfl⟩ | hold'
      · exact absurd rfl (hne d _ hold).2
      · exact h.unique d d' p hold hold'
  case covered =>
    intro p hp
    by_cases hpa : p = s.allocated
    · exact ⟨c, by rw [hself, hpa]⟩
    · rw [hcontexts, Function.update_of_ne hpa] at hp
      obtain ⟨d, hd⟩ := h.covered p hp
      exact ⟨d, by rw [hother d (hne d p hd).1, hd]⟩
  case bounded =>
    intro d p hp
    rw [hallocated]
    rcases hcases d p hp with ⟨-, rfl⟩ | hold
    · exact Nat.lt_succ_self _
    · exact Nat.lt_succ_of_lt (h.bounded d p hold)
  case owner =>
    intro d j hj
    rw [hlength]
    by_cases hdc : d = c
    · rw [hdc, hself] at hj
      exact Option.some.inj hj ▸ hk
    · rw [hother d hdc] at hj
      exact h.owner d j hj

/-- The handshake finds the context of its own connection. -/
theorem tlsHs (h : Wired net s) (hlive : (s.connections c).status = .live)
    (hpeer : (s.connections c).isListening = false) (cert : Option TlsCertInfo) :
    ∃ s', s.setupContext c cert = some s' ∧ Wired net s' := by
  obtain ⟨-, -, p, context, hdata, hcontext, -⟩ := h.peer c hlive hpeer
  refine ⟨_, by simp only [setupContext, hdata, hcontext]; rfl, ?_⟩
  obtain ⟨hunused, hlistening, hpeers, hheld, hunique, hcovered, hbounded, howner⟩ := h
  refine ⟨hunused, hlistening, ?_, hheld, hunique, ?_, hbounded, howner⟩
  · intro d hd hdpeer
    obtain ⟨hfn, hmark, q, context', hq, hcontext', hrest⟩ := hpeers d hd hdpeer
    refine ⟨hfn, hmark, q, ?_⟩
    by_cases hqp : q = p
    · subst hqp
      obtain rfl := Option.some.inj (hcontext.symm.trans hcontext')
      exact ⟨_, hq, Function.update_self .., hrest⟩
    · exact ⟨context', hq, (Function.update_of_ne hqp ..).trans hcontext', hrest⟩
  · intro q hq
    apply hcovered q
    by_cases hqp : q = p
    · rw [hqp, hcontext]
      simp
    · exact fun hnone => hq ((Function.update_of_ne hqp ..).trans hnone)

/-- The handler of an event finds what it needs. -/
theorem handle (h : Wired net s) (mg : Mongoose) {e : LoopEvent} (henabled : s.Enabled (.loop e))
    {site : Site} (hsite : s.mEndpoints[k]? = some site) :
    ∃ s', s.handle mg k e = some s' ∧ Wired net s' := by
  obtain ⟨hlive, hpeer⟩ := enabled_loop henabled
  have hguard : ¬(e.readsContext = true ∧ (s.contextOf e.conn).isNone = true) := by
    rintro ⟨hreads, hnone⟩
    obtain ⟨context, hcontext, -⟩ := h.context_of_peer hlive (hpeer (forPeer_of_readsContext hreads))
    simp [hcontext] at hnone
  have hexec : s.handle mg k e = if e.isClose then
      (s.settle k e.conn (s.handled mg k site e)).deleteContext e.conn
        else some (s.settle k e.conn (s.handled mg k site e)) := by
    simp only [ServerState.handle, hsite, Option.bind_eq_bind, Option.bind_some, if_neg hguard]
  rw [hexec]
  cases hclose : e.isClose with
  | false =>
      -- an event that closes nothing leaves its connection open
      have hopen : ((s.handled mg k site e).world.connections e.conn).status = .live :=
        World.status_handle_live (fun c hc => by simp [hc, LoopEvent.isClose] at hclose) hlive
      exact ⟨_, rfl, h.settle hlive (by rw [hopen]; simp) fun _ => hopen⟩
  | true =>
      obtain ⟨c, rfl⟩ : ∃ c, e = .close c := by cases e <;> simp_all [LoopEvent.isClose]
      have hclosed : ((s.handled mg k site (.close c)).world.connections c).status = .closed := by
        simp [handled, World.handle, World.status_forget]
      cases hlistening : (s.connections c).isListening with
      | false => exact h.delete hlive hlistening hclosed
      | true =>
          have hmark : ((s.settle k c (s.handled mg k site (.close c))).connections c).data ≠
              some 'R' := by
            rw [data_settle, (h.listening c hlistening).2.2.1]
            decide
          have hused : ((s.handled mg k site (.close c)).world.connections c).status ≠ .unused := by
            rw [hclosed]
            simp
          refine ⟨_, if_pos hmark, h.settle hlive hused fun hpeer => ?_⟩
          exact absurd (hlistening.symm.trans hpeer) (by simp)

/-- Every event of mongoose finds what it needs. -/
theorem exec (h : Wired net s) (mg : Mongoose) {e : ServerEvent} (henabled : s.Enabled e)
    (he : e.isWorker = false) :
    ∃ s', s.exec net mg e = some s' ∧ Wired net s' := by
  cases e with
  | listen c routes => exact ⟨_, rfl, h.listen henabled routes⟩
  | accept l c rem =>
      obtain ⟨k, site, htarget, hsite, -, hwired⟩ := h.accept henabled.2.1 henabled.2.2 rem
      refine ⟨_, ?_, hwired⟩
      have hsite' : (s.connect l c rem).mEndpoints[k]? = some site := hsite
      simp only [ServerState.exec, htarget, hsite', Option.bind_eq_bind, Option.bind_some]
  | tlsHs c cert =>
      obtain ⟨k, site, htarget, hsite⟩ := h.exists_target henabled.1
      obtain ⟨s', hs', hwired⟩ := h.tlsHs henabled.1 henabled.2 cert
      refine ⟨s', ?_, hwired⟩
      simp only [ServerState.exec, htarget, hsite, Option.bind_eq_bind, Option.bind_some, hs']
  | loop e =>
      obtain ⟨k, site, htarget, hsite⟩ := h.exists_target (enabled_loop henabled).1
      obtain ⟨s', hs', hwired⟩ := h.handle mg henabled hsite
      refine ⟨s', ?_, hwired⟩
      simp only [ServerState.exec, htarget, Option.bind_eq_bind, Option.bind_some, hs']
  | worker k e => exact absurd he (by simp [ServerEvent.isWorker])

/-- Every step leaves the pointers as the handlers take them for. -/
theorem step (h : Wired net s) {e : ServerEvent} (hstep : s.step net mg e = some s') :
    Wired net s' := by
  obtain ⟨henabled, hexec⟩ := step_eq_some.mp hstep
  cases hworker : e.isWorker with
  | false =>
      obtain ⟨s'', hs'', hwired⟩ := h.exec mg henabled hworker
      exact Option.some.inj (hs''.symm.trans hexec) ▸ hwired
  | true =>
      obtain ⟨k, e', rfl⟩ : ∃ k e', e = .worker k e' := by
        cases e <;> simp_all [ServerEvent.isWorker]
      obtain ⟨site, -, cfg, -, rfl⟩ := exec_worker hexec
      exact h.of_same rfl rfl rfl (List.length_set ..)

theorem of_reaches {ok : ServerState → ServerEvent → Prop}
    (h : Reaches (ServerState.step net mg) ok start s) : Wired net s :=
  h.invariant wired_start fun _ _ _ hwired _ hstep => hwired.step hstep

end Wired

end Wired

end ServerState

end Mgxx
