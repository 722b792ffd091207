import Mgxx.Server.Slices

/-!
Every step of the server in the parts of its endpoints, and every run.
-/

namespace Mgxx

open Http Library

namespace ServerState

/-- Each endpoint's part is a state its own program can reach; the wake-ups of the
manager are all for accepted connections, and a thread that is busy works for an
endpoint that exists. -/
structure Parted (net : NetText) (mg : Mongoose) (s : ServerState) :
    Prop where
  wired : Wired net s
  reaches : ∀ k site, s.mEndpoints[k]? = some site →
    ∃ routes, Reaches (Config.step mg) anyEvent (Config.start routes) (s.slice k site)
  wakeups : ∀ x ∈ s.wakeups, (s.connections x.1).owner ≠ none
  threads : ∀ t, (s.threads t).pc = .idle ∨ (s.threads t).site < s.mEndpoints.length

inductive PartStep (mg : Mongoose) (s : ServerState) (e : ServerEvent) (s' : ServerState) (k : ℕ)
    (site' : Site) : Prop
  | made (routes : Endpoint) (hnone : s.mEndpoints[k]? = none)
      (hstart : s'.slice k site' = Config.start routes)
  | idle (hsite : s.mEndpoints[k]? = some site') (hslice : s'.slice k site' = s.slice k site')
  | step (site : Site) (e' : Event) (hconcerns : s.concerns e = some k) (hpart : e.part = some e')
      (hsite : s.mEndpoints[k]? = some site)
      (hstep : (s.slice k site).step mg e' = some (s'.slice k site'))

variable {net : NetText} {mg : Mongoose} {s s' : ServerState} {c k : ℕ}
  {site site' : Site} {e : ServerEvent} {rem : MgAddr}

theorem parted_start : Parted net mg start where
  wired := wired_start
  reaches k site hk := absurd hk (by simp [start])
  wakeups x hx := absurd hx (by simp [start])
  threads t := Or.inl rfl

theorem getElem?_set_self {l : List Site} {x y : Site} (hk : l[k]? = some y)
    (hget : (l.set k x)[k]? = some site') : x = site' := by
  rw [List.getElem?_set_self (List.getElem?_eq_some_iff.mp hk).1] at hget
  exact Option.some.inj hget

namespace Parted

variable (h : Parted net mg s)
include h

theorem owned (hsite : s.mEndpoints[k]? = some site) : Owned (s.slice k site) := by
  obtain ⟨routes, hreaches⟩ := h.reaches k site hsite
  exact Owned.of_reaches (Config.initial_start routes) hreaches

/-- Nothing is filed under a connection that the endpoint has not accepted. -/
theorem not_keys (hsite : s.mEndpoints[k]? = some site)
    (howner : (s.connections c).owner ≠ some k) : ¬(s.config k site).world.Keys c := by
  obtain ⟨routes, hreaches⟩ := h.reaches k site hsite
  intro hkeys
  have hlive := Config.keyed_of_reaches (Config.initial_start routes) hreaches c hkeys
  have hown : s.owns k c = true := Config.own_of_status (s.config k site)
    (by rw [show ((s.config k site).restrict (s.owns k)).world.connections c =
      (s.slice k site).world.connections c from rfl, hlive]; simp)
  exact howner (owns_iff.mp hown)

theorem ne_of_mem_wakeups (howner : (s.connections c).owner = none) :
    ∀ x ∈ s.wakeups, x.1 ≠ c := by
  rintro x hx rfl
  exact h.wakeups x hx howner

theorem partStep_listen (hunused : (s.connections c).status = .unused) (routes : Endpoint)
    (hsite' : (s.listen c routes).mEndpoints[k]? = some site') :
    PartStep mg s (.listen c routes) (s.listen c routes) k site' := by
  have hslice := slice_listen h.wired hunused routes k site'
  have hget : (s.mEndpoints ++ [.start routes])[k]? = some site' := hsite'
  rcases Nat.lt_or_ge k s.mEndpoints.length with hlt | hge
  · exact .idle (by rwa [List.getElem?_append_left hlt] at hget) hslice
  · rw [List.getElem?_append_right hge] at hget
    have hk : k = s.mEndpoints.length := by
      have := (List.getElem?_eq_some_iff.mp hget).1
      simp at this
      omega
    subst hk
    obtain rfl : Site.start routes = site' := by simpa using hget
    exact .made routes (List.getElem?_eq_none (Nat.le_refl _))
      (hslice.trans (slice_start h.wired h.threads routes))

theorem partStep_accept {l : ℕ} (henabled : s.Enabled (.accept l c rem))
    (hexec : s.exec net mg (.accept l c rem) = some s')
    (hsite' : s'.mEndpoints[k]? = some site') : PartStep mg s (.accept l c rem) s' k site' := by
  obtain ⟨-, hlistening, hunused⟩ := henabled
  obtain ⟨j, site, htarget, hsite, hdata, -⟩ := h.wired.accept hlistening hunused rem
  have hnew : s' = (s.connect l c rem).promoteContext net j c := by
    have hsite₁ : (s.connect l c rem).mEndpoints[j]? = some site := hsite
    simp only [exec, htarget, hsite₁, Option.bind_eq_bind, Option.bind_some] at hexec
    exact (Option.some.inj hexec).symm
  have hnone : ∀ x ∈ s.wakeups, x.1 ≠ c := by
    refine h.ne_of_mem_wakeups ?_
    rw [h.wired.unused c hunused]
  subst hnew
  have hold : s.mEndpoints[k]? = some site' := hsite'
  by_cases hk : k = j
  · subst hk
    refine .step site' (.loop (.accept c)) ?_ rfl hold
      (slice_accept mg site' h.wired hunused hnone l rem).1
    obtain ⟨-, hfn, -⟩ := h.wired.listening l hlistening
    simp [concerns, target, hfn, hdata]
  · obtain ⟨-, hothers⟩ := slice_accept mg site' h.wired hunused hnone l rem
    exact .idle hold (hothers k hk site')

theorem partStep_loop {e : LoopEvent} (henabled : s.Enabled (.loop e))
    (hexec : s.exec net mg (.loop e) = some s')
    (hsite' : s'.mEndpoints[k]? = some site') : PartStep mg s (.loop e) s' k site' := by
  obtain ⟨hlive, -⟩ := enabled_loop henabled
  obtain ⟨j, site, htarget, hsite⟩ := h.wired.exists_target hlive
  have hhandle : s.handle mg j e = some s' := by
    simpa only [exec, htarget, Option.bind_eq_bind, Option.bind_some] using hexec
  cases hlistening : (s.connections e.conn).isListening with
  | true =>
      obtain ⟨hnone, -⟩ := h.wired.listening e.conn hlistening
      obtain ⟨hendpoints, hslice⟩ := slice_handle_of_listening h.wired henabled hlistening
        (h.not_keys hsite (by rw [hnone]; simp)) (h.ne_of_mem_wakeups hnone) hsite hhandle
      exact .idle (hendpoints ▸ hsite') (hslice k site')
  | false =>
      obtain ⟨context, -, htarget', howner⟩ := h.wired.context_of_peer hlive hlistening
      obtain rfl : j = context.mEndpoint := Option.some.inj (htarget.symm.trans htarget')
      obtain ⟨hendpoints, -⟩ := handle_fields hsite hhandle
      rw [hendpoints] at hsite'
      by_cases hk : k = context.mEndpoint
      · subst hk
        obtain rfl := getElem?_set_self hsite hsite'
        exact .step site (.loop e) howner rfl hsite
          (slice_handle_self h.wired henabled hlistening howner hsite hhandle)
      · rw [List.getElem?_set_ne (Ne.symm hk)] at hsite'
        refine .idle hsite' (slice_handle_of_ne h.wired henabled hlistening ?_ hsite hhandle site')
        rw [howner]
        exact fun heq => hk (Option.some.inj heq).symm

theorem partStep_worker {j : ℕ} {e : Event} (henabled : s.Enabled (.worker j e))
    (hexec : s.exec net mg (.worker j e) = some s')
    (hsite' : s'.mEndpoints[k]? = some site') : PartStep mg s (.worker j e) s' k site' := by
  obtain ⟨site, cfg, hsite, hendpoints, hstep, hothers, -⟩ :=
    slice_worker henabled hexec fun site hsite => h.owned hsite
  rw [hendpoints] at hsite'
  by_cases hk : k = j
  · subst hk
    obtain rfl := getElem?_set_self hsite hsite'
    exact .step site e rfl rfl hsite hstep
  · rw [List.getElem?_set_ne (Ne.symm hk)] at hsite'
    exact .idle hsite' (hothers k hk site')

/-- A step of the server is a step of the endpoint it concerns, or of none. -/
theorem partStep (hstep : s.step net mg e = some s')
    (hsite' : s'.mEndpoints[k]? = some site') : PartStep mg s e s' k site' := by
  obtain ⟨henabled, hexec⟩ := step_eq_some.mp hstep
  cases e with
  | listen c routes =>
      obtain rfl := Option.some.inj hexec
      exact h.partStep_listen henabled routes hsite'
  | accept l c rem => exact h.partStep_accept henabled hexec hsite'
  | tlsHs c cert =>
      have hsetup : s.setupContext c cert = some s' := by
        simp only [exec, Option.bind_eq_bind, Option.bind_eq_some_iff] at hexec
        obtain ⟨-, -, -, -, hsetup⟩ := hexec
        exact hsetup
      obtain ⟨hendpoints, hslice⟩ := slice_setupContext hsetup k site'
      exact .idle (hendpoints ▸ hsite') hslice
  | loop e => exact h.partStep_loop henabled hexec hsite'
  | worker j e => exact h.partStep_worker henabled hexec hsite'

/-- No endpoint goes away; the wake-ups that a step leaves are for accepted connections,
and its threads work for endpoints that exist. -/
theorem bounds (hstep : s.step net mg e = some s') :
    s.mEndpoints.length ≤ s'.mEndpoints.length ∧
      (∀ x ∈ s'.wakeups, (s'.connections x.1).owner ≠ none) ∧
      ∀ t, (s'.threads t).pc = .idle ∨ (s'.threads t).site < s'.mEndpoints.length := by
  obtain ⟨henabled, hexec⟩ := step_eq_some.mp hstep
  cases e with
  | listen c routes =>
      obtain rfl := Option.some.inj hexec
      have hlength : s.mEndpoints.length ≤ (s.listen c routes).mEndpoints.length := by
        simp [listen]
      refine ⟨hlength, fun x hx => ?_, fun t => (h.threads t).imp_right fun hlt => ?_⟩
      · have hne : x.1 ≠ c := by
          refine h.ne_of_mem_wakeups ?_ x hx
          rw [h.wired.unused c henabled]
        simp only [listen, Function.update_of_ne hne]
        exact h.wakeups x hx
      · exact Nat.lt_of_lt_of_le hlt hlength
  | accept l c rem =>
      obtain ⟨-, hlistening, hunused⟩ := henabled
      obtain ⟨k, site, htarget, hsite, -⟩ := h.wired.accept hlistening hunused rem
      have hsite₁ : (s.connect l c rem).mEndpoints[k]? = some site := hsite
      simp only [exec, htarget, hsite₁, Option.bind_eq_bind, Option.bind_some] at hexec
      obtain rfl := Option.some.inj hexec
      refine ⟨Nat.le_refl _, fun x hx => ?_, h.threads⟩
      have hne : x.1 ≠ c := by
        refine h.ne_of_mem_wakeups ?_ x hx
        rw [h.wired.unused c hunused]
      rw [connections_promote_of_ne s k c x.1 net l rem hne]
      exact h.wakeups x hx
  | tlsHs c cert =>
      simp only [exec, Option.bind_eq_bind, Option.bind_eq_some_iff] at hexec
      obtain ⟨-, -, -, -, hsetup⟩ := hexec
      unfold setupContext at hsetup
      split at hsetup
      · obtain ⟨-, -, rfl⟩ := Option.map_eq_some_iff.mp hsetup
        exact ⟨Nat.le_refl _, h.wakeups, h.threads⟩
      · exact absurd hsetup (by simp)
      · exact absurd hsetup (by simp)
  | loop e =>
      obtain ⟨k, site, htarget, hsite⟩ := h.wired.exists_target (enabled_loop henabled).1
      have hhandle : s.handle mg k e = some s' := by
        simpa only [exec, htarget, Option.bind_eq_bind, Option.bind_some] using hexec
      obtain ⟨hendpoints, hwakeups, hthreads, howners⟩ := handle_fields hsite hhandle
      refine ⟨by rw [hendpoints, List.length_set], fun x hx => ?_, fun t => ?_⟩
      · rw [hwakeups] at hx
        rw [howners]
        exact h.wakeups x (World.mem_wakeups_handle (w := (s.config k site).world) hx)
      · rw [hthreads, hendpoints, List.length_set]
        exact h.threads t
  | worker k e =>
      obtain ⟨site, cfg, hsite, hendpoints, -, -, hconns, hwakeups, hthreads⟩ :=
        slice_worker henabled hexec fun site hsite => h.owned hsite
      refine ⟨by rw [hendpoints, List.length_set], fun x hx => ?_, fun t => ?_⟩
      · rw [hconns]
        rcases hwakeups x hx with hold | hnew
        · exact h.wakeups x hold
        · simp [hnew]
      · rw [hendpoints, List.length_set]
        rcases hthreads t with hk | hsame
        · exact Or.inr (hk ▸ (List.getElem?_eq_some_iff.mp hsite).1)
        · exact hsame ▸ h.threads t

theorem step (hstep : s.step net mg e = some s') : Parted net mg s' where
  wired := h.wired.step hstep
  wakeups := (h.bounds hstep).2.1
  threads := (h.bounds hstep).2.2
  reaches k site' hsite' := by
    cases h.partStep hstep hsite' with
    | made routes hnone hstart => exact ⟨routes, hstart ▸ Reaches.refl _⟩
    | idle hsite hslice => exact hslice ▸ h.reaches k site' hsite
    | step site e' hconcerns hpart hsite hmove =>
        obtain ⟨routes, hreaches⟩ := h.reaches k site hsite
        exact ⟨routes, hreaches.next trivial hmove⟩

end Parted

/-- A step that does not concern an endpoint leaves it and its part as they are. -/
theorem Parted.unconcerned (h : Parted net mg s) (hstep : s.step net mg e = some s')
    (hsite : s.mEndpoints[k]? = some site) (hconcerns : s.concerns e ≠ some k) :
    s'.mEndpoints[k]? = some site ∧ s'.slice k site = s.slice k site := by
  have hk : k < s'.mEndpoints.length :=
    Nat.lt_of_lt_of_le (List.getElem?_eq_some_iff.mp hsite).1 (h.bounds hstep).1
  have hsite' : s'.mEndpoints[k]? = some s'.mEndpoints[k] := List.getElem?_eq_getElem hk
  cases h.partStep hstep hsite' with
  | made routes hnone hstart => exact absurd (hsite.symm.trans hnone) (by simp)
  | idle hold hslice =>
      obtain rfl := Option.some.inj (hsite.symm.trans hold)
      exact ⟨hsite', hslice⟩
  | step site e' hmine hpart hold hmove => exact absurd hmine hconcerns

theorem parted_of_reaches {ok : ServerState → ServerEvent → Prop}
    (h : Reaches (step net mg) ok start s) : Parted net mg s :=
  h.invariant parted_start fun _ _ _ hparted _ hstep => hparted.step hstep

end ServerState

end Mgxx
