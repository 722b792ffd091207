import Mgxx.Server.Refinement

/-!
The end of a server.  `stop` calls `mg_mgr_free`, which marks every connection for
closing and polls once: each connection is polled and then closed.
-/

namespace Mgxx

open Http Library

namespace Http.World

variable {mg : Mongoose} {w : World} {c r : ℕ} {p : StreamRef}

def ResponseHeld (w : World) (r : ℕ) : Prop :=
  (∃ c id, w.mPendingResponses.find c id = some r) ∨ (w.responses r).mState = .failed

def StreamHeld (w : World) (p : StreamRef) : Prop :=
  (∃ c id, w.mPendingStreams.find c id = some (some p)) ∨ (w.streams p).mState = .failed

theorem responseHeld_poll (h : w.ResponseHeld r) : (w.handlePoll mg c).ResponseHeld r := by
  rw [ResponseHeld, responses_handlePoll]
  rcases h with ⟨d, id, hfind⟩ | hfailed
  · by_cases hgone : d = c ∧ id ∈ w.failedIds c
    · -- a poll takes out what has failed
      obtain ⟨rfl, hid⟩ := hgone
      obtain ⟨r', hr', hfailed⟩ := (mem_failedIds w d id).mp hid
      obtain rfl := Option.some.inj (hfind.symm.trans hr')
      exact Or.inr hfailed
    · refine Or.inl ⟨d, id, ?_⟩
      rw [find_mPendingResponses_handlePoll, if_neg hgone, hfind]
  · exact Or.inr hfailed

theorem responseHeld_close (h : w.ResponseHeld r) : (w.handleClose c).ResponseHeld r := by
  rw [ResponseHeld, responses_handleClose]
  rcases h with ⟨d, id, hfind⟩ | hfailed
  · by_cases hd : d = c
    · subst hd
      rw [if_pos ((mem_responsesOf w d r).mpr ⟨id, hfind⟩)]
      exact Or.inr rfl
    · refine Or.inl ⟨d, id, ?_⟩
      rw [find_mPendingResponses_handleClose, if_neg hd, hfind]
  · right
    split_ifs
    · rfl
    · exact hfailed

theorem streamHeld_close (h : w.StreamHeld p) : (w.handleClose c).StreamHeld p := by
  rw [StreamHeld, streams_handleClose]
  rcases h with ⟨d, id, hfind⟩ | hfailed
  · by_cases hd : d = c
    · subst hd
      rw [if_pos ((mem_streamsOf w d p).mpr ⟨id, hfind⟩)]
      exact Or.inr rfl
    · refine Or.inl ⟨d, id, ?_⟩
      rw [find_mPendingStreams_handleClose, if_neg hd, hfind]
  · right
    split_ifs
    · rfl
    · exact hfailed

theorem streamHeld_poll (h : w.StreamHeld p) : (w.handlePoll mg c).StreamHeld p := by
  rwa [StreamHeld, streams_handlePoll, mPendingStreams_handlePoll]

end Http.World

namespace ServerState

/-- What `mg_mgr_free` does with the connections of the manager. -/
def stop (conns : List ℕ) : List ServerEvent :=
  conns.flatMap fun c => [.loop (.poll c), .loop (.close c)]

variable {net : NetText} {mg : Mongoose} {s s' : ServerState} {c d k : ℕ}
  {site site' : Site}

theorem connections_handle_of_ne {e : LoopEvent} (hsite : s.mEndpoints[k]? = some site)
    (h : s.handle mg k e = some s') (hd : d ≠ e.conn) : s'.connections d = s.connections d := by
  rcases handle_cases hsite h with ⟨-, rfl⟩ | ⟨-, hdelete⟩
  · exact connections_settle_of_ne s k e.conn d _ hd
  · obtain ⟨-, -, -, -, -, hothers⟩ := deleteContext_fields hdelete
    rw [hothers d hd, connections_settle_of_ne s k e.conn d _ hd]

theorem status_handle_self {e : LoopEvent} (hsite : s.mEndpoints[k]? = some site)
    (h : s.handle mg k e = some s') : (s'.connections e.conn).status =
      ((s.handled mg k site e).world.connections e.conn).status := by
  rcases handle_cases hsite h with ⟨-, rfl⟩ | ⟨-, hdelete⟩
  · exact status_settle_self ..
  · obtain ⟨-, -, -, -, hstatus, -⟩ := deleteContext_fields hdelete
    rw [hstatus, status_settle_self]

/-- An event of an open connection is handled, and touches no other connection. -/
theorem exists_loop (mg : Mongoose) (hw : Wired net s) {e : LoopEvent}
    (henabled : s.Enabled (.loop e)) :
    ∃ k site s', s.mEndpoints[k]? = some site ∧ s.handle mg k e = some s' ∧
      s.step net mg (.loop e) = some s' := by
  obtain ⟨k, site, htarget, hsite⟩ := hw.exists_target (enabled_loop henabled).1
  obtain ⟨s', hs', -⟩ := hw.handle mg henabled hsite
  refine ⟨k, site, s', hsite, hs', step_eq_some.mpr ⟨henabled, ?_⟩⟩
  rw [exec, htarget]
  exact hs'

/-- One connection is polled and closed. -/
theorem exists_close (mg : Mongoose) (hw : Wired net s) (hlive : (s.connections c).status = .live) :
    ∃ s₁ s', s.step net mg (.loop (.poll c)) = some s₁ ∧
      s₁.step net mg (.loop (.close c)) = some s' ∧
      (s'.connections c).status = .closed ∧
      ∀ d ≠ c, (s'.connections d).status = (s.connections d).status := by
  have hpoll : s.Enabled (.loop (.poll c)) :=
    ⟨hlive, fun hpeer => absurd hpeer (by simp [LoopEvent.forPeer])⟩
  obtain ⟨k, site, s₁, hsite, hhandle, hstep⟩ := exists_loop mg hw hpoll
  have hlive₁ : (s₁.connections c).status = .live := by
    have hstatus : ((s.handled mg k site (.poll c)).world.connections c).status = .live :=
      World.status_handle_live (e := .poll c) (by simp) hlive
    exact (status_handle_self hsite hhandle).trans hstatus
  have hclose : s₁.Enabled (.loop (.close c)) :=
    ⟨hlive₁, fun hpeer => absurd hpeer (by simp [LoopEvent.forPeer])⟩
  obtain ⟨k', site', s', hsite', hhandle', hstep'⟩ := exists_loop mg (hw.step hstep) hclose
  refine ⟨s₁, s', hstep, hstep', ?_, fun d hd => ?_⟩
  · refine (status_handle_self (e := .close c) hsite' hhandle').trans ?_
    simp [handled, World.handle, World.status_forget, LoopEvent.conn]
  · rw [connections_handle_of_ne hsite' hhandle' hd, connections_handle_of_ne hsite hhandle hd]

/-- What was in a table is in it still, or has failed. -/
def Keeps (s s' : ServerState) : Prop :=
  ∀ k site, s.mEndpoints[k]? = some site → ∃ site', s'.mEndpoints[k]? = some site' ∧
    (∀ r, (s.slice k site).world.ResponseHeld r → (s'.slice k site').world.ResponseHeld r) ∧
    ∀ p, (s.slice k site).world.StreamHeld p → (s'.slice k site').world.StreamHeld p

theorem Keeps.refl (s : ServerState) : Keeps s s := fun _ site hsite =>
  ⟨site, hsite, fun _ hr => hr, fun _ hp => hp⟩

theorem Keeps.trans {s'' : ServerState} (h : Keeps s s') (h' : Keeps s' s'') : Keeps s s'' := by
  intro k site hsite
  obtain ⟨site', hsite', hresponses, hstreams⟩ := h k site hsite
  obtain ⟨site'', hsite'', hresponses', hstreams'⟩ := h' k site' hsite'
  exact ⟨site'', hsite'', fun r hr => hresponses' r (hresponses r hr),
    fun p hp => hstreams' p (hstreams p hp)⟩

theorem keeps_step (hparted : Parted net mg s) {e : LoopEvent}
    (he : (∃ c, e = .poll c) ∨ ∃ c, e = .close c)
    (hstep : s.step net mg (.loop e) = some s') : Keeps s s' := by
  intro k site hsite
  have hk : k < s'.mEndpoints.length :=
    Nat.lt_of_lt_of_le (List.getElem?_eq_some_iff.mp hsite).1 (hparted.bounds hstep).1
  have hsite' : s'.mEndpoints[k]? = some s'.mEndpoints[k] := List.getElem?_eq_getElem hk
  refine ⟨_, hsite', ?_⟩
  cases hparted.partStep hstep hsite' with
  | made routes hnone hstart => exact absurd (hsite.symm.trans hnone) (by simp)
  | idle hold hslice =>
      obtain rfl := Option.some.inj (hsite.symm.trans hold)
      rw [hslice]
      exact ⟨fun r hr => hr, fun p hp => hp⟩
  | step site₁ e' hconcerns hpart hold hmove =>
      obtain rfl := Option.some.inj (hsite.symm.trans hold)
      obtain rfl : .loop e = e' := Option.some.inj hpart
      obtain ⟨-, hslice⟩ := Config.step_loop hmove
      rw [hslice]
      rcases he with ⟨c, rfl⟩ | ⟨c, rfl⟩
      · exact ⟨fun r hr => World.responseHeld_poll hr, fun p hp => World.streamHeld_poll hp⟩
      · exact ⟨fun r hr => World.responseHeld_close hr, fun p hp => World.streamHeld_close hp⟩

/-- Closing the connections one after the other goes through, and leaves none open. -/
theorem exists_stop {conns : List ℕ} (hparted : Parted net mg s) (hnodup : conns.Nodup)
    (hconns : ∀ c, c ∈ conns ↔ (s.connections c).status = .live) :
    ∃ s', run (step net mg) s (stop conns) = some s' ∧ Parted net mg s' ∧
      Keeps s s' ∧ ∀ c, (s'.connections c).status ≠ .live := by
  induction conns generalizing s with
  | nil => exact ⟨s, rfl, hparted, .refl s, fun c hlive => by simpa using (hconns c).mpr hlive⟩
  | cons c conns ih =>
      obtain ⟨hnotMem, hnodup⟩ := List.nodup_cons.mp hnodup
      obtain ⟨s₁, s₂, hpoll, hclose, hclosed, hothers⟩ :=
        exists_close mg hparted.wired ((hconns c).mp (by simp))
      have hparted₁ := hparted.step hpoll
      have hkeeps := (keeps_step hparted (Or.inl ⟨c, rfl⟩) hpoll).trans
        (keeps_step hparted₁ (Or.inr ⟨c, rfl⟩) hclose)
      have hrest : ∀ d, d ∈ conns ↔ (s₂.connections d).status = .live := by
        intro d
        by_cases hd : d = c
        · subst hd
          rw [hclosed]
          simp [hnotMem]
        · rw [hothers d hd, ← hconns d]
          simp [hd]
      obtain ⟨s', hrun, hparted', hkeeps', hdead⟩ := ih (hparted₁.step hclose) hnodup hrest
      refine ⟨s', ?_, hparted', hkeeps.trans hkeeps', hdead⟩
      have hlist : stop (c :: conns) = .loop (.poll c) :: .loop (.close c) :: stop conns := rfl
      rw [hlist, run_cons, hpoll, Option.bind_some, run_cons, hclose, Option.bind_some, hrun]

theorem eq_empty_of_lookup {β : Type} {m : UnorderedMap ℕ β} (h : ∀ d, m.lookup d = none) :
    m = ∅ := by
  refine AList.ext (List.eq_nil_iff_forall_not_mem.mpr ?_)
  rintro ⟨d, b⟩ hmem
  exact absurd ((h d).symm.trans (AList.mem_lookup_iff.mpr hmem)) (by simp)

/-- Without an open connection there is nothing left in the tables. -/
theorem tables_of_dead (hparted : Parted net mg s)
    (hdead : ∀ c, (s.connections c).status ≠ .live) (hsite : s.mEndpoints[k]? = some site) :
    site.mPendingResponses = ∅ ∧ site.mPendingStreams = ∅ := by
  have hkeys (d : ℕ) : ¬(s.slice k site).world.Keys d := by
    intro hd
    obtain ⟨routes, hreaches⟩ := hparted.reaches k site hsite
    have hlive := Config.keyed_of_reaches (Config.initial_start routes) hreaches d hd
    have hown : s.owns k d = true := by
      refine Config.own_of_status (s.config k site) ?_
      show ((s.slice k site).world.connections d).status ≠ .unused
      rw [hlive]
      simp
    have hview : (restrictTo (s.owns k) s.view d).status = (s.view d).status :=
      congrArg Connection.status (restrictTo_self hown)
    exact hdead d (hview.symm.trans hlive)
  exact ⟨eq_empty_of_lookup fun d => not_ne_iff.mp (not_or.mp (hkeys d)).1,
    eq_empty_of_lookup fun d => not_ne_iff.mp (not_or.mp (hkeys d)).2⟩

theorem contexts_of_dead (hw : Wired net s)
    (hdead : ∀ c, (s.connections c).status ≠ .live) (p : ℕ) : s.contexts p = none := by
  by_contra hp
  obtain ⟨c, hc⟩ := hw.covered p hp
  exact hdead c (hw.held c p hc)

/-- Whatever a server has come to, stopping it handles every event, deletes every
context, empties the tables of all endpoints, and fails every response and every
stream that was waiting in one of them.  No worker takes a step meanwhile, and
mongoose parses no further message. -/
theorem stop_of_reaches (h : Reaches (step net mg) anyEvent start s) {conns : List ℕ}
    (hnodup : conns.Nodup) (hconns : ∀ c, c ∈ conns ↔ (s.connections c).status = .live) :
    ∃ s', run (step net mg) s (stop conns) = some s' ∧
      (∀ c, (s'.connections c).status ≠ .live) ∧ (∀ p, s'.contexts p = none) ∧
      ∀ (k : ℕ) (site : Site), s.mEndpoints[k]? = some site → ∃ site' : Site,
        s'.mEndpoints[k]? = some site' ∧
        site'.mPendingResponses = ∅ ∧ site'.mPendingStreams = ∅ ∧
        (∀ c id r, site.mPendingResponses.find c id = some r →
          (site'.responses r).mState = .failed) ∧
        ∀ c id p, site.mPendingStreams.find c id = some (some p) →
          (site'.streams p).mState = .failed := by
  obtain ⟨s', hrun, hparted, hkeeps, hdead⟩ := exists_stop (parted_of_reaches h) hnodup hconns
  refine ⟨s', hrun, hdead, contexts_of_dead hparted.wired hdead, fun k site hsite => ?_⟩
  obtain ⟨site', hsite', hresponses, hstreams⟩ := hkeeps k site hsite
  obtain ⟨hnoResponse, hnoStream⟩ := tables_of_dead hparted hdead hsite'
  refine ⟨site', hsite', hnoResponse, hnoStream, fun c id r hfind => ?_, fun c id p hfind => ?_⟩
  · refine (hresponses r (Or.inl ⟨c, id, hfind⟩)).resolve_left ?_
    rintro ⟨c', id', hfind'⟩
    have hempty : site'.mPendingResponses.find c' id' = some r := hfind'
    rw [hnoResponse] at hempty
    exact absurd hempty (by simp)
  · refine (hstreams p (Or.inl ⟨c, id, hfind⟩)).resolve_left ?_
    rintro ⟨c', id', hfind'⟩
    have hempty : site'.mPendingStreams.find c' id' = some (some p) := hfind'
    rw [hnoStream] at hempty
    exact absurd hempty (by simp)

def unanswered : List ServerEvent := [
  .listen 0 Config.asyncRoutes, .accept 0 1 ⟨fun _ => 7, (31, 144), false⟩,
  .loop (.httpMessage 1 ⟨[], []⟩ [])]

theorem stop_of_reaches_unanswered : ∃ s s',
    run (step groupsText .plain) start unanswered = some s ∧
      run (step groupsText .plain) s (stop [0, 1]) = some s' ∧ ∀ p, s'.contexts p = none := by
  have hrun : Reaches (step groupsText .plain) anyEvent start _ :=
    reaches_of_run rfl (meets_anyEvent _ unanswered)
  have hnodup : ([0, 1] : List ℕ).Nodup := by decide
  obtain ⟨s', hs', -, hcontexts, -⟩ := stop_of_reaches hrun hnodup fun c => match c with
    | 0 => by decide
    | 1 => by decide
    | c + 2 => ⟨fun hmem => absurd hmem (by simp), fun hlive =>
        absurd (show Status.unused = Status.live from hlive) (by decide)⟩
  exact ⟨_, s', rfl, hs', hcontexts⟩

end ServerState

end Mgxx
