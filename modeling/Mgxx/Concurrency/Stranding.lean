import Mgxx.Concurrency.AtomicWaits
import Mgxx.Concurrency.Use

/-!
What becomes of a stream that is completed.  It is in no table and in no response,
nor will it be again, so that the event loop serves, releases and fails it no more,
and wakes up nobody who still sleeps on it.
-/

namespace Mgxx.Http

open Mgxx.Library

namespace Shared

variable (q : Shared) (answer : Bool) (pc : Pc)

/-- The stream that an access stores in `m_stream` is new. -/
theorem mStream_advance :
    (q.advance answer pc).shared.response.mStream = q.response.mStream ∨
      ∃ s, (q.advance answer pc).shared.response.mStream = some s ∧ q.made ≤ s.number := by
  cases pc with
  | streamChecked r code encoding =>
      cases answer with
      | true => exact Or.inr ⟨⟨r, q.made⟩, rfl, le_rfl⟩
      | false => exact Or.inl rfl
  | sendChecked _ _ _ | sendStored _ | streamOpened _ | putStored _ | putLocked _ =>
      cases answer <;> exact Or.inl rfl
  | streamDecided _ ok => cases ok <;> exact Or.inl rfl
  | idle | granted _ | sendDecided _ _ | streamStored _ | putWritten _ _ | putRefused _ =>
      exact Or.inl rfl

end Shared

namespace View

structure Drops (v : View) (s : StreamRef) : Prop where
  made : s.number < v.shared.made
  table : v.table ≠ some s
  mStream : v.shared.response.mStream ≠ some s

namespace Drops

variable {v v' : View} {s : StreamRef} {r : ℕ}

theorem serve (h : v.Drops s) {s' : StreamRef} (hs : s' ≠ s) : (v.serve s').Drops s := by
  refine ⟨h.made, fun htable => ?_, h.mStream⟩
  simp only [View.serve] at htable
  split_ifs at htable
  exact hs (Option.some.inj htable)

theorem wakeup (h : v.Drops s) : (v.wakeup r).Drops s := by
  unfold View.wakeup
  cases htable : v.table with
  | some s' => exact h.serve fun hs => h.table (hs ▸ htable)
  | none =>
      simp only
      split_ifs
      · cases hstream : v.shared.response.mStream with
        | none => exact h
        | some s' =>
            have hs : s' ≠ s := fun hs => h.mStream (hs ▸ hstream)
            have hoff : v.handOff.Drops s := by
              refine ⟨h.made, fun hoff => hs ?_, by simp [View.handOff, Shared.updateResponse]⟩
              exact Option.some.inj (hstream.symm.trans hoff)
            exact hoff.serve hs
      · exact ⟨h.made, h.table, h.mStream⟩
      · exact ⟨h.made, by simp, h.mStream⟩

theorem commit (h : v.Drops s) {access : Access} (hmade : v.shared.made ≤ access.shared.made)
    (hstream : access.shared.response.mStream = v.shared.response.mStream ∨
      ∃ s', access.shared.response.mStream = some s' ∧ v.shared.made ≤ s'.number) (t : ℕ) :
    (v.commit t access).Drops s := by
  refine ⟨Nat.lt_of_lt_of_le h.made hmade, h.table, fun hs => ?_⟩
  rcases hstream with hsame | ⟨s', hs', hle⟩
  · exact h.mStream (hsame.symm.trans hs)
  · obtain rfl : s' = s := Option.some.inj (hs'.symm.trans hs)
    exact absurd h.made (Nat.not_lt_of_le hle)

theorem step (h : v.Drops s) {ve : View.Event} (hstep : v.step r ve = some v') : v'.Drops s := by
  cases ve with
  | deliver =>
      obtain ⟨-, rfl⟩ := step_deliver hstep
      have htake : v.take.Drops s := ⟨h.made, h.table, h.mStream⟩
      exact htake.wakeup
  | poll =>
      obtain rfl := Option.some.inj hstep
      unfold View.poll
      split_ifs
      · exact ⟨h.made, h.table, h.mStream⟩
      · exact h
  | release blocked =>
      obtain rfl := Option.some.inj hstep
      unfold View.release
      split
      · exact h
      · exact ⟨h.made, h.table, h.mStream⟩
  | headers headers =>
      obtain rfl := Option.some.inj hstep
      exact ⟨h.made, h.table, h.mStream⟩
  | begin t call =>
      obtain ⟨-, rfl⟩ := step_begin hstep
      refine h.commit ?_ (Or.inl ?_) t <;> cases call <;> simp only [Shared.begin] <;>
        split_ifs <;> rfl
  | wait t s' =>
      obtain ⟨-, -, granted, -, rfl⟩ := step_wait hstep
      cases granted <;> exact ⟨h.made, h.table, h.mStream⟩
  | put t s' op =>
      obtain ⟨-, -, rfl⟩ := step_put hstep
      exact h.commit le_rfl (Or.inl rfl) t
  | advance t answer =>
      obtain rfl := Option.some.inj hstep
      exact h.commit (v.shared.made_le_advance answer _) (v.shared.mStream_advance answer _) t

end Drops

end View

namespace Config

/-- The event loop is through with a stream: it serves, releases and fails it no more. -/
structure Dropped (cfg : Config) (s : StreamRef) : Prop where
  request : s.response < cfg.world.mRequestCounter
  view : cfg.IsOpen s.response → (cfg.view s.response).Drops s

variable {mg : Mongoose} {cfg cfg' : Config} {s : StreamRef}

theorem Dropped.step (h : cfg.Dropped s) (howned : Owned cfg) {e : Event}
    (hstep : cfg.step mg e = some cfg') : cfg'.Dropped s := by
  refine ⟨Nat.lt_of_lt_of_le h.request (mRequestCounter_le_step hstep), fun hopen => ?_⟩
  have hbefore := h.view (isOpen_of_step howned h.request hstep hopen)
  have hnext := view_step mg howned h.request hstep hopen
  cases habout : e.about mg cfg s.response with
  | none =>
      rw [habout] at hnext
      exact hnext ▸ hbefore
  | some ve =>
      rw [habout] at hnext
      exact hbefore.step hnext

/-- A completed stream is in no table and in no response. -/
theorem dropped_of_completed (howned : Owned cfg) (hs : s.number < cfg.world.made s.response)
    (hrequest : s.response < cfg.world.mRequestCounter)
    (hcompleted : (cfg.world.streams s).mState = .completed) : cfg.Dropped s := by
  refine ⟨hrequest, fun _ => ⟨hs, fun htable => ?_, fun hstream => ?_⟩⟩
  · exact (howned.tabled _ _ s (table_eq_some.mp htable)).1 hcompleted
  · exact (howned.held s.response s hrequest hstream).2.2 hcompleted

/-- Nor does the event loop serve a stream of a connection that has closed. -/
theorem dropped_of_close {c : ℕ} (hconn : cfg.conn s.response = c)
    (hrequest : s.response < cfg.world.mRequestCounter)
    (hstep : cfg.step mg (.loop (.close c)) = some cfg') : cfg'.Dropped s := by
  refine ⟨Nat.lt_of_lt_of_le hrequest (mRequestCounter_le_step hstep), fun hopen => ?_⟩
  obtain ⟨-, rfl⟩ := step_loop hstep
  have hconn' : ((cfg.world.handleClose c).responses s.response).mConn = c :=
    (World.mConn_handleClose ..).trans hconn
  have hopen : (((cfg.world.handleClose c).forget c).connections
      ((cfg.world.handleClose c).responses s.response).mConn).status = .live := hopen
  rw [hconn', World.status_forget, if_pos rfl] at hopen
  exact absurd hopen (by simp)

theorem stream_of_notice {w : World} {stream : Option StreamRef} {n : Notice}
    (hn : n ∈ w.streamNotices stream) (hs : n.stream = s) : stream = some s := by
  cases stream with
  | none => simp [World.streamNotices] at hn
  | some s' =>
      cases hstate : (w.streams s').mState <;> simp only [World.streamNotices, hstate,
        List.mem_singleton, List.not_mem_nil] at hn <;> subst hn <;> exact congrArg some hs

/-- Nobody who sleeps on such a stream is woken up. -/
theorem Dropped.notices (h : cfg.Dropped s) (howned : Owned cfg) {e : LoopEvent}
    (hraises : cfg.world.Raises e) : ∀ n ∈ cfg.world.notices mg e, n.stream ≠ s := by
  have htable {c id : ℕ} (hfind : cfg.world.mPendingStreams.find c id = some (some s)) : False := by
    obtain ⟨⟨n, -, heq⟩, -, hconn, hlive, -⟩ := howned.streamEntry c id _ hfind
    have hid : s.response = id := congrArg StreamRef.response (Option.some.inj heq)
    subst hid
    have hopen : cfg.IsOpen s.response := by rwa [IsOpen, conn, hconn]
    refine (h.view hopen).table (table_eq_some.mpr ?_)
    rwa [conn, hconn]
  intro n hn hs
  cases e with
  | wakeup c id =>
      simp only [World.notices] at hn
      split at hn
      · next stream hfind => exact htable (hfind.trans (congrArg some (stream_of_notice hn hs)))
      · split at hn
        · simp at hn
        · next r hfind =>
            split_ifs at hn with hstate
            · obtain ⟨rfl, hlt, hconn, hlive⟩ := howned.responseEntry c id r hfind
              have hstream := stream_of_notice hn hs
              have hresponse : s.response = r := (howned.held r s hlt hstream).1
              subst hresponse
              have hopen : cfg.IsOpen s.response := by rwa [IsOpen, conn, hconn]
              exact (h.view hopen).mStream hstream
            · simp at hn
  | write c =>
      obtain ⟨s', hs', rfl⟩ := List.mem_map.mp hn
      obtain rfl : s' = s := hs
      have hmem : s' ∈ cfg.world.tableStreams := by
        unfold World.emptied at hs'
        split_ifs at hs'
        · simp at hs'
        · exact List.mem_dedup.mp (List.mem_of_mem_filter hs')
      obtain ⟨c', id, hfind⟩ := (World.mem_tableStreams ..).mp hmem
      exact htable hfind
  | close c =>
      obtain ⟨s', hs', rfl⟩ := List.mem_map.mp hn
      obtain rfl : s' = s := hs
      obtain ⟨id, hfind⟩ := (World.mem_streamsOf ..).mp hs'
      exact htable hfind
  | accept c | poll c | httpMessage c msg calls | mongoose c send =>
      simp [World.notices] at hn

end Config

namespace Blocking

variable {mg : Mongoose} {b b' : Blocking} {s : StreamRef} {t : ℕ} {current : AsyncStream.State}
  {cfg₀ : Config}

structure Stranded (b : Blocking) (t : ℕ) (s : StreamRef) (current : AsyncStream.State) : Prop where
  pc : b.waits t = .asleep s current
  dropped : b.abs.Dropped s
  due : ∀ n ∈ b.due, n.stream ≠ s

theorem Stranded.step (h : Stranded b t s current) (hplaced : b.Placed) (howned : Owned b.abs)
    {e : BlockingEvent} (he : e ≠ .spurious t) (hstep : b.step mg e = some b') :
    Stranded b' t s current := by
  have hdropped : b'.abs.Dropped s := by
    have hfollows := follows_step hplaced hstep
    cases himage : b.image e with
    | none =>
        rw [himage] at hfollows
        have habs : b'.abs = b.abs := hfollows
        exact habs ▸ h.dropped
    | some e' =>
        rw [himage] at hfollows
        exact h.dropped.step howned hfollows
  have hsetWait {t' : ℕ} {pc : WaitPc} (hpc : b.waits t' ≠ .asleep s current) :
      (b.setWait t' pc).waits t = .asleep s current := by
    have ht : t ≠ t' := by
      rintro rfl
      exact hpc h.pc
    simp [setWait, ht, h.pc]
  have htail {n : Notice} {due : List Notice} (hdue : b.due = n :: due) :
      ∀ n' ∈ due, n'.stream ≠ s := fun n' hn' =>
    h.due n' (hdue ▸ List.mem_cons_of_mem n hn')
  cases takes_of_step hstep with
  | loop e cfg hdue hcfg =>
      obtain ⟨hraises, -⟩ := Config.step_loop hcfg
      exact ⟨h.pc, hdropped, h.dropped.notices howned hraises⟩
  | worker e cfg _ _ _ _ => exact ⟨h.pc, hdropped, h.due⟩
  | call t' s' _ hpc _ => exact ⟨hsetWait (by simp [hpc]), hdropped, h.due⟩
  | load t' s' hpc => exact ⟨hsetWait (by simp [hpc]), hdropped, h.due⟩
  | compare t' s' current' hpc =>
      refine ⟨hsetWait ?_, hdropped, h.due⟩
      rcases hpc with hpc | ⟨hpc, -⟩ <;> simp [hpc]
  | grant t' s' hpc =>
      have hpc' : (b.setWait t' .away).waits t = .asleep s current := hsetWait (by simp [hpc])
      exact ⟨hpc', hdropped, h.due⟩
  | giveUp t' s' current' hpc _ => exact ⟨hsetWait (by simp [hpc]), hdropped, h.due⟩
  | notifyAll s' due hdue =>
      have hs : s' ≠ s := h.due ⟨s', .all⟩ (by simp [hdue])
      exact ⟨WaitPc.wake_eq_asleep.mpr ⟨h.pc, hs⟩, hdropped, htail hdue⟩
  | notifyNone s' due hdue => exact ⟨h.pc, hdropped, htail hdue⟩
  | notifyOne t' s' current' due hdue hpc =>
      have hs : s' ≠ s := h.due ⟨s', .one⟩ (by simp [hdue])
      have hpc' : (b.setWait t' (.awake s' current')).waits t = .asleep s current :=
        hsetWait (by simp [hpc, hs])
      exact ⟨hpc', hdropped, htail hdue⟩
  | spurious t' s' current' hpc =>
      have ht : t ≠ t' := fun ht => he (ht ▸ rfl)
      exact ⟨by simp [setWait, ht, h.pc], hdropped, h.due⟩

/-- Whoever is stranded sleeps on, whatever the others do. -/
theorem asleep_of_stranded (hstranded : Stranded b t s current) (hinit : cfg₀.Initial)
    (h : Reaches (step mg) anyEvent (start cfg₀) b)
    (h' : Reaches (step mg) (fun _ e => e ≠ .spurious t) b b') :
    b'.waits t = .asleep s current := by
  have hstranded' : Stranded b' t s current := by
    refine h'.invariant_of (J := fun b => b.Placed ∧ Owned b.abs)
      (P := fun b => Stranded b t s current)
      (fun b₁ h₁ => owned_of_reaches hinit (h.trans (h₁.mono fun _ _ _ => trivial)))
      hstranded ?_
    rintro b₁ e b₂ ⟨hplaced, howned⟩ hstranded he hstep
    exact hstranded.step hplaced howned he hstep
  exact hstranded'.pc

end Blocking

end Mgxx.Http
