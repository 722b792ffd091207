import Mgxx.Concurrency.Waiting

/-!
The program in which `wait()` is one step, which is enabled when the state of the
stream is one that `wait()` returns for.  A call takes this step where it loads
such a state for the last time.
-/

namespace Mgxx.Http

open Mgxx.Library

namespace Shared

variable (q : Shared)

theorem returned_begin (r : ℕ) (call : Call) :
    q.history.returned ⊆ (q.begin r call).shared.history.returned := by
  cases call <;> simp only [begin] <;> split_ifs <;> simp [returns, pass]

theorem returned_advance (answer : Bool) (pc : Pc) :
    q.history.returned ⊆ (q.advance answer pc).shared.history.returned := by
  cases pc <;> simp only [advance] <;> (try split_ifs) <;>
    simp [returns, post, updateResponse, openStream, updateStream]

theorem made_begin (r : ℕ) (call : Call) : (q.begin r call).shared.made = q.made := by
  cases call <;> simp only [begin] <;> split_ifs <;> rfl

theorem made_le_advance (answer : Bool) (pc : Pc) : q.made ≤ (q.advance answer pc).shared.made := by
  cases pc <;> simp only [advance] <;> (try split_ifs) <;>
    simp [returns, post, updateResponse, openStream, updateStream]

end Shared

namespace Config

variable {mg : Mongoose} {cfg cfg' : Config} {e : Event}

/-- What every access and every delivery keeps of the record of a request, a step keeps. -/
theorem history_step {P : History → Prop} {r : ℕ}
    (hdeliver : ∀ h, P h → P { h with deliveries := h.deliveries + 1 })
    (hbegin : ∀ (q : Shared) (call : Call), P q.history → P (q.begin r call).shared.history)
    (hput : ∀ (q : Shared) s op, P q.history → P (q.put s op).shared.history)
    (hadvance : ∀ (q : Shared) answer pc, P q.history → P (q.advance answer pc).shared.history)
    (hstep : cfg.step mg e = some cfg') (h : P (cfg.history r)) : P (cfg'.history r) := by
  have hcommit {t r' : ℕ} {access : Access} (haccess : r' = r → P access.shared.history) :
      P ((cfg.commit t r' access).history r) := by
    rw [history_commit]
    split_ifs with hr
    · exact haccess hr.symm
    · exact h
  cases e with
  | loop e =>
      obtain ⟨-, rfl⟩ := step_loop hstep
      cases e with
      | wakeup c id =>
          show P (record cfg.history (.wakeup c id) r)
          rw [record, modifyAt_apply]
          split_ifs with hr
          · exact hdeliver _ (hr ▸ h)
          · exact h
      | _ => exact h
  | headers r' headers =>
      obtain rfl := step_headers hstep
      exact h
  | wait t s =>
      obtain ⟨-, -, granted, -, rfl⟩ := step_wait hstep
      cases granted <;> exact h
  | begin t r' call =>
      obtain ⟨-, -, rfl⟩ := step_begin hstep
      exact hcommit fun hr => by
        subst hr
        exact hbegin (cfg.shared r') call h
  | put t s op =>
      obtain ⟨-, -, rfl⟩ := step_put hstep
      exact hcommit fun hr => hput (cfg.shared s.response) s op (hr ▸ h)
  | advance t answer =>
      rcases step_advance hstep with ⟨-, rfl⟩ | ⟨r', -, rfl⟩
      · exact h
      · exact hcommit fun hr => hadvance (cfg.shared r') answer (cfg.threads t) (hr ▸ h)

/-- A stream that was returned stays returned. -/
theorem mem_returned_step (hstep : cfg.step mg e = some cfg') {p : Option StreamRef} {r : ℕ}
    (hp : p ∈ (cfg.history r).returned) : p ∈ (cfg'.history r).returned :=
  history_step (P := fun history => p ∈ history.returned) (fun _ => id)
    (fun q call h => q.returned_begin r call h) (fun _ _ _ => id)
    (fun q answer pc h => q.returned_advance answer pc h) hstep hp

/-- A response forgets none of the streams it has made. -/
theorem made_le_step (hstep : cfg.step mg e = some cfg') (r : ℕ) :
    cfg.world.made r ≤ cfg'.world.made r := by
  have hcommit {t r' : ℕ} {access : Access} (hgrows : cfg.world.made r' ≤ access.shared.made) :
      cfg.world.made r ≤ (cfg.commit t r' access).world.made r := by
    rw [made_commit]
    split_ifs with hr
    · exact hr ▸ hgrows
    · exact le_rfl
  cases e with
  | loop e =>
      obtain ⟨-, rfl⟩ := step_loop hstep
      exact Nat.le_of_eq (congrFun (World.made_handle mg cfg.world e) r).symm
  | headers r' headers =>
      obtain rfl := step_headers hstep
      exact le_rfl
  | wait t s =>
      obtain ⟨-, -, granted, -, rfl⟩ := step_wait hstep
      cases granted <;> exact le_rfl
  | begin t r' call =>
      obtain ⟨-, -, rfl⟩ := step_begin hstep
      exact hcommit (Nat.le_of_eq ((cfg.shared r').made_begin r' call).symm)
  | put t s op =>
      obtain ⟨-, -, rfl⟩ := step_put hstep
      exact hcommit le_rfl
  | advance t answer =>
      rcases step_advance hstep with ⟨-, rfl⟩ | ⟨r', -, rfl⟩
      · exact le_rfl
      · exact hcommit ((cfg.shared r').made_le_advance answer (cfg.threads t))

end Config

namespace Blocking

section Refinement

variable {mg : Mongoose} {b b' : Blocking} {t : ℕ} {s : StreamRef}

/-- The same moment in the program whose `wait()` is one step: a call that is about to
return true has returned. -/
def abs (b : Blocking) : Config :=
  { b.cfg with threads := fun t =>
      match (b.waits t).granted with
      | none => b.cfg.threads t
      | some s => .granted s }

/-- What a load amounts to there, if `wait()` returns for what it loads. -/
def answered (b : Blocking) (t : ℕ) (s : StreamRef) : Option Event :=
  if (b.cfg.world.streams s).wait = none then none else some (.wait t s)

def image (b : Blocking) : BlockingEvent → Option Event
  | .base e => some e
  | .call t s => b.answered t s
  | .resume t =>
      match b.waits t with
      | .changed s => b.answered t s
      | .away | .loaded _ _ | .asleep _ _ | .awake _ _ => none
  | .notify _ | .spurious _ => none

/-- The program with atomic waits goes from one state to the other by the event, or stays. -/
def Follows (mg : Mongoose) (b b' : Blocking) : Option Event → Prop
  | none => b'.abs = b.abs
  | some e => b.abs.step mg e = some b'.abs

/-- Who is in `wait()` is in no other call, and has the stream from `stream()`. -/
def Placed (b : Blocking) : Prop :=
  ∀ t s, (b.waits t).stream = some s →
    b.cfg.threads t = .idle ∧ some s ∈ (b.cfg.history s.response).returned

theorem threads_abs_of_none (h : (b.waits t).granted = none) :
    b.abs.threads t = b.cfg.threads t := by simp only [abs, h]

theorem threads_abs_of_away (h : b.waits t = .away) : b.abs.threads t = b.cfg.threads t :=
  threads_abs_of_none (by rw [h]; rfl)

/-- Steps of `wait()` that are not seen from outside. -/
theorem abs_eq (hcfg : b'.cfg = b.cfg) (hwaits : ∀ t, (b'.waits t).granted = (b.waits t).granted) :
    b'.abs = b.abs := by
  simp only [abs, hcfg, hwaits]

theorem abs_setWait {pc : WaitPc} (h : pc.granted = (b.waits t).granted) :
    (b.setWait t pc).abs = b.abs := by
  refine abs_eq rfl fun t' => ?_
  by_cases ht : t' = t
  · subst ht
    simp [setWait, h]
  · simp [setWait, ht]

theorem abs_commit (hthread : b.waits t = .away) (r : ℕ) (access : Access) :
    ({ b with cfg := b.cfg.commit t r access } : Blocking).abs = b.abs.commit t r access := by
  simp only [abs, Config.commit, Config.mk.injEq, true_and, and_true]
  funext t'
  by_cases ht : t' = t
  · subst ht
    simp [hthread, WaitPc.granted]
  · simp [Function.update_of_ne ht]

theorem abs_grant (hgranted : (b.waits t).granted = some s) : (b.grant t s).abs = b.abs := by
  simp only [abs, grant, setWait, Config.mk.injEq, true_and, and_true]
  funext t'
  by_cases ht : t' = t
  · subst ht
    simp [WaitPc.eq_of_granted hgranted, WaitPc.granted]
  · simp [Function.update_of_ne ht]

/-- A step outside `wait()` is the same step when those in `wait()` are counted as returned. -/
theorem step_abs_base {e : Event} (hwait : ∀ t s, e ≠ .wait t s) (hout : b.Outside e) {cfg : Config}
    (hstep : b.cfg.step mg e = some cfg) :
    b.abs.step mg e = some ({ b with cfg := cfg } : Blocking).abs := by
  cases e with
  | wait t s => exact absurd rfl (hwait t s)
  | loop e =>
      obtain ⟨hraises, rfl⟩ := Config.step_loop hstep
      have hloop : b.abs.world.loopStep mg e = some (b.cfg.world.handle mg e) :=
        World.loopStep_eq_some.mpr ⟨hraises, rfl⟩
      simp only [Config.step, hloop, Option.map_some]
      rfl
  | headers r headers =>
      have hr : r < b.cfg.world.mRequestCounter := by
        by_contra hr
        exact absurd ((if_neg hr).symm.trans hstep) (by simp)
      obtain rfl := Config.step_headers hstep
      exact if_pos hr
  | begin t r call =>
      obtain ⟨hidle, hr, rfl⟩ := Config.step_begin hstep
      have haway : b.waits t = .away := hout t rfl
      rw [abs_commit haway]
      exact if_pos ⟨(threads_abs_of_away haway).trans hidle, hr⟩
  | put t s op =>
      obtain ⟨hfree, hreturned, rfl⟩ := Config.step_put hstep
      have haway : b.waits t = .away := hout t rfl
      rw [abs_commit haway]
      exact if_pos ⟨by rwa [threads_abs_of_away haway], hreturned⟩
  | advance t answer =>
      have haway : b.waits t = .away := hout t rfl
      have hthreads := threads_abs_of_away haway
      rcases Config.step_advance hstep with ⟨hnone, rfl⟩ | ⟨r, hreq, rfl⟩
      · have hnone' : (b.abs.threads t).request = none := by rw [hthreads, hnone]
        simp only [Config.step, hnone']
      · rw [abs_commit haway]
        simp only [Config.step, hthreads, hreq]
        rfl

theorem abs_load_of_empty (hempty : b.state s = .empty) : (b.load t s).abs =
    { b.abs with threads := Function.update b.abs.threads t (.granted s) } := by
  simp only [abs, load, setWait, hempty, Config.mk.injEq, true_and, and_true]
  funext t'
  by_cases ht : t' = t
  · subst ht
    simp [WaitPc.granted]
  · simp [Function.update_of_ne ht]

theorem abs_load_of_ne (hne : b.state s ≠ .empty) (hgranted : (b.waits t).granted = none) :
    (b.load t s).abs = b.abs := by
  refine abs_setWait ?_
  rw [hgranted]
  cases hstate : b.state s <;> first | rfl | exact absurd hstate hne

/-- A load for which `wait()` returns is the step of the program with atomic waits. -/
theorem follows_load (hidle : b.cfg.threads t = .idle) (hgranted : (b.waits t).granted = none)
    (hreturned : some s ∈ (b.cfg.history s.response).returned) :
    b.Follows mg (b.load t s) (b.answered t s) := by
  have hidle' : b.abs.threads t = .idle := (threads_abs_of_none hgranted).trans hidle
  have hstep : b.abs.step mg (.wait t s) = b.abs.waited t s := if_pos ⟨hidle', hreturned⟩
  have hwait : (b.abs.world.streams s).wait = (b.cfg.world.streams s).wait := rfl
  cases hanswer : (b.cfg.world.streams s).wait with
  | none =>
      rw [answered, if_pos hanswer]
      refine abs_load_of_ne (fun hempty => ?_) hgranted
      rw [(AsyncStream.wait_eq_true_iff _).mpr hempty] at hanswer
      exact absurd hanswer (by simp)
  | some answer =>
      rw [answered, if_neg (by simp [hanswer]), Follows, hstep, Config.waited, hwait, hanswer,
        Option.map_some]
      cases answer with
      | true =>
          have hempty : b.state s = .empty := (AsyncStream.wait_eq_true_iff _).mp hanswer
          rw [abs_load_of_empty hempty, if_pos rfl]
      | false =>
          have hne : b.state s ≠ .empty := fun hempty => by
            rw [(AsyncStream.wait_eq_true_iff _).mpr hempty] at hanswer
            exact absurd hanswer (by simp)
          rw [abs_load_of_ne hne hgranted, if_neg Bool.false_ne_true]

theorem abs_compare {current : AsyncStream.State} (hgranted : (b.waits t).granted = none) :
    (b.compare t s current).abs = b.abs := by
  refine abs_setWait ?_
  rw [hgranted]
  split_ifs <;> rfl

/-- Every step is the step it amounts to, or is not seen. -/
theorem follows_step {e : BlockingEvent} (hplaced : b.Placed) (hstep : b.step mg e = some b') :
    b.Follows mg b' (b.image e) := by
  cases takes_of_step hstep with
  | loop e cfg _ hcfg => exact step_abs_base (by simp) (by simp [Outside, Event.thread]) hcfg
  | worker e cfg _ hwait hout hcfg => exact step_abs_base hwait hout hcfg
  | call t s hidle hpc hreturned => exact follows_load hidle (by rw [hpc]; rfl) hreturned
  | load t s hpc =>
      obtain ⟨hidle, hreturned⟩ := hplaced t s (by rw [hpc]; rfl)
      have himage : b.image (.resume t) = b.answered t s := by simp only [image, hpc]
      exact himage ▸ follows_load hidle (by rw [hpc]; rfl) hreturned
  | compare t s current hpc =>
      have himage : b.image (.resume t) = none := by
        rcases hpc with hpc | ⟨hpc, -⟩ <;> simp only [image, hpc]
      rw [himage]
      refine abs_compare ?_
      rcases hpc with hpc | ⟨hpc, hempty, -⟩
      · rw [hpc]
        rfl
      · rw [hpc]
        cases current <;> first | rfl | exact absurd rfl hempty
  | grant t s hpc =>
      have himage : b.image (.resume t) = none := by simp only [image, hpc]
      exact himage ▸ abs_grant (by rw [hpc]; rfl)
  | giveUp t s current hpc hterminal =>
      have himage : b.image (.resume t) = none := by simp only [image, hpc]
      rw [himage]
      refine abs_setWait ?_
      rw [hpc]
      rcases hterminal with rfl | rfl <;> rfl
  | notifyAll s due _ => exact abs_eq rfl fun t => WaitPc.granted_wake s (b.waits t)
  | notifyNone s due _ => rfl
  | notifyOne t s current due _ hpc =>
      have habs : (b.setWait t (.awake s current)).abs = b.abs := abs_setWait (by rw [hpc]; rfl)
      exact habs
  | spurious t s current hpc => exact abs_setWait (by rw [hpc]; rfl)

theorem placed_of_cfg {e : Event} {cfg : Config} (hplaced : b.Placed) (hout : b.Outside e)
    (hcfg : b.cfg.step mg e = some cfg) (due : List Notice) :
    ({ b with cfg := cfg, due := due } : Blocking).Placed := by
  intro t s hs
  obtain ⟨hidle, hreturned⟩ := hplaced t s hs
  refine ⟨(Config.threads_step_of_ne hcfg fun ht => ?_).trans hidle,
    Config.mem_returned_step hcfg hreturned⟩
  have hpc : b.waits t = .away := hout t ht
  rw [hpc] at hs
  exact absurd hs (by simp [WaitPc.stream])

theorem placed_setWait (hplaced : b.Placed) {pc : WaitPc} (hpc : ∀ s, pc.stream = some s →
    b.cfg.threads t = .idle ∧ some s ∈ (b.cfg.history s.response).returned) :
    (b.setWait t pc).Placed := by
  intro t' s hs
  by_cases ht : t' = t
  · subst ht
    exact hpc s (by simpa [setWait] using hs)
  · exact hplaced t' s (by simpa [setWait, ht] using hs)

theorem placed_step {e : BlockingEvent} (hplaced : b.Placed) (hstep : b.step mg e = some b') :
    b'.Placed := by
  cases takes_of_step hstep with
  | loop e cfg _ hcfg => exact placed_of_cfg hplaced (by simp [Outside, Event.thread]) hcfg _
  | worker e cfg _ _ hout hcfg => exact placed_of_cfg hplaced hout hcfg _
  | call t s hidle hpc hreturned =>
      exact placed_setWait hplaced fun s' hs => Option.some.inj hs ▸ ⟨hidle, hreturned⟩
  | load t s hpc =>
      exact placed_setWait hplaced fun s' hs => hplaced t s' (by rw [hpc]; exact hs)
  | compare t s current hpc =>
      refine placed_setWait hplaced fun s' hs => hplaced t s' ?_
      have hs : some s = some s' := by
        split_ifs at hs <;> exact hs
      rcases hpc with hpc | ⟨hpc, -⟩ <;> exact hpc ▸ hs
  | grant t s hpc =>
      intro t' s' hs
      by_cases ht : t' = t
      · subst ht
        simp [grant, setWait, WaitPc.stream] at hs
      · simpa [grant, setWait, ht] using hplaced t' s' (by simpa [grant, setWait, ht] using hs)
  | giveUp t s current hpc _ => exact placed_setWait hplaced (by simp [WaitPc.stream])
  | notifyAll s due _ =>
      exact fun t s' hs => hplaced t s' (by rwa [WaitPc.stream_wake] at hs)
  | notifyNone s due _ => exact hplaced
  | notifyOne t s current due _ hpc =>
      have hplaced' : (b.setWait t (.awake s current)).Placed :=
        placed_setWait hplaced fun s' hs => hplaced t s' (by rw [hpc]; exact hs)
      exact hplaced'
  | spurious t s current hpc =>
      exact placed_setWait hplaced fun s' hs => hplaced t s' (by rw [hpc]; exact hs)

theorem placed_start (cfg : Config) : (start cfg).Placed := by
  intro t s hs
  exact absurd hs (by simp [start, WaitPc.stream])

def Lifts (ok : Config → Event → Prop) (b : Blocking) (e : BlockingEvent) : Prop :=
  ∀ e', b.image e = some e' → ok b.abs e'

variable {ok : Config → Event → Prop} {cfg₀ cfg cfg' : Config}

theorem reaches_abs (h : Reaches (step mg) (Lifts ok) (start cfg₀) b) :
    b.Placed ∧ Reaches (Config.step mg) ok cfg₀ b.abs := by
  refine h.invariant (P := fun b => b.Placed ∧ Reaches (Config.step mg) ok cfg₀ b.abs)
    ⟨placed_start cfg₀, .refl cfg₀⟩ ?_
  rintro b e b' ⟨hplaced, hreaches⟩ hok hstep
  refine ⟨placed_step hplaced hstep, ?_⟩
  have hfollows := follows_step hplaced hstep
  cases himage : b.image e with
  | none =>
      rw [himage] at hfollows
      have habs : b'.abs = b.abs := hfollows
      exact habs ▸ hreaches
  | some e' =>
      rw [himage] at hfollows
      exact hreaches.next (hok e' himage) hfollows

/-- Whatever the run, those in `wait()` are in no other call, and the tables are in order. -/
theorem owned_of_reaches (hinit : cfg₀.Initial) (h : Reaches (step mg) anyEvent (start cfg₀) b) :
    b.Placed ∧ Owned b.abs := by
  obtain ⟨hplaced, hreaches⟩ : b.Placed ∧ Reaches (Config.step mg) anyEvent cfg₀ b.abs :=
    reaches_abs (h.mono fun _ _ _ _ _ => trivial)
  exact ⟨hplaced, Owned.of_reaches hinit hreaches⟩

/-- When nobody waits, the calls of the event thread wake up nobody. -/
theorem reaches_drain (due : List Notice) :
    Reaches (step mg) (Lifts ok) { start cfg with due := due } (start cfg) := by
  induction due with
  | nil => exact .refl _
  | cons n due ih =>
      have hstep : ({ start cfg with due := n :: due } : Blocking).step mg (.notify none) =
          some { start cfg with due := due } := by
        obtain ⟨s, kind⟩ := n
        cases kind <;> rfl
      exact ((Reaches.refl _).next (fun e' he' => absurd he' (by simp [image])) hstep).trans ih

theorem setWait_setWait_start (cfg : Config) (t : ℕ) (pc : WaitPc) :
    ((start cfg).setWait t pc).setWait t .away = start cfg := by
  simp only [setWait, start, Function.update_idem, Blocking.mk.injEq, true_and, and_true]
  exact Function.update_eq_self t _

theorem step_start_worker {e : Event} (hloop : ∀ e', e ≠ .loop e') (hwait : ∀ t s, e ≠ .wait t s)
    (hstep : cfg.step mg e = some cfg') :
    (start cfg).step mg (.base e) = some (start cfg') := by
  have hout : (start cfg).Outside e := fun _ _ => rfl
  have hmap : ((start cfg).cfg.step mg e).map (fun cfg => { start cfg' with cfg := cfg }) =
      some (start cfg') := congrArg (Option.map _) hstep
  cases e with
  | loop e => exact absurd rfl (hloop e)
  | wait t s => exact absurd rfl (hwait t s)
  | _ =>
      simp only [step, if_pos hout]
      exact hmap

theorem reaches_of_wait {s : StreamRef} (hok : ok cfg (.wait t s))
    (hstep : cfg.step mg (.wait t s) = some cfg') :
    Reaches (step mg) (Lifts ok) (start cfg) (start cfg') := by
  obtain ⟨hidle, hreturned, granted, hwait, rfl⟩ := Config.step_wait hstep
  have hcall : (start cfg).step mg (.call t s) = some ((start cfg).load t s) :=
    if_pos ⟨hidle, rfl, hreturned⟩
  have himage : (start cfg).image (.call t s) = some (.wait t s) :=
    if_neg (by simp [start, hwait])
  have hlift : Lifts ok (start cfg) (.call t s) :=
    fun e' he' => Option.some.inj (himage.symm.trans he') ▸ hok
  have hpc : ((start cfg).load t s).waits t = .loaded s (cfg.world.streams s).mState :=
    Function.update_self ..
  have hseen : Lifts ok ((start cfg).load t s) (.resume t) :=
    fun e' he' => by simp [image, hpc] at he'
  refine ((Reaches.refl _).next hlift hcall).next hseen ?_
  have hquiet : ((start cfg).load t s).setWait t .away = start cfg := setWait_setWait_start ..
  cases granted with
  | true =>
      rw [(AsyncStream.wait_eq_true_iff _).mp hwait] at hpc
      simp only [step, resume, hpc, grant, hquiet]
      rfl
  | false =>
      rcases (AsyncStream.wait_eq_false_iff _).mp hwait with hstate | hstate <;>
        rw [hstate] at hpc <;> simp only [step, resume, hpc, hquiet] <;> rfl

theorem reaches_of_step {e : Event} (hok : ok cfg e) (hstep : cfg.step mg e = some cfg') :
    Reaches (step mg) (Lifts ok) (start cfg) (start cfg') := by
  have hlift : Lifts ok (start cfg) (.base e) := fun e' he' => Option.some.inj he' ▸ hok
  cases e with
  | loop e =>
      have hbase : (start cfg).step mg (.base (.loop e)) =
          some { start cfg' with due := cfg.world.notices mg e } := by
        have hcfg : (start cfg).cfg.step mg (.loop e) = some cfg' := hstep
        simp only [step, hcfg, Option.map_some]
        rfl
      exact ((Reaches.refl _).next hlift hbase).trans (reaches_drain _)
  | wait t s => exact reaches_of_wait hok hstep
  | _ => exact (Reaches.refl _).next hlift (step_start_worker (by simp) (by simp) hstep)

end Refinement

end Blocking

end Mgxx.Http
