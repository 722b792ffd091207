import Mathlib.Logic.Relation

/-!
Runs of a system given by a partial step function.  An event is enabled in a
state when the step function answers; a run is a list of enabled events.  The
states reached by runs whose every step meets a side condition carry the usual
induction rule: what holds at the start and is kept by one step holds in every
state reached.
-/

namespace Mgxx.Library

variable {σ ε : Type*}

/-- Execute a list of events, failing at the first one that is not enabled. -/
def run (step : σ → ε → Option σ) (s : σ) : List ε → Option σ
  | [] => some s
  | e :: es => (step s e).bind fun s' => run step s' es

def Moves (step : σ → ε → Option σ) (ok : σ → ε → Prop) (s s' : σ) : Prop :=
  ∃ e, ok s e ∧ step s e = some s'

/-- `s'` is reached from `s` by a run whose every step meets `ok`. -/
def Reaches (step : σ → ε → Option σ) (ok : σ → ε → Prop) : σ → σ → Prop :=
  Relation.ReflTransGen (Moves step ok)

def anyEvent (_ : σ) (_ : ε) : Prop := True

variable {step : σ → ε → Option σ} {ok ok' : σ → ε → Prop} {s s' s'' : σ}

@[simp] theorem run_nil : run step s [] = some s := rfl

@[simp] theorem run_cons (e : ε) (es : List ε) :
    run step s (e :: es) = (step s e).bind fun s' => run step s' es := rfl

theorem Reaches.refl (s : σ) : Reaches step ok s s := Relation.ReflTransGen.refl

theorem Reaches.next {e : ε} (h : Reaches step ok s s') (hok : ok s' e)
    (hstep : step s' e = some s'') : Reaches step ok s s'' :=
  Relation.ReflTransGen.tail h ⟨e, hok, hstep⟩

theorem Reaches.trans (h : Reaches step ok s s') (h' : Reaches step ok s' s'') :
    Reaches step ok s s'' := Relation.ReflTransGen.trans h h'

/-- A run that meets a stronger side condition meets a weaker one. -/
theorem Reaches.mono (h : Reaches step ok s s') (hle : ∀ t e, ok t e → ok' t e) :
    Reaches step ok' s s' := by
  refine Relation.ReflTransGen.mono ?_ s s' h
  rintro t t' ⟨e, hok, hstep⟩
  exact ⟨e, hle t e hok, hstep⟩

/-- The induction rule for runs. -/
theorem Reaches.invariant {P : σ → Prop} (h : Reaches step ok s s') (hinit : P s)
    (hstep : ∀ t e t', P t → ok t e → step t e = some t' → P t') : P s' := by
  induction h with
  | refl => exact hinit
  | tail _ hmove ih =>
      obtain ⟨e, hok, hnext⟩ := hmove
      exact hstep _ e _ ih hok hnext

/-- The induction rule relative to facts `J` that are already known of every
state reached. -/
theorem Reaches.invariant_of {J P : σ → Prop} (h : Reaches step ok s s')
    (hJ : ∀ t, Reaches step ok s t → J t) (hinit : P s)
    (hstep : ∀ t e t', J t → P t → ok t e → step t e = some t' → P t') : P s' := by
  induction h with
  | refl => exact hinit
  | tail hrun hmove ih =>
      obtain ⟨e, hok, hnext⟩ := hmove
      exact hstep _ e _ (hJ _ hrun) ih hok hnext

/-- The side condition is met all along a list of events. -/
def Meets (step : σ → ε → Option σ) (ok : σ → ε → Prop) (s : σ) : List ε → Prop
  | [] => True
  | e :: es => ok s e ∧ match step s e with
    | none => True
    | some s' => Meets step ok s' es

theorem meets_of_forall {es : List ε} (h : ∀ s, ∀ e ∈ es, ok s e) (s : σ) :
    Meets step ok s es := by
  induction es generalizing s with
  | nil => trivial
  | cons e es ih =>
      refine ⟨h s e List.mem_cons_self, ?_⟩
      cases step s e with
      | none => trivial
      | some s' => exact ih (fun s e he => h s e (List.mem_cons_of_mem _ he)) s'

theorem meets_anyEvent (s : σ) (es : List ε) : Meets step anyEvent s es :=
  meets_of_forall (fun _ _ _ => trivial) s

/-- The end of a run given as a list of events is reached. -/
theorem reaches_of_run {es : List ε} (h : run step s es = some s') (hok : Meets step ok s es) :
    Reaches step ok s s' := by
  induction es generalizing s with
  | nil =>
      simp only [run_nil, Option.some.injEq] at h
      exact h ▸ Reaches.refl s
  | cons e es ih =>
      obtain ⟨t, ht, hrest⟩ := Option.bind_eq_some_iff.mp h
      obtain ⟨hmeets, hok⟩ := hok
      rw [ht] at hok
      exact ((Reaches.refl s).next hmeets ht).trans (ih hrest hok)

end Mgxx.Library
