import Mgxx.Http.RequestRouting
import Mgxx.Properties.Dispatching
import Mgxx.Properties.Snapshot

/-!
The parameters of a request.  The vector of capture groups has one slot more
than the path has wildcards, and `get_param` answers for every slot.
-/

namespace Mgxx.Http

open Mgxx.Library

variable {maxHeaders : ℕ} {mgMatch : MgMatch} {memory : Memory}
  {msg : MgHttpMessage maxHeaders} {context : ClientInfo} {e : Endpoint}

/-- On success `mg_match` fills slots in order, one for a wildcard at most, and
leaves the others null.  There must be a slot to spare. -/
def MgMatch.FillsSlots (mgMatch : MgMatch) : Prop :=
  ∀ memory uri pattern slots, countGroups pattern < slots →
    (mgMatch memory uri pattern (List.replicate slots Span.null)).1 = true →
    ∃ captures, captures.length ≤ countGroups pattern ∧
      (mgMatch memory uri pattern (List.replicate slots Span.null)).2 =
        captures ++ List.replicate (slots - captures.length) Span.null

def Route.wildcards : Route → ℕ
  | .path p => countGroups p
  | .fallback => 0

namespace Endpoint

/-! ### The number of slots -/

def Counted (e : Endpoint) : Prop :=
  ∀ entry ∈ e.mListeners.entries, entry.2.mGroups = countGroups entry.1

theorem counted_addListener (h : e.Counted) (path : Bytes) (isAsync : Bool) (callback : ℕ) :
    (e.addListener path isAsync callback).Counted := by
  intro entry hentry
  rw [addListener, AList.entries_insert, List.mem_cons] at hentry
  rcases hentry with rfl | hentry
  · rfl
  · exact h entry ((List.kerase_sublist path e.mListeners.entries).subset hentry)

theorem counted_setUp (h : e.Counted) (call : SetUpCall) : (e.setUp call).Counted := by
  cases call with
  | fallback callback => exact h
  | asyncFallback callback => exact h
  | register r =>
      rcases register_eq r with ⟨-, isAsync, callback, hr⟩ | ⟨-, f, hr⟩
      · rw [setUp, hr]
        exact counted_addListener h r.path isAsync callback
      · rw [setUp, hr]
        exact h

theorem counted_foldl_setUp (h : e.Counted) (calls : List SetUpCall) :
    (calls.foldl setUp e).Counted := by
  induction calls generalizing e with
  | nil => exact h
  | cons call calls ih => exact ih (counted_setUp h call)

theorem Counted.sameRoutes {e' : Endpoint} (h : e.Counted) (he : e.SameRoutes e') : e'.Counted :=
  fun entry hentry => h entry (he.mListeners.mem_iff.mpr hentry)

/-- Set up by any calls, in any order of enumeration and at any later time. -/
theorem counted_of_setUp {calls : List SetUpCall} (he : (calls.foldl setUp {}).SameRoutes e) :
    e.Counted :=
  (counted_foldl_setUp (fun _ h => absurd h List.not_mem_nil) calls).sameRoutes he

/-! ### The groups of a request -/

theorem invocation_cases {i : Invocation maxHeaders}
    (h : e.invocation mgMatch memory msg context = some i) :
    (∃ path listener groups, (⟨path, listener⟩ : Σ _ : Bytes, Listener) ∈ e.mListeners.entries ∧
      mgMatch memory msg.uri path (List.replicate (listener.mGroups + 1) Span.null) =
        (true, groups) ∧ i = ⟨.path path, listener, .request msg context groups⟩) ∨
      ∃ listener, i = ⟨.fallback, listener, .request msg context []⟩ := by
  rw [invocation] at h
  split at h
  · rename_i found hfound
    obtain rfl := Option.some.inj h
    obtain ⟨entry, hentry, htry⟩ := List.exists_of_findSome?_eq_some hfound
    rw [tryRoute] at htry
    split at htry
    · rename_i groups hmatch
      exact Or.inl ⟨entry.1, entry.2, groups, hentry, hmatch, (Option.some.inj htry).symm⟩
    · exact absurd htry (by simp)
  · split at h
    · exact absurd h (by simp)
    · obtain ⟨listener, -, hi⟩ := Option.map_eq_some_iff.mp h
      exact Or.inr ⟨listener, hi.symm⟩

/-- The request of a route has a null group after its captures, and that of the
fallback has no groups. -/
theorem mGroups_invocation (hmatch : mgMatch.FillsSlots) (he : e.Counted)
    {i : Invocation maxHeaders} (h : e.invocation mgMatch memory msg context = some i) :
    (∃ path, i.route = .path path ∧ i.request.mGroups.length = countGroups path + 1 ∧
      i.request.mGroups[countGroups path]? = some Span.null) ∨
      i.route = .fallback ∧ i.request.mGroups = [] := by
  rcases invocation_cases h with ⟨path, listener, groups, hmem, heq, rfl⟩ | ⟨listener, rfl⟩
  · have hgroups : listener.mGroups = countGroups path := he _ hmem
    rw [hgroups] at heq
    obtain ⟨captures, hle, hslots⟩ := hmatch memory msg.uri path (countGroups path + 1)
      (Nat.lt_succ_self _) (by rw [heq])
    rw [heq] at hslots
    refine Or.inl ⟨path, rfl, ?_, ?_⟩
    · change groups.length = _
      rw [show groups = _ from hslots, List.length_append, List.length_replicate]
      omega
    · change groups[_]? = _
      rw [show groups = _ from hslots, List.getElem?_append_right hle, List.getElem?_replicate,
        if_pos (by omega)]
  · exact Or.inr ⟨rfl, rfl⟩

end Endpoint

/-! ### The same dispatch in memory -/

def slotText (memory : Memory) (slot : MgStr) : Option Bytes :=
  if slot.buf = 0 then none else some (slot.read memory)

/-- In memory, the matches and the captures of `mg`. -/
structure MgMatch.Refines (mgMatch : MgMatch) (mg : Mongoose) : Prop where
  isMatch : ∀ memory uri pattern slots,
    (mgMatch memory uri pattern slots).1 = (mg.mgMatch (uri.read memory) pattern).isSome
  captures : ∀ memory uri pattern slots captures, countGroups pattern < slots →
    mg.mgMatch (uri.read memory) pattern = some captures →
    (mgMatch memory uri pattern (List.replicate slots Span.null)).2.map (slotText memory) =
      World.groupSlots slots captures

def World.Dispatch.invoked : World.Dispatch → Option (Route × Listener × List (Option Bytes))
  | .listener path handler groups => some (.path path, handler, groups)
  | .fallback handler => some (.fallback, handler, [])
  | .asset .. | .notFound => none

namespace Endpoint

theorem invoked_tryListener {mg : Mongoose} (hmatch : mgMatch.Refines mg)
    {entry : Σ _ : Bytes, Listener} (hgroups : entry.2.mGroups = countGroups entry.1) :
    (World.tryListener mg (msg.uri.read memory) entry).bind World.Dispatch.invoked =
      (tryRoute mgMatch memory msg context entry.1 entry.2).map fun i =>
        (i.route, i.listener, i.request.mGroups.map (slotText memory)) := by
  have hisMatch := hmatch.isMatch memory msg.uri entry.1
    (List.replicate (entry.2.mGroups + 1) Span.null)
  rw [World.tryListener, tryRoute]
  cases hcaptures : mg.mgMatch (msg.uri.read memory) entry.1 with
  | none =>
      rw [hcaptures] at hisMatch
      split
      · rename_i groups heq
        rw [heq] at hisMatch
        exact absurd hisMatch (by simp)
      · rfl
  | some captures =>
      rw [hcaptures] at hisMatch
      have htext := hmatch.captures memory msg.uri entry.1 (entry.2.mGroups + 1) captures
        (by omega) hcaptures
      split
      · rename_i groups heq
        rw [heq] at htext
        simpa [World.Dispatch.invoked, Request.request] using htext.symm
      · rename_i groups heq
        rw [heq] at hisMatch
        exact absurd hisMatch (by simp)

/-- The listener that is invoked is the one that dispatch has found, and its
request has the groups of dispatch. -/
theorem invoked_dispatch {mg : Mongoose} (hmatch : mgMatch.Refines mg) (he : e.Counted)
    (message : Bytes) :
    (World.dispatch mg e ⟨msg.uri.read memory, message⟩).invoked =
      (e.invocation mgMatch memory msg context).map fun i =>
        (i.route, i.listener, i.request.mGroups.map (slotText memory)) := by
  have htry (entry : Σ _ : Bytes, Listener) (hentry : entry ∈ e.mListeners.entries) :=
    @invoked_tryListener _ mgMatch memory msg context mg hmatch entry (he entry hentry)
  have hnone {entry : Σ _ : Bytes, Listener} (hentry : entry ∈ e.mListeners.entries)
      (h : tryRoute mgMatch memory msg context entry.1 entry.2 = none) :
      World.tryListener mg (msg.uri.read memory) entry = none := by
    have hsame := htry entry hentry
    rw [h] at hsame
    rw [World.tryListener] at hsame ⊢
    cases hmatched : mg.mgMatch (msg.uri.read memory) entry.1 with
    | none => rfl
    | some captures =>
        rw [hmatched] at hsame
        exact absurd hsame (by simp [World.Dispatch.invoked])
  rw [invocation]
  cases hfirst : e.mListeners.entries.findSome? fun entry =>
      tryRoute mgMatch memory msg context entry.1 entry.2 with
  | some i =>
      obtain ⟨before, entry, after, hentries, hroute, hbefore⟩ :=
        List.findSome?_eq_some_iff.mp hfirst
      have hsame := htry entry (by simp [hentries])
      rw [hroute] at hsame
      obtain ⟨action, haction, hinvoked⟩ := Option.bind_eq_some_iff.mp hsame
      rw [World.dispatch_of_listener (List.findSome?_eq_some_iff.mpr
        ⟨before, entry, after, hentries, haction, fun x hx =>
          hnone (by simp [hentries, hx]) (hbefore x hx)⟩), hinvoked]
      rfl
  | none =>
      have hall := List.findSome?_eq_none_iff.mp hfirst
      have hunmatched (entry : Σ _ : Bytes, Listener) (hentry : entry ∈ e.mListeners.entries) :
          mg.mgMatch (msg.uri.read memory) entry.1 = none := by
        simpa [World.tryListener] using hnone hentry (hall entry hentry)
      rw [World.dispatch_of_no_listener hunmatched]
      simp only [hmatch.isMatch]
      cases hasset : e.mAssets.entries.find? fun entry =>
          (mg.mgMatch (msg.uri.read memory) entry.1).isSome with
      | some entry =>
          obtain ⟨hentry, -⟩ := List.find?_eq_some_iff_append.mp hasset
          have hany : (e.mAssets.entries.any fun entry =>
              (mg.mgMatch (msg.uri.read memory) entry.1).isSome) = true :=
            List.any_eq_true.mpr ⟨entry, List.mem_of_find?_eq_some hasset, hentry⟩
          simp [hany, World.Dispatch.invoked]
      | none =>
          have hany : (e.mAssets.entries.any fun entry =>
              (mg.mgMatch (msg.uri.read memory) entry.1).isSome) = false := by
            simpa using hasset
          simp only [hany, Bool.false_eq_true, if_false]
          cases e.mFallback <;> rfl

end Endpoint

/-! ### What the handlers see -/

/-- The answer to `get_param(i)` when the path has that many wildcards: there is
one for a capture, and else any default is taken. -/
def ParamFits (wildcards i : ℕ) (param : Option Bytes) : Prop :=
  (param.isSome = true ↔ i < wildcards) ∧
    (wildcards ≤ i → ∀ value, param.getD value = value)

/-- In the request, and in every async request made from it, at any later time. -/
def Request.ParamFits (wildcards i : ℕ) (memory : Memory) (request : Request maxHeaders) : Prop :=
  Http.ParamFits wildcards i (request.getParam memory i) ∧
    ∀ mgStrdup later,
      Http.ParamFits wildcards i ((request.toAsync mgStrdup memory).2.getParam later i)

theorem paramFits_iff_isSome (wildcards i : ℕ) (param : Option Bytes) :
    ParamFits wildcards i param ↔ (param.isSome = true ↔ i < wildcards) := by
  refine and_iff_left_of_imp fun h hle value => ?_
  have hnone : param = none := by
    rw [← Option.not_isSome_iff_eq_none, h]
    exact Nat.not_lt.mpr hle
  rw [hnone, Option.getD_none]

theorem Request.paramFits_iff {wildcards i : ℕ} {request : Request maxHeaders} :
    request.ParamFits wildcards i memory ↔ (i < request.mGroups.length ↔ i < wildcards) := by
  have hrequest : (request.getParam memory i).isSome = true ↔ i < request.mGroups.length := by
    simp [getParam]
  have hasync (mgStrdup : Memory → MgStr → Memory × MgStr) (later : Memory) :
      ((request.toAsync mgStrdup memory).2.getParam later i).isSome = true ↔
        i < request.mGroups.length := by
    simp [AsyncRequest.getParam, toAsync, AsyncRequest.asyncRequest]
  simp only [Request.ParamFits, paramFits_iff_isSome, hrequest, hasync]
  exact and_iff_left_of_imp fun h _ _ => h

/-- A handler finds parameters exactly for the captures of its route, except
that `get_param` also answers for the spare slot. -/
theorem params_fit_iff (hmatch : mgMatch.FillsSlots) {calls : List SetUpCall}
    (he : (calls.foldl Endpoint.setUp {}).SameRoutes e) {invocation : Invocation maxHeaders}
    (h : e.invocation mgMatch memory msg context = some invocation) (i : ℕ) :
    invocation.request.ParamFits invocation.route.wildcards i memory ↔
      ∀ path, invocation.route = .path path → i ≠ countGroups path := by
  rw [Request.paramFits_iff]
  rcases Endpoint.mGroups_invocation hmatch (Endpoint.counted_of_setUp he) h with
    ⟨path, hroute, hlength, -⟩ | ⟨hroute, hnil⟩
  · rw [hroute, hlength]
    simp only [Route.wildcards, Route.path.injEq, forall_eq']
    omega
  · simp [hroute, hnil, Route.wildcards]

/-- What the spare slot answers: an empty string. -/
theorem getParam_spare (hmatch : mgMatch.FillsSlots) {calls : List SetUpCall}
    (he : (calls.foldl Endpoint.setUp {}).SameRoutes e) {invocation : Invocation maxHeaders}
    (h : e.invocation mgMatch memory msg context = some invocation) {path : Bytes}
    (hpath : invocation.route = .path path) :
    invocation.request.getParam memory (countGroups path) = some [] := by
  rcases Endpoint.mGroups_invocation hmatch (Endpoint.counted_of_setUp he) h with
    ⟨path', hroute, -, hspare⟩ | ⟨hroute, -⟩
  · obtain rfl : path' = path := Route.path.inj (hroute.symm.trans hpath)
    rw [Request.getParam, hspare]
    rfl
  · rw [hroute] at hpath
    exact absurd hpath (by simp)

section Example

open AsyncRequest

def literalMatch : MgMatch := fun memory uri pattern slots => (uri.read memory == pattern, slots)

theorem fillsSlots_literalMatch : literalMatch.FillsSlots := by
  intro memory uri pattern slots _ _
  exact ⟨[], Nat.zero_le _, by simp [literalMatch]⟩

def rootRoute : List SetUpCall := [.register (.request (text "/") 0)]

def rootInvocation : Invocation 2 where
  route := .path (text "/")
  listener := ⟨0, false, 0⟩
  request := .request plainRequest.mMsg ⟨plainRequest.mIp, none⟩ [Span.null]

theorem params_fit_iff_root : rootInvocation.request.ParamFits 0 1 plainMemory := by
  have hroutes : (rootRoute.foldl Endpoint.setUp {}).SameRoutes
      (rootRoute.foldl Endpoint.setUp {}) := .refl _
  have hinvoked : (rootRoute.foldl Endpoint.setUp {}).invocation literalMatch plainMemory
      plainRequest.mMsg ⟨plainRequest.mIp, none⟩ = some rootInvocation := rfl
  refine (params_fit_iff fillsSlots_literalMatch hroutes hinvoked 1).mpr fun path hpath => ?_
  obtain rfl := Route.path.inj hpath
  decide

/-- A route without wildcards has a parameter, an empty one: `value_or` does not
give the default. -/
theorem empty_param :
    (rootRoute.foldl Endpoint.setUp {}).invocation literalMatch plainMemory plainRequest.mMsg
        ⟨plainRequest.mIp, none⟩ = some rootInvocation ∧
      rootInvocation.request.getParam plainMemory 0 = some [] ∧
      ¬ rootInvocation.request.ParamFits 0 0 plainMemory :=
  ⟨rfl, rfl, fun h => absurd (h.1.2 (Nat.le_refl 0) (text "unknown")) (by decide)⟩

end Example

end Mgxx.Http
