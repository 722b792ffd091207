import Mgxx.Http.Routes
import Mgxx.Library.FirstMatch

/-!
Dispatch and the order in which the route maps enumerate their entries.
-/

namespace Mgxx.Http

open Mgxx.Library

/-- A registration writes one entry of one of the two maps. -/
theorem Endpoint.register_eq (r : Registration) :
    (r.isListener = true ∧ ∃ isAsync callback, ∀ e : Endpoint,
        e.register r = e.addListener r.path isAsync callback) ∨
      (r.isListener = false ∧ ∃ f, ∀ e : Endpoint, e.register r = e.updateAsset r.path f) := by
  cases r with
  | request path callback => exact Or.inl ⟨rfl, false, callback, fun _ => rfl⟩
  | asyncRequest path callback => exact Or.inl ⟨rfl, true, callback, fun _ => rfl⟩
  | asset path asset mimeType headers =>
      exact Or.inr ⟨rfl, setFile asset mimeType headers, fun _ => rfl⟩
  | assets path assets => exact Or.inr ⟨rfl, setDirectory assets, fun _ => rfl⟩

/-- The same routes, in maps that may enumerate them in another order. -/
structure Endpoint.SameRoutes (e e' : Endpoint) : Prop where
  mListeners : e.mListeners.entries.Perm e'.mListeners.entries
  mAssets : e.mAssets.entries.Perm e'.mAssets.entries
  mFallback : e.mFallback = e'.mFallback

namespace Endpoint.SameRoutes

variable {e e' e'' : Endpoint}

theorem refl (e : Endpoint) : e.SameRoutes e := ⟨.refl _, .refl _, rfl⟩

theorem trans (h : e.SameRoutes e') (h' : e'.SameRoutes e'') : e.SameRoutes e'' :=
  ⟨h.mListeners.trans h'.mListeners, h.mAssets.trans h'.mAssets, h.mFallback.trans h'.mFallback⟩

theorem addListener (h : e.SameRoutes e') (path : Bytes) (isAsync : Bool) (callback : ℕ) :
    (e.addListener path isAsync callback).SameRoutes (e'.addListener path isAsync callback) :=
  ⟨AList.perm_insert h.mListeners, h.mAssets, h.mFallback⟩

theorem updateAsset (h : e.SameRoutes e') (path : Bytes) (f : Asset → Asset) :
    (e.updateAsset path f).SameRoutes (e'.updateAsset path f) := by
  refine ⟨h.mListeners, ?_, h.mFallback⟩
  simp only [Endpoint.updateAsset, AList.perm_lookup h.mAssets]
  exact AList.perm_insert h.mAssets

theorem register (h : e.SameRoutes e') (r : Registration) :
    (e.register r).SameRoutes (e'.register r) := by
  rcases register_eq r with ⟨-, isAsync, callback, hr⟩ | ⟨-, f, hr⟩
  · rw [hr, hr]
    exact h.addListener r.path isAsync callback
  · rw [hr, hr]
    exact h.updateAsset r.path f

variable (e) in
theorem addListener_comm {path path' : Bytes} (hne : path ≠ path') (a a' : Bool) (k k' : ℕ) :
    ((e.addListener path a k).addListener path' a' k').SameRoutes
      ((e.addListener path' a' k').addListener path a k) :=
  ⟨AList.insert_insert_of_ne _ hne, .refl _, rfl⟩

variable (e) in
theorem updateAsset_comm {path path' : Bytes} (hne : path ≠ path') (f f' : Asset → Asset) :
    ((e.updateAsset path f).updateAsset path' f').SameRoutes
      ((e.updateAsset path' f').updateAsset path f) := by
  refine ⟨.refl _, ?_, rfl⟩
  simp only [Endpoint.updateAsset, AList.lookup_insert_ne hne, AList.lookup_insert_ne hne.symm]
  exact AList.insert_insert_of_ne _ hne

end Endpoint.SameRoutes

def Registration.Apart (r r' : Registration) : Prop :=
  r.isListener = r'.isListener → r.path ≠ r'.path

theorem Registration.Apart.symm {r r' : Registration} (h : r.Apart r') : r'.Apart r :=
  fun hkind hpath => h hkind.symm hpath.symm

namespace Endpoint

variable {e : Endpoint} {rs rs' : List Registration}

variable (e) in
theorem register_comm {r r' : Registration} (h : r.Apart r') :
    ((e.register r).register r').SameRoutes ((e.register r').register r) := by
  rcases register_eq r with ⟨hkind, a, k, hr⟩ | ⟨hkind, f, hr⟩ <;>
    rcases register_eq r' with ⟨hkind', a', k', hr'⟩ | ⟨hkind', f', hr'⟩ <;>
    simp only [hr, hr']
  · exact SameRoutes.addListener_comm e (h (hkind.trans hkind'.symm)) a a' k k'
  · exact .refl _
  · exact .refl _
  · exact SameRoutes.updateAsset_comm e (h (hkind.trans hkind'.symm)) f f'

/-- Routes with distinct paths may be registered in any order. -/
theorem sameRoutes_of_perm (h : rs.Perm rs') (hapart : rs.Pairwise Registration.Apart)
    {e' : Endpoint} (he : e.SameRoutes e') :
    (rs.foldl register e).SameRoutes (rs'.foldl register e') := by
  induction h generalizing e e' with
  | nil => exact he
  | cons r _ ih => exact ih hapart.of_cons (he.register r)
  | swap r r' rs =>
      have hsame {e e' : Endpoint} (he : e.SameRoutes e') :
          (rs.foldl register e).SameRoutes (rs.foldl register e') := by
        clear hapart
        induction rs generalizing e e' with
        | nil => exact he
        | cons r rs ih => exact ih (he.register r)
      have hrr' : r'.Apart r := (List.pairwise_cons.mp hapart).1 r List.mem_cons_self
      exact hsame (((he.register r').register r).trans (register_comm e' hrr'))
  | trans h₁ _ ih₁ ih₂ =>
      have hapart₂ := (h₁.pairwise_iff fun hab => Registration.Apart.symm hab).mp hapart
      exact (ih₁ hapart he).trans (ih₂ hapart₂ (.refl e'))

end Endpoint

namespace World

variable {mg : Mongoose} {e e' : Endpoint} {msg : HttpMessage}

/-- One listener matches at most, or none and one asset at most. -/
structure Unambiguous (mg : Mongoose) (e : Endpoint) (uri : Bytes) : Prop where
  listeners : e.mListeners.entries.countP (fun entry => (mg.mgMatch uri entry.1).isSome) ≤ 1
  assets : (∀ entry ∈ e.mListeners.entries, mg.mgMatch uri entry.1 = none) →
    e.mAssets.entries.countP (fun entry => (mg.mgMatch uri entry.1).isSome) ≤ 1

def tryListener (mg : Mongoose) (uri : Bytes) (entry : Σ _ : Bytes, Listener) : Option Dispatch :=
  (mg.mgMatch uri entry.1).map fun captures =>
    .listener entry.1 entry.2 (groupSlots (entry.2.mGroups + 1) captures)

theorem isSome_tryListener (uri : Bytes) (entry : Σ _ : Bytes, Listener) :
    (tryListener mg uri entry).isSome = (mg.mgMatch uri entry.1).isSome := by
  simp [tryListener]

theorem dispatch_of_listener {action : Dispatch}
    (h : e.mListeners.entries.findSome? (tryListener mg msg.uri) = some action) :
    dispatch mg e msg = action := by
  unfold dispatch
  exact h ▸ rfl

theorem dispatch_of_no_listener
    (h : ∀ entry ∈ e.mListeners.entries, mg.mgMatch msg.uri entry.1 = none) :
    dispatch mg e msg =
      match e.mAssets.entries.find? fun entry => (mg.mgMatch msg.uri entry.1).isSome with
      | some entry => .asset entry.1 entry.2
      | none => match e.mFallback with
        | some listener => .fallback listener
        | none => .notFound := by
  have hnone : e.mListeners.entries.findSome? (tryListener mg msg.uri) = none :=
    List.findSome?_eq_none_iff.mpr fun entry hentry => by simp [tryListener, h entry hentry]
  unfold dispatch
  exact hnone ▸ rfl

theorem dispatch_eq_of_sameRoutes (h : e.SameRoutes e') (hone : Unambiguous mg e msg.uri) :
    dispatch mg e msg = dispatch mg e' msg := by
  have hcount : (e.mListeners.entries.filterMap (tryListener mg msg.uri)).length ≤ 1 := by
    rw [List.length_filterMap_eq_countP]
    simpa only [isSome_tryListener] using hone.listeners
  have hfirst := findSome?_eq_of_perm h.mListeners hcount
  cases hmatch : e.mListeners.entries.findSome? (tryListener mg msg.uri) with
  | some action => rw [dispatch_of_listener hmatch, dispatch_of_listener (hfirst ▸ hmatch)]
  | none =>
      have hnone : ∀ entry ∈ e.mListeners.entries, mg.mgMatch msg.uri entry.1 = none := by
        intro entry hentry
        simpa [tryListener] using List.findSome?_eq_none_iff.mp hmatch entry hentry
      have hnone' : ∀ entry ∈ e'.mListeners.entries, mg.mgMatch msg.uri entry.1 = none :=
        fun entry hentry => hnone entry (h.mListeners.mem_iff.mpr hentry)
      rw [dispatch_of_no_listener hnone, dispatch_of_no_listener hnone', h.mFallback,
        find?_eq_of_perm h.mAssets (hone.assets hnone)]

/-- Two elements of a map that come first in some order have different keys. -/
theorem ne_of_perm_two {β : Type} {m : UnorderedMap Bytes β} {a b : Σ _ : Bytes, β}
    {rest : List (Σ _ : Bytes, β)} (h : m.entries.Perm (a :: b :: rest)) : a.1 ≠ b.1 := by
  have hkeys : (a :: b :: rest).NodupKeys := (List.perm_nodupKeys h).mp m.nodupKeys
  intro heq
  exact (List.nodupKeys_cons.mp hkeys).1 (by simp [heq])

/-- The same routes with these listeners in this order. -/
theorem exists_listeners_order {l : List (Σ _ : Bytes, Listener)}
    (h : e.mListeners.entries.Perm l) :
    ∃ e', e.SameRoutes e' ∧ e'.mListeners.entries = l :=
  ⟨{ e with mListeners := ⟨l, (List.perm_nodupKeys h).mp e.mListeners.nodupKeys⟩ },
    ⟨h, .refl _, rfl⟩, rfl⟩

theorem exists_assets_order {l : List (Σ _ : Bytes, Asset)} (h : e.mAssets.entries.Perm l) :
    ∃ e', e.SameRoutes e' ∧ e'.mListeners = e.mListeners ∧ e'.mAssets.entries = l :=
  ⟨{ e with mAssets := ⟨l, (List.perm_nodupKeys h).mp e.mAssets.nodupKeys⟩ },
    ⟨.refl _, h, rfl⟩, rfl, rfl⟩

theorem dispatch_of_first_listener {path : Bytes} {listener : Listener}
    {rest : List (Σ _ : Bytes, Listener)} (h : e.mListeners.entries = ⟨path, listener⟩ :: rest)
    (hmatch : (mg.mgMatch msg.uri path).isSome = true) :
    ∃ groups, dispatch mg e msg = .listener path listener groups := by
  obtain ⟨captures, hcaptures⟩ := Option.isSome_iff_exists.mp hmatch
  refine ⟨groupSlots (listener.mGroups + 1) captures, dispatch_of_listener ?_⟩
  rw [h]
  simp [tryListener, hcaptures]

theorem dispatch_of_first_asset {entry : Σ _ : Bytes, Asset} {rest : List (Σ _ : Bytes, Asset)}
    (hnone : ∀ entry ∈ e.mListeners.entries, mg.mgMatch msg.uri entry.1 = none)
    (h : e.mAssets.entries = entry :: rest)
    (hmatch : (mg.mgMatch msg.uri entry.1).isSome = true) :
    dispatch mg e msg = .asset entry.1 entry.2 := by
  rw [dispatch_of_no_listener hnone, h]
  simp [hmatch]

/-- The action for a message is the same for every two orders of the maps
exactly when one listener matches its URI at most, or none and one asset at most. -/
theorem dispatch_eq_iff_unambiguous (mg : Mongoose) (e : Endpoint) (msg : HttpMessage) :
    (∀ e₁ e₂, e.SameRoutes e₁ → e.SameRoutes e₂ →
        dispatch mg e₁ msg = dispatch mg e₂ msg) ↔ Unambiguous mg e msg.uri := by
  constructor
  · intro hsame
    constructor
    · by_contra htwo
      obtain ⟨a, b, rest, ha, hb, hmatcha, hmatchb⟩ := exists_perm_of_two (Nat.lt_of_not_le htwo)
      obtain ⟨e₁, he₁, hentries₁⟩ := exists_listeners_order ha
      obtain ⟨e₂, he₂, hentries₂⟩ := exists_listeners_order hb
      obtain ⟨groups₁, h₁⟩ := dispatch_of_first_listener hentries₁ hmatcha
      obtain ⟨groups₂, h₂⟩ := dispatch_of_first_listener hentries₂ hmatchb
      have heq := hsame e₁ e₂ he₁ he₂
      rw [h₁, h₂] at heq
      exact ne_of_perm_two ha (Dispatch.listener.inj heq).1
    · intro hnone
      by_contra htwo
      obtain ⟨a, b, rest, ha, hb, hmatcha, hmatchb⟩ := exists_perm_of_two (Nat.lt_of_not_le htwo)
      obtain ⟨e₁, he₁, hlisteners₁, hentries₁⟩ := exists_assets_order ha
      obtain ⟨e₂, he₂, hlisteners₂, hentries₂⟩ := exists_assets_order hb
      have heq := hsame e₁ e₂ he₁ he₂
      rw [dispatch_of_first_asset (by rwa [hlisteners₁]) hentries₁ hmatcha,
        dispatch_of_first_asset (by rwa [hlisteners₂]) hentries₂ hmatchb] at heq
      exact ne_of_perm_two ha (Dispatch.asset.inj heq).1
  · intro hone e₁ e₂ he₁ he₂
    rw [← dispatch_eq_of_sameRoutes he₁ hone, ← dispatch_eq_of_sameRoutes he₂ hone]

def twoPatterns : Mongoose :=
  { Mongoose.plain with
    mgMatch := fun uri pattern =>
      if uri ≠ text "/a/b" then none
      else if pattern = text "/a/*" then some [text "b"]
      else if pattern = text "/#" then some [text "a/b"]
      else none }

/-- A specific route and a catch-all, registered in two orders: the request
goes to the one listener or to the other. -/
theorem dispatch_depends_on_order : ∃ e₁ e₂ : Endpoint,
    e₁ = [Registration.request (text "/a/*") 0, .request (text "/#") 1].foldl Endpoint.register {} ∧
      e₁.SameRoutes e₂ ∧
      dispatch twoPatterns e₁ ⟨text "/a/b", []⟩ ≠ dispatch twoPatterns e₂ ⟨text "/a/b", []⟩ := by
  have hapart : [Registration.request (text "/a/*") 0, .request (text "/#") 1].Pairwise
      Registration.Apart := by
    simp only [List.pairwise_cons, List.mem_singleton, forall_eq, List.not_mem_nil,
      false_imp_iff, implies_true, List.Pairwise.nil, and_true]
    exact fun _ => by decide
  have hmatch : (twoPatterns.mgMatch (text "/a/b") (text "/#")).isSome = true ∧
      (twoPatterns.mgMatch (text "/a/b") (text "/a/*")).isSome = true := by decide
  refine ⟨_, [Registration.request (text "/#") 1, .request (text "/a/*") 0].foldl
    Endpoint.register {}, rfl, Endpoint.sameRoutes_of_perm (.swap ..) hapart (.refl _), ?_⟩
  obtain ⟨_, h₁⟩ : ∃ groups, dispatch twoPatterns
      ([Registration.request (text "/a/*") 0, .request (text "/#") 1].foldl Endpoint.register {})
      ⟨text "/a/b", []⟩ = .listener (text "/#") ⟨1, false, 1⟩ groups :=
    dispatch_of_first_listener rfl hmatch.1
  obtain ⟨_, h₂⟩ : ∃ groups, dispatch twoPatterns
      ([Registration.request (text "/#") 1, .request (text "/a/*") 0].foldl Endpoint.register {})
      ⟨text "/a/b", []⟩ = .listener (text "/a/*") ⟨1, false, 0⟩ groups :=
    dispatch_of_first_listener rfl hmatch.2
  rw [h₁, h₂]
  intro heq
  exact absurd (Dispatch.listener.inj heq).1 (by decide)

end World

end Mgxx.Http
