import Mathlib.Data.List.AList
import Mathlib.Logic.Function.Basic

/-!
Maps of maps, over Mathlib's association lists with distinct keys.  The list
order of such a map stands for the order in which a hash map enumerates its
entries; every law below speaks of lookups and of membership, so that nothing
depends on that order.
-/

namespace Mgxx.Library

/-- A finite map with distinct keys, enumerated in list order. -/
abbrev UnorderedMap (κ β : Type*) := AList fun _ : κ => β

abbrev NestedMap (κ ι β : Type*) := UnorderedMap κ (UnorderedMap ι β)

namespace NestedMap

variable {κ ι β : Type*} [DecidableEq κ] [DecidableEq ι]

def find (m : NestedMap κ ι β) (k : κ) (i : ι) : Option β :=
  (m.lookup k).bind fun inner => inner.lookup i

/-- `m[k][i] = b`, creating the inner map when it is missing. -/
def set (m : NestedMap κ ι β) (k : κ) (i : ι) (b : β) : NestedMap κ ι β :=
  m.insert k (((m.lookup k).getD ∅).insert i b)

/-- Erase `i` from the inner map of `k`, which stays even when it is empty. -/
def eraseAt (m : NestedMap κ ι β) (k : κ) (i : ι) : NestedMap κ ι β :=
  match m.lookup k with
  | none => m
  | some inner => m.insert k (inner.erase i)

def prune (m : NestedMap κ ι β) (k : κ) : NestedMap κ ι β :=
  match m.lookup k with
  | none => m
  | some inner => if inner.entries.isEmpty then m.erase k else m

def values (m : NestedMap κ ι β) : List β :=
  m.entries.flatMap fun entry => entry.2.entries.map Sigma.snd

@[simp] theorem find_empty (k : κ) (i : ι) : find (∅ : NestedMap κ ι β) k i = none := rfl

theorem find_of_lookup_none {m : NestedMap κ ι β} {k : κ} (h : m.lookup k = none) (i : ι) :
    find m k i = none := by simp [find, h]

theorem find_of_lookup {m : NestedMap κ ι β} {k : κ} {inner : UnorderedMap ι β}
    (h : m.lookup k = some inner) (i : ι) : find m k i = inner.lookup i := by simp [find, h]

theorem exists_lookup_of_find {m : NestedMap κ ι β} {k : κ} {i : ι} {b : β}
    (h : find m k i = some b) :
    ∃ inner, m.lookup k = some inner ∧ inner.lookup i = some b :=
  Option.bind_eq_some_iff.mp h

theorem find_insert (m : NestedMap κ ι β) (k k' : κ) (inner : UnorderedMap ι β) (i : ι) :
    find (m.insert k inner) k' i = if k' = k then inner.lookup i else find m k' i := by
  by_cases hk : k' = k
  · subst k'
    simp [find, AList.lookup_insert]
  · simp [find, hk, AList.lookup_insert_ne hk]

theorem find_erase (m : NestedMap κ ι β) (k k' : κ) (i : ι) :
    find (m.erase k) k' i = if k' = k then none else find m k' i := by
  by_cases hk : k' = k
  · subst k'
    simp [find]
  · simp [find, hk]

theorem find_set (m : NestedMap κ ι β) (k k' : κ) (i i' : ι) (b : β) :
    find (set m k i b) k' i' = if k' = k ∧ i' = i then some b else find m k' i' := by
  rw [set, find_insert]
  by_cases hk : k' = k
  · subst k'
    by_cases hi : i' = i
    · subst i'
      simp [AList.lookup_insert]
    · rw [if_pos rfl, AList.lookup_insert_ne hi]
      cases hm : m.lookup k <;> simp [find, hm, hi]
  · simp [hk]

theorem find_eraseAt (m : NestedMap κ ι β) (k k' : κ) (i i' : ι) :
    find (eraseAt m k i) k' i' = if k' = k ∧ i' = i then none else find m k' i' := by
  cases hm : m.lookup k with
  | none =>
      simp only [eraseAt, hm]
      by_cases hk : k' = k
      · subst k'
        simp [find_of_lookup_none hm]
      · simp [hk]
  | some inner =>
      simp only [eraseAt, hm, find_insert]
      by_cases hk : k' = k
      · subst k'
        by_cases hi : i' = i
        · subst i'
          simp
        · simp [hi, find_of_lookup hm]
      · simp [hk]

/-- Dropping an empty inner map changes no lookup. -/
@[simp] theorem find_prune (m : NestedMap κ ι β) (k k' : κ) (i : ι) :
    find (prune m k) k' i = find m k' i := by
  cases hm : m.lookup k with
  | none => simp [prune, hm]
  | some inner =>
      simp only [prune, hm]
      split
      · rename_i hempty
        rw [find_erase]
        by_cases hk : k' = k
        · subst k'
          have hnil : inner = ∅ := AList.ext (by simpa using hempty)
          simp [find_of_lookup hm, hnil]
        · simp [hk]
      · rfl

theorem lookup_set_of_ne {k k' : κ} (h : k' ≠ k) (m : NestedMap κ ι β) (i : ι) (b : β) :
    (m.set k i b).lookup k' = m.lookup k' := AList.lookup_insert_ne h

theorem lookup_eraseAt_of_ne {k k' : κ} (h : k' ≠ k) (m : NestedMap κ ι β) (i : ι) :
    (m.eraseAt k i).lookup k' = m.lookup k' := by
  unfold eraseAt
  split
  · rfl
  · exact AList.lookup_insert_ne h

omit [DecidableEq ι] in
theorem lookup_prune_of_ne {k k' : κ} (h : k' ≠ k) (m : NestedMap κ ι β) :
    (m.prune k).lookup k' = m.lookup k' := by
  unfold prune
  split
  · rfl
  · split_ifs
    · exact AList.lookup_erase_ne h
    · rfl

theorem find_eq_some_iff {m : NestedMap κ ι β} {k : κ} {i : ι} {b : β} :
    find m k i = some b ↔
      ∃ inner, (⟨k, inner⟩ : Σ _ : κ, UnorderedMap ι β) ∈ m.entries ∧
        (⟨i, b⟩ : Σ _ : ι, β) ∈ inner.entries := by
  constructor
  · intro h
    obtain ⟨inner, hk, hi⟩ := exists_lookup_of_find h
    exact ⟨inner, AList.mem_lookup_iff.mp hk, AList.mem_lookup_iff.mp hi⟩
  · rintro ⟨inner, hk, hi⟩
    rw [find_of_lookup (AList.mem_lookup_iff.mpr hk)]
    exact AList.mem_lookup_iff.mpr hi

theorem mem_values {m : NestedMap κ ι β} {b : β} :
    b ∈ values m ↔ ∃ k i, find m k i = some b := by
  simp only [values, List.mem_flatMap, List.mem_map, find_eq_some_iff]
  constructor
  · rintro ⟨⟨k, inner⟩, hk, ⟨i, b'⟩, hi, rfl⟩
    exact ⟨k, i, inner, hk, hi⟩
  · rintro ⟨k, i, inner, hk, hi⟩
    exact ⟨⟨k, inner⟩, hk, ⟨i, b⟩, hi, rfl⟩

/-! ### The number of entries under a key -/

def size (m : NestedMap κ ι β) (k : κ) : ℕ := ((m.lookup k).getD ∅).entries.length

theorem find_ne_none_of_mem {m : NestedMap κ ι β} {k : κ} {entry : Σ _ : ι, β}
    (h : entry ∈ ((m.lookup k).getD ∅).entries) : find m k entry.1 ≠ none := by
  cases hk : m.lookup k with
  | none => simp [hk] at h
  | some inner =>
      rw [hk] at h
      have hlookup : inner.lookup entry.1 = some entry.2 := AList.mem_lookup_iff.mpr h
      rw [find_of_lookup hk, hlookup]
      simp

theorem size_eq_zero {m : NestedMap κ ι β} {k : κ} (h : ∀ i, find m k i = none) :
    size m k = 0 := by
  refine List.length_eq_zero_iff.mpr (List.eq_nil_iff_forall_not_mem.mpr ?_)
  intro entry hentry
  exact find_ne_none_of_mem hentry (h entry.1)

/-- The keys are distinct, so that one key stands for one entry. -/
theorem size_le_one {m : NestedMap κ ι β} {k : κ} {i : ι} (h : ∀ j, find m k j ≠ none → j = i) :
    size m k ≤ 1 := by
  have hkeys : (((m.lookup k).getD ∅).entries.map Sigma.fst).Nodup :=
    ((m.lookup k).getD ∅).nodupKeys
  have hall : ∀ j ∈ ((m.lookup k).getD ∅).entries.map Sigma.fst, j = i := by
    intro j hj
    obtain ⟨entry, hentry, rfl⟩ := List.mem_map.mp hj
    exact h entry.1 (find_ne_none_of_mem hentry)
  rw [List.eq_replicate_of_mem hall, List.nodup_replicate, List.length_map] at hkeys
  exact hkeys

/-! ### Maps that keep no empty inner map -/

def InnerNonempty (m : NestedMap κ ι β) : Prop :=
  ∀ k inner, m.lookup k = some inner → inner.entries ≠ []

omit [DecidableEq ι] in
theorem innerNonempty_empty : InnerNonempty (∅ : NestedMap κ ι β) := by
  intro k inner h
  exact absurd h (by simp)

theorem innerNonempty_set {m : NestedMap κ ι β} (h : InnerNonempty m) (k : κ) (i : ι) (b : β) :
    InnerNonempty (set m k i b) := by
  intro k' inner hinner
  by_cases hk : k' = k
  · subst k'
    rw [set, AList.lookup_insert, Option.some.injEq] at hinner
    rw [← hinner, AList.entries_insert]
    exact List.cons_ne_nil _ _
  · rw [set, AList.lookup_insert_ne hk] at hinner
    exact h k' inner hinner

omit [DecidableEq ι] in
theorem innerNonempty_erase {m : NestedMap κ ι β} (h : InnerNonempty m) (k : κ) :
    InnerNonempty (m.erase k) := by
  intro k' inner hinner
  by_cases hk : k' = k
  · subst k'
    exact absurd hinner (by simp)
  · rw [AList.lookup_erase_ne hk] at hinner
    exact h k' inner hinner

/-- An erase that drops the inner map it has emptied. -/
theorem innerNonempty_prune_eraseAt {m : NestedMap κ ι β} (h : InnerNonempty m) (k : κ) (i : ι) :
    InnerNonempty (prune (eraseAt m k i) k) := by
  cases hm : m.lookup k with
  | none => simpa only [eraseAt, hm, prune] using h
  | some inner =>
      simp only [eraseAt, hm, prune, AList.lookup_insert]
      split
      · rename_i hempty
        intro k' inner' hinner
        by_cases hk : k' = k
        · subst k'
          exact absurd hinner (by simp)
        · rw [AList.lookup_erase_ne hk, AList.lookup_insert_ne hk] at hinner
          exact h k' inner' hinner
      · rename_i hsome
        intro k' inner' hinner
        by_cases hk : k' = k
        · subst k'
          rw [AList.lookup_insert, Option.some.injEq] at hinner
          subst hinner
          simpa using hsome
        · rw [AList.lookup_insert_ne hk] at hinner
          exact h k' inner' hinner

end NestedMap

/-! ### Updating a heap along a list of addresses -/

section Heap

variable {α β : Type*} [DecidableEq α]

def modifyAt (heap : α → β) (a : α) (g : β → β) : α → β := Function.update heap a (g (heap a))

@[simp] theorem modifyAt_self (heap : α → β) (a : α) (g : β → β) :
    modifyAt heap a g a = g (heap a) := Function.update_self ..

theorem modifyAt_of_fixed {heap : α → β} {a : α} {g : β → β} (h : g (heap a) = heap a) :
    modifyAt heap a g = heap := by rw [modifyAt, h, Function.update_eq_self]

theorem modifyAt_congr {heap : α → β} {a : α} {g g' : β → β} (h : g (heap a) = g' (heap a)) :
    modifyAt heap a g = modifyAt heap a g' := by rw [modifyAt, modifyAt, h]

theorem modifyAt_of_ne {a b : α} (h : b ≠ a) (heap : α → β) (g : β → β) :
    modifyAt heap a g b = heap b := Function.update_of_ne h ..

theorem modifyAt_apply (heap : α → β) (a b : α) (g : β → β) :
    modifyAt heap a g b = if b = a then g (heap a) else heap b := Function.update_apply ..

/-- What `g` keeps of a cell stays the same in every cell. -/
theorem field_modifyAt {γ : Type*} (field : β → γ) {g : β → β} (h : ∀ x, field (g x) = field x)
    (heap : α → β) (a b : α) : field (modifyAt heap a g b) = field (heap b) := by
  rw [modifyAt_apply]
  split_ifs with hb
  · rw [h, hb]
  · rfl

/-- A loop that applies an idempotent `g` to listed cells applies it once to
each of them, however often it is listed. -/
theorem foldl_modifyAt_apply {g : β → β} (hg : ∀ x, g (g x) = g x) (l : List α)
    (heap : α → β) (a : α) :
    l.foldl (fun h b => modifyAt h b g) heap a = if a ∈ l then g (heap a) else heap a := by
  induction l generalizing heap with
  | nil => simp
  | cons b l ih =>
      rw [List.foldl_cons, ih, modifyAt_apply]
      by_cases hab : a = b
      · subst a
        by_cases hl : b ∈ l <;> simp [hl, hg]
      · simp [hab]

end Heap

end Mgxx.Library
