import Mathlib.Data.Finmap
import Mathlib.Data.List.FinRange
import Mathlib.Data.PNat.Basic

/-!
A hash table with separate chaining, searched with an equality that need not be
equality of keys.

The equality is given by its classes: `same a b` says that `key a = key b`.  If
the hash function respects it, then the table is the finite map from classes to
values, whatever the number of buckets.
-/

namespace Mgxx.Library

variable {κ β γ : Type*}

/-! ### One bucket -/

namespace Bucket

section Operations

variable (same : κ → κ → Bool)

def find (bucket : List (κ × β)) (k : κ) : Option (κ × β) :=
  bucket.find? fun entry => same entry.1 k

/-- Replace the value of `k`, or append an entry for it. -/
def insert (bucket : List (κ × β)) (k : κ) (b : β) : List (κ × β) :=
  if bucket.any fun entry => same entry.1 k then
    bucket.map fun entry => if same entry.1 k then (entry.1, b) else entry
  else bucket ++ [(k, b)]

def erase (bucket : List (κ × β)) (k : κ) : List (κ × β) :=
  bucket.eraseP fun entry => same entry.1 k

/-- No two entries are found under the same key. -/
def Distinct (bucket : List (κ × β)) : Prop :=
  bucket.Pairwise fun a b => same a.1 b.1 = false

end Operations

variable {same : κ → κ → Bool} {key : κ → γ} {bucket : List (κ × β)} {entry : κ × β} {k k' : κ}

@[simp] theorem find_nil : find same ([] : List (κ × β)) k = none := rfl

theorem find_cons_of_pos (hk : same entry.1 k = true) :
    find same (entry :: bucket) k = some entry := by simp [find, hk]

theorem find_cons_of_neg (hk : ¬ same entry.1 k = true) :
    find same (entry :: bucket) k = find same bucket k := by simp [find, hk]

theorem find_eq_none : find same bucket k = none ↔ ∀ entry ∈ bucket, ¬ same entry.1 k = true := by
  simp [find]

theorem same_of_find (h : find same bucket k = some entry) : same entry.1 k = true := by
  have hfound := List.find?_some h
  exact hfound

theorem erase_cons_of_pos (hk : same entry.1 k = true) :
    erase same (entry :: bucket) k = bucket := by simp [erase, hk]

theorem erase_cons_of_neg (hk : ¬ same entry.1 k = true) :
    erase same (entry :: bucket) k = entry :: erase same bucket k := by simp [erase, hk]

/-- Insertion writes its value, under `k` or under a key that is there. -/
theorem mem_insert {b : β} (h : entry ∈ insert same bucket k b) :
    entry ∈ bucket ∨ entry.2 = b ∧ (entry.1 = k ∨ ∃ old ∈ bucket, old.1 = entry.1) := by
  unfold insert at h
  split at h
  · obtain ⟨old, hold, rfl⟩ := List.mem_map.mp h
    split
    · exact Or.inr ⟨rfl, Or.inr ⟨old, hold, rfl⟩⟩
    · exact Or.inl hold
  · rcases List.mem_append.mp h with h | h
    · exact Or.inl h
    · obtain rfl := List.mem_singleton.mp h
      exact Or.inr ⟨rfl, Or.inl rfl⟩

theorem key_mem_insert {b : β} (h : entry ∈ insert same bucket k b) :
    entry.1 = k ∨ ∃ old ∈ bucket, old.1 = entry.1 := by
  rcases mem_insert h with h | ⟨-, h⟩
  · exact Or.inr ⟨entry, h, rfl⟩
  · exact h

theorem distinct_insert (h : Distinct same bucket) (k : κ) (b : β) :
    Distinct same (insert same bucket k b) := by
  unfold insert
  split
  · have hkey (entry : κ × β) : (if same entry.1 k then (entry.1, b) else entry).1 = entry.1 := by
      split <;> rfl
    rw [Distinct, List.pairwise_map]
    exact h.imp fun hab => by rwa [hkey, hkey]
  · rename_i hnone
    refine List.pairwise_append.mpr ⟨h, List.pairwise_singleton .., ?_⟩
    intro entry hentry new hnew
    obtain rfl := List.mem_singleton.mp hnew
    simp only [List.any_eq_true, not_exists, not_and] at hnone
    exact Bool.eq_false_of_not_eq_true (hnone entry hentry)

theorem distinct_erase (h : Distinct same bucket) (k : κ) : Distinct same (erase same bucket k) :=
  List.Pairwise.sublist List.eraseP_sublist h

/-! ### The map of a list of entries -/

/-- The classes of keys: `same` finds a key under the names of its class. -/
def Classes (same : κ → κ → Bool) (key : κ → γ) : Prop :=
  ∀ a b, same a b = true ↔ key a = key b

section Classes

variable (hsame : Classes same key)

include hsame

theorem same_congr (h : key k' = key k) (a : κ) : same a k' = same a k := by
  rw [Bool.eq_iff_iff, hsame, hsame, h]

theorem find_congr (h : key k' = key k) (bucket : List (κ × β)) :
    find same bucket k' = find same bucket k := by
  simp only [find, same_congr hsame h]

theorem find_eq_some (h : Distinct same bucket) :
    find same bucket k = some entry ↔ entry ∈ bucket ∧ same entry.1 k = true := by
  refine ⟨fun hfind => ⟨List.mem_of_find?_eq_some hfind, same_of_find hfind⟩, ?_⟩
  rintro ⟨hentry, hk⟩
  induction bucket with
  | nil => simp at hentry
  | cons other bucket ih =>
      obtain ⟨hother, hrest⟩ := List.pairwise_cons.mp h
      rcases List.mem_cons.mp hentry with rfl | hentry
      · exact find_cons_of_pos hk
      · rw [find_cons_of_neg, ih hrest hentry]
        intro hk'
        have hboth : same other.1 entry.1 = true :=
          (hsame _ _).mpr (((hsame _ _).mp hk').trans ((hsame _ _).mp hk).symm)
        rw [hother entry hentry] at hboth
        exact absurd hboth (by simp)

/-- A key has one entry at most. -/
theorem filter_eq_toList_find (h : Distinct same bucket) (k : κ) :
    bucket.filter (fun entry => same entry.1 k) = (find same bucket k).toList := by
  induction bucket with
  | nil => rfl
  | cons entry bucket ih =>
      obtain ⟨hentry, hrest⟩ := List.pairwise_cons.mp h
      by_cases hk : same entry.1 k = true
      · rw [List.filter_cons, if_pos hk, ih hrest, find_cons_of_pos hk, find_eq_none.mpr]
        · rfl
        · intro other hother hk'
          have hboth : same entry.1 other.1 = true :=
            (hsame _ _).mpr (((hsame _ _).mp hk).trans ((hsame _ _).mp hk').symm)
          rw [hentry other hother] at hboth
          exact absurd hboth (by simp)
      · rw [List.filter_cons, if_neg hk, ih hrest, find_cons_of_neg hk]

theorem nodup_keys (h : Distinct same bucket) :
    (bucket.map fun entry => key entry.1).Nodup := by
  rw [List.Nodup, List.pairwise_map]
  refine h.imp fun {a b} hab => ?_
  rw [Ne, ← hsame, hab]
  simp

end Classes

def toFinmap (hsame : Classes same key) (h : Distinct same bucket) : Finmap fun _ : γ => β :=
  AList.toFinmap ⟨bucket.map fun entry => ⟨key entry.1, entry.2⟩, by
    rw [List.NodupKeys, List.keys, List.map_map]
    exact nodup_keys hsame h⟩

theorem card_keys_toFinmap (hsame : Classes same key) (h : Distinct same bucket) :
    (toFinmap hsame h).keys.card = bucket.length := by
  rw [Finset.card, toFinmap, Finmap.keys_val]
  simp [AList.keys, List.keys]

section Lookup

variable [DecidableEq γ] (hsame : Classes same key)

include hsame

theorem dlookup_eq_find (bucket : List (κ × β)) (k : κ) :
    (bucket.map fun entry => (⟨key entry.1, entry.2⟩ : Σ _ : γ, β)).dlookup (key k) =
      (find same bucket k).map Prod.snd := by
  induction bucket with
  | nil => rfl
  | cons entry bucket ih =>
      rw [List.map_cons]
      by_cases hk : same entry.1 k = true
      · rw [find_cons_of_pos hk, ← (hsame _ _).mp hk, List.dlookup_cons_eq]
        rfl
      · rw [find_cons_of_neg hk, List.dlookup_cons_ne _ _ fun h => hk ((hsame _ _).mpr h.symm), ih]

theorem lookup_toFinmap (h : Distinct same bucket) (k : κ) :
    (toFinmap hsame h).lookup (key k) = (find same bucket k).map Prod.snd := by
  rw [toFinmap, Finmap.lookup_toFinmap]
  exact dlookup_eq_find hsame bucket k

/-- No value is stored under what is not a class. -/
theorem lookup_toFinmap_of_ne (h : Distinct same bucket) {x : γ} (hx : ∀ k, key k ≠ x) :
    (toFinmap hsame h).lookup x = none := by
  rw [toFinmap, Finmap.lookup_toFinmap, AList.lookup, List.dlookup_eq_none]
  simp only [List.keys, List.map_map, List.mem_map, Function.comp_apply, not_exists, not_and]
  exact fun entry _ => hx entry.1

theorem find_insert (bucket : List (κ × β)) (k k' : κ) (b : β) :
    (find same (insert same bucket k b) k').map Prod.snd =
      if key k' = key k then some b else (find same bucket k').map Prod.snd := by
  unfold insert
  split
  · -- the value is replaced, and every key stays
    rename_i hany
    have hkeys : ((fun entry => same entry.1 k') ∘ fun entry : κ × β =>
        if same entry.1 k then (entry.1, b) else entry) = fun entry => same entry.1 k' := by
      funext entry
      simp only [Function.comp_apply]
      split <;> rfl
    rw [find, List.find?_map, hkeys]
    change Option.map _ (Option.map _ (find same bucket k')) = _
    cases hfind : find same bucket k' with
    | none =>
        rw [if_neg]
        · rfl
        · intro hk
          obtain ⟨entry, hentry, hk'⟩ := List.any_eq_true.mp hany
          refine find_eq_none.mp hfind entry hentry ?_
          rwa [same_congr hsame hk]
    | some entry =>
        have hk : same entry.1 k = true ↔ key k' = key k := by
          rw [hsame, (hsame _ _).mp (same_of_find hfind)]
        by_cases hkk : key k' = key k
        · simp [hk.mpr hkk, hkk]
        · simp [mt hk.mp hkk, hkk]
  · -- a new entry comes last
    rename_i hany
    have hnone : find same bucket k = none :=
      find_eq_none.mpr fun entry hentry hk => hany (List.any_eq_true.mpr ⟨entry, hentry, hk⟩)
    rw [find, List.find?_append]
    change Option.map _ ((find same bucket k').or (find same [(k, b)] k')) = _
    by_cases hkk : key k' = key k
    · rw [find_congr hsame hkk, hnone, if_pos hkk, Option.none_or,
        find_cons_of_pos ((hsame k k').mpr hkk.symm)]
      rfl
    · rw [find_cons_of_neg fun h => hkk ((hsame k k').mp h).symm, find_nil, Option.or_none,
        if_neg hkk]

theorem find_erase (h : Distinct same bucket) (k k' : κ) :
    (find same (erase same bucket k) k').map Prod.snd =
      if key k' = key k then none else (find same bucket k').map Prod.snd := by
  induction bucket with
  | nil => simp [erase]
  | cons entry bucket ih =>
      obtain ⟨hentry, hrest⟩ := List.pairwise_cons.mp h
      by_cases hk : same entry.1 k = true
      · rw [erase_cons_of_pos hk]
        have hclass : key entry.1 = key k := (hsame _ _).mp hk
        by_cases hkk : key k' = key k
        · have hnone : find same bucket k' = none := by
            refine find_eq_none.mpr fun other hother hother' => ?_
            have hboth : same entry.1 other.1 = true :=
              (hsame _ _).mpr (hclass.trans (hkk.symm.trans ((hsame _ _).mp hother').symm))
            rw [hentry other hother] at hboth
            exact absurd hboth (by simp)
          rw [hnone, if_pos hkk]
          rfl
        · rw [if_neg hkk, find_cons_of_neg fun h' => hkk (((hsame _ _).mp h').symm.trans hclass)]
      · rw [erase_cons_of_neg hk]
        by_cases hk' : same entry.1 k' = true
        · have hkk : ¬ key k' = key k := fun h' => hk ((same_congr hsame h' _).symm.trans hk')
          rw [if_neg hkk, find_cons_of_pos hk', find_cons_of_pos hk']
        · rw [find_cons_of_neg hk', find_cons_of_neg hk']
          exact ih hrest

end Lookup

end Bucket

/-! ### The table -/

def slot (hash : κ → ℕ) (n : ℕ+) (k : κ) : Fin n := ⟨hash k % n, Nat.mod_lt _ n.pos⟩

/-- `n` buckets; an entry lies in the bucket of its hash, and each bucket finds
every one of its entries. -/
@[ext]
structure HashTable (β : Type*) (same : κ → κ → Bool) (hash : κ → ℕ) (n : ℕ+) where
  buckets : Fin n → List (κ × β)
  placed : ∀ i, ∀ entry ∈ buckets i, slot hash n entry.1 = i
  distinct : ∀ i, Bucket.Distinct same (buckets i)

namespace HashTable

variable {same : κ → κ → Bool} {hash : κ → ℕ} {n : ℕ+}

def empty : HashTable β same hash n := ⟨fun _ => [], by simp, fun _ => List.Pairwise.nil⟩

def entries (t : HashTable β same hash n) : List (κ × β) := (List.finRange n).flatMap t.buckets

def size (t : HashTable β same hash n) : ℕ := t.entries.length

/-- The search looks into one bucket only. -/
def find (t : HashTable β same hash n) (k : κ) : Option (κ × β) :=
  Bucket.find same (t.buckets (slot hash n k)) k

def replace (t : HashTable β same hash n) (k : κ) (bucket : List (κ × β))
    (hplaced : ∀ entry ∈ bucket, slot hash n entry.1 = slot hash n k)
    (hdistinct : Bucket.Distinct same bucket) : HashTable β same hash n where
  buckets := Function.update t.buckets (slot hash n k) bucket
  placed i := by
    by_cases hi : i = slot hash n k
    · subst hi
      simpa using hplaced
    · simpa [hi] using t.placed i
  distinct i := by
    by_cases hi : i = slot hash n k
    · subst hi
      simpa using hdistinct
    · simpa [hi] using t.distinct i

def insert (t : HashTable β same hash n) (k : κ) (b : β) : HashTable β same hash n :=
  t.replace k (Bucket.insert same (t.buckets (slot hash n k)) k b)
    (fun entry hentry => by
      rcases Bucket.key_mem_insert hentry with h | ⟨old, hold, h⟩
      · rw [h]
      · rw [← h, t.placed _ old hold])
    (Bucket.distinct_insert (t.distinct _) k b)

def erase (t : HashTable β same hash n) (k : κ) : HashTable β same hash n :=
  t.replace k (Bucket.erase same (t.buckets (slot hash n k)) k)
    (fun entry hentry => t.placed _ entry (List.mem_of_mem_eraseP hentry))
    (Bucket.distinct_erase (t.distinct _) k)

theorem find_replace_of_slot (t : HashTable β same hash n) {k k' : κ} (bucket : List (κ × β))
    (hplaced hdistinct) (h : slot hash n k' = slot hash n k) :
    (t.replace k bucket hplaced hdistinct).find k' = Bucket.find same bucket k' := by
  simp [find, replace, h]

theorem find_replace_of_slot_ne (t : HashTable β same hash n) {k k' : κ} (bucket : List (κ × β))
    (hplaced hdistinct) (h : slot hash n k' ≠ slot hash n k) :
    (t.replace k bucket hplaced hdistinct).find k' = t.find k' := by
  simp [find, replace, h]

variable {key : κ → γ} (hsame : Bucket.Classes same key)
  (hhash : ∀ a b, key a = key b → hash a = hash b)

include hhash in
theorem slot_congr {k k' : κ} (h : key k = key k') : slot hash n k = slot hash n k' :=
  Fin.ext (by simp [slot, hhash k k' h])

theorem mem_entries {t : HashTable β same hash n} {entry : κ × β} :
    entry ∈ t.entries ↔ entry ∈ t.buckets (slot hash n entry.1) := by
  simp only [entries, List.mem_flatMap, List.mem_finRange, true_and]
  refine ⟨?_, fun h => ⟨_, h⟩⟩
  rintro ⟨i, hi⟩
  rwa [t.placed i entry hi]

include hsame hhash

/-- At most one entry of each class. -/
theorem distinct_entries (t : HashTable β same hash n) : Bucket.Distinct same t.entries := by
  rw [Bucket.Distinct, entries, List.pairwise_flatMap]
  refine ⟨fun i _ => t.distinct i, (List.nodup_finRange n).imp ?_⟩
  intro i j hij a ha b hb
  refine Bool.eq_false_of_not_eq_true fun h => hij ?_
  rw [← t.placed i a ha, ← t.placed j b hb]
  exact slot_congr hhash ((hsame _ _).mp h)

/-- The one bucket searched finds what a search of all entries finds. -/
theorem find_entries (t : HashTable β same hash n) (k : κ) :
    Bucket.find same t.entries k = t.find k := by
  ext entry
  rw [Bucket.find_eq_some hsame (distinct_entries hsame hhash t), find,
    Bucket.find_eq_some hsame (t.distinct _), mem_entries]
  refine and_congr_left fun hk => ?_
  rw [slot_congr hhash ((hsame _ _).mp hk)]

omit hsame hhash in
def toFinmap (t : HashTable β same hash n) : Finmap fun _ : γ => β :=
  Bucket.toFinmap hsame (distinct_entries hsame hhash t)

theorem size_eq_card (t : HashTable β same hash n) :
    t.size = (t.toFinmap hsame hhash).keys.card :=
  (Bucket.card_keys_toFinmap hsame _).symm

variable [DecidableEq γ]

theorem lookup_toFinmap (t : HashTable β same hash n) (k : κ) :
    (t.toFinmap hsame hhash).lookup (key k) = (t.find k).map Prod.snd := by
  rw [toFinmap, Bucket.lookup_toFinmap, find_entries hsame hhash]

theorem find_insert (t : HashTable β same hash n) (k k' : κ) (b : β) :
    ((t.insert k b).find k').map Prod.snd =
      if key k' = key k then some b else (t.find k').map Prod.snd := by
  by_cases hslot : slot hash n k' = slot hash n k
  · rw [insert, find_replace_of_slot t _ _ _ hslot, Bucket.find_insert hsame, find, hslot]
  · rw [insert, find_replace_of_slot_ne t _ _ _ hslot, if_neg]
    exact fun h => hslot (slot_congr hhash h)

theorem find_erase (t : HashTable β same hash n) (k k' : κ) :
    ((t.erase k).find k').map Prod.snd =
      if key k' = key k then none else (t.find k').map Prod.snd := by
  by_cases hslot : slot hash n k' = slot hash n k
  · rw [erase, find_replace_of_slot t _ _ _ hslot, Bucket.find_erase hsame (t.distinct _), find,
      hslot]
  · rw [erase, find_replace_of_slot_ne t _ _ _ hslot, if_neg]
    exact fun h => hslot (slot_congr hhash h)

/-- A table is determined, as a map, by what is found in it. -/
theorem toFinmap_eq_of_find {t : HashTable β same hash n} {m : Finmap fun _ : γ => β}
    (h : ∀ k, (t.find k).map Prod.snd = m.lookup (key k))
    (hm : ∀ x, (∀ k, key k ≠ x) → m.lookup x = none) : t.toFinmap hsame hhash = m := by
  refine Finmap.ext_lookup fun x => ?_
  by_cases hx : ∃ k, key k = x
  · obtain ⟨k, rfl⟩ := hx
    rw [lookup_toFinmap, h]
  · rw [not_exists] at hx
    rw [toFinmap, Bucket.lookup_toFinmap_of_ne hsame _ hx, hm x hx]

theorem toFinmap_empty : (empty : HashTable β same hash n).toFinmap hsame hhash = ∅ :=
  toFinmap_eq_of_find hsame hhash (fun _ => rfl) fun _ _ => rfl

theorem toFinmap_insert (t : HashTable β same hash n) (k : κ) (b : β) :
    (t.insert k b).toFinmap hsame hhash = (t.toFinmap hsame hhash).insert (key k) b := by
  refine toFinmap_eq_of_find hsame hhash (fun k' => ?_) fun x hx => ?_
  · rw [find_insert hsame hhash]
    split
    · rename_i h
      rw [h, Finmap.lookup_insert]
    · rename_i h
      rw [Finmap.lookup_insert_of_ne _ h, lookup_toFinmap]
  · rw [Finmap.lookup_insert_of_ne _ fun h => hx k h.symm]
    exact Bucket.lookup_toFinmap_of_ne hsame _ hx

theorem toFinmap_erase (t : HashTable β same hash n) (k : κ) :
    (t.erase k).toFinmap hsame hhash = (t.toFinmap hsame hhash).erase (key k) := by
  refine toFinmap_eq_of_find hsame hhash (fun k' => ?_) fun x hx => ?_
  · rw [find_erase hsame hhash]
    split
    · rename_i h
      rw [h, Finmap.lookup_erase]
    · rename_i h
      rw [Finmap.lookup_erase_ne h, lookup_toFinmap]
  · rw [Finmap.lookup_erase_ne fun h => hx k h.symm]
    exact Bucket.lookup_toFinmap_of_ne hsame _ hx

end HashTable

end Mgxx.Library
