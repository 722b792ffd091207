import Mgxx.Http.HeaderStore

/-!
The header map is a map from lower-cased names to values: the list of its
entries is, and so is the store in buckets that holds them.
-/

namespace Mgxx.Http

open Mgxx.Library

def lowerName (name : Bytes) : Bytes := name.map toLower

/-- Equality of names is equality in lower case. -/
theorem isEqual_iff (a b : Bytes) : isEqual a b = true ↔ lowerName a = lowerName b := by
  induction a generalizing b with
  | nil => cases b <;> simp [isEqual, lowerName]
  | cons x a ih =>
      cases b with
      | nil => simp [isEqual, lowerName]
      | cons y b =>
          have h := ih b
          simp only [isEqual, lowerName, Bool.and_eq_true, beq_iff_eq] at h
          simp only [isEqual, lowerName, List.length_cons, List.zip_cons_cons, List.all_cons,
            List.map_cons, List.cons.injEq, Bool.and_eq_true, beq_iff_eq, Nat.add_right_cancel_iff]
          rw [← h]
          tauto

/-- The hash reads a name in lower case only. -/
theorem hashKey_eq_of_lowerName (w : ℕ) {a b : Bytes} (h : lowerName a = lowerName b) :
    hashKey w a = hashKey w b := by
  have hfold (key : Bytes) : hashKey w key = (lowerName key).foldl
      (fun hash c => (hash ^^^ BitVec.ofNat w c.toNat) * BitVec.ofNat w 1099511628211)
      (BitVec.ofNat w 14695981039346656037) := by
    rw [hashKey, lowerName, List.foldl_map]
  rw [hfold, hfold, h]

theorem isEqual_equivalence : Equivalence fun a b => isEqual a b = true := by
  simp only [isEqual_iff]
  exact ⟨fun _ => rfl, Eq.symm, Eq.trans⟩

namespace Key

theorem equal_eq (a b : Key) : a.equal b = isEqual a.bytes b.bytes := by
  cases a <;> cases b <;> rfl

theorem hash_eq (w : ℕ) (a : Key) : a.hash w = hashKey w a.bytes := by cases a <;> rfl

theorem classes_equal : Bucket.Classes equal fun key => lowerName key.bytes := fun a b => by
  rw [equal_eq, isEqual_iff]

theorem hash_congr (w : ℕ) (a b : Key) (h : lowerName a.bytes = lowerName b.bytes) :
    (a.hash w).toNat = (b.hash w).toNat := by
  rw [hash_eq, hash_eq, hashKey_eq_of_lowerName w h]

end Key

/-! ### The plain map -/

/-- What a header map is for: values under lower-cased names. -/
abbrev PlainMap := Finmap fun _ : Bytes => Bytes

namespace PlainMap

def apply (map : PlainMap) : HeaderOp → PlainMap
  | .set name value => map.insert (lowerName name) value
  | .remove name => map.erase (lowerName name)
  | .clear => ∅

def build (ops : List HeaderOp) : PlainMap := ops.foldl apply ∅

end PlainMap

namespace HeaderStore

variable {w : ℕ} {n : ℕ+}

def toMap (store : HeaderStore w n) : PlainMap :=
  store.toFinmap Key.classes_equal (Key.hash_congr w)

theorem get_eq (store : HeaderStore w n) (name : Bytes) :
    store.get name = store.toMap.lookup (lowerName name) :=
  (HashTable.lookup_toFinmap _ _ store (.view name)).symm

theorem has_eq (store : HeaderStore w n) (name : Bytes) :
    store.has name = (store.toMap.lookup (lowerName name)).isSome := by
  rw [← get_eq, get, has, Option.isSome_map]

theorem toMap_apply (store : HeaderStore w n) (op : HeaderOp) :
    (store.apply op).toMap = store.toMap.apply op := by
  cases op with
  | set name value => exact HashTable.toFinmap_insert _ _ store (.string name) value
  | remove name => exact HashTable.toFinmap_erase _ _ store (.view name)
  | clear => exact HashTable.toFinmap_empty _ _

theorem toMap_build (w : ℕ) (n : ℕ+) (ops : List HeaderOp) :
    (build w n ops).toMap = PlainMap.build ops := by
  have hfold (store : HeaderStore w n) :
      (ops.foldl apply store).toMap = ops.foldl PlainMap.apply store.toMap := by
    induction ops generalizing store with
    | nil => rfl
    | cons op ops ih => rw [List.foldl_cons, ih, toMap_apply, List.foldl_cons]
  rw [build, hfold, PlainMap.build]
  congr 1
  exact HashTable.toFinmap_empty _ _

theorem distinct_entries (store : HeaderStore w n) :
    store.entries.Pairwise fun a b => lowerName a.1.bytes ≠ lowerName b.1.bytes := by
  refine (HashTable.distinct_entries Key.classes_equal (Key.hash_congr w) store).imp ?_
  intro a b hab
  rw [Ne, ← isEqual_iff, ← Key.equal_eq, hab]
  simp

theorem get_remove (store : HeaderStore w n) (name name' : Bytes) :
    (store.remove name).get name' =
      if lowerName name' = lowerName name then none else store.get name' :=
  HashTable.find_erase Key.classes_equal (Key.hash_congr w) store (.view name) (.view name')

/-- Equality of names is an equivalence that the hash respects, in every pair of
overloads, so that the store is the plain map with any number of buckets. -/
theorem refines_plain_map (w : ℕ) :
    (Equivalence fun a b => isEqual a b = true) ∧
      (∀ a b, isEqual a b = true → hashKey w a = hashKey w b) ∧
      (Equivalence fun a b : Key => a.equal b = true) ∧
      (∀ a b : Key, a.equal b = true → a.hash w = b.hash w) ∧
      ∀ (n : ℕ+) (ops : List HeaderOp),
        ((build w n ops).entries.Pairwise fun a b => lowerName a.1.bytes ≠ lowerName b.1.bytes) ∧
        (∀ name,
          (build w n ops).has name = ((PlainMap.build ops).lookup (lowerName name)).isSome ∧
          (build w n ops).get name = (PlainMap.build ops).lookup (lowerName name) ∧
          (build w n ops).getView name = (PlainMap.build ops).lookup (lowerName name)) ∧
        (build w n ops).size = (PlainMap.build ops).keys.card ∧
        ∀ name name', ((build w n ops).remove name).get name' =
          if lowerName name' = lowerName name then none else (build w n ops).get name' := by
  have hhash (a b : Bytes) (h : isEqual a b = true) : hashKey w a = hashKey w b :=
    hashKey_eq_of_lowerName w ((isEqual_iff a b).mp h)
  refine ⟨isEqual_equivalence, hhash, ?_, ?_, fun n ops => ⟨distinct_entries _, ?_, ?_, ?_⟩⟩
  · simp only [Key.equal_eq]
    exact isEqual_equivalence.comap Key.bytes
  · intro a b h
    rw [Key.hash_eq, Key.hash_eq]
    exact hhash _ _ (Key.equal_eq a b ▸ h)
  · intro name
    rw [has_eq, ← toMap_build w n ops]
    exact ⟨rfl, get_eq _ name, get_eq _ name⟩
  · rw [← toMap_build w n ops]
    exact HashTable.size_eq_card _ _ _
  · exact get_remove _

end HeaderStore

/-! ### The list of entries -/

namespace Headers

theorem classes_isEqual : Bucket.Classes isEqual lowerName := isEqual_iff

/-- The list of entries as the only bucket of a store. -/
def toStore (headers : Headers) : HashTable Bytes isEqual (fun _ => 0) 1 where
  buckets _ := headers.entries
  placed _ _ _ := Subsingleton.elim (α := Fin 1) _ _
  distinct _ := headers.distinct

def toMap (headers : Headers) : PlainMap :=
  headers.toStore.toFinmap classes_isEqual fun _ _ _ => rfl

theorem entries_toStore (headers : Headers) : headers.toStore.entries = headers.entries := by
  simp [HashTable.entries, toStore, List.finRange]

theorem size_eq (headers : Headers) : headers.size = headers.toMap.keys.card := by
  rw [toMap, ← HashTable.size_eq_card, HashTable.size, entries_toStore, size]

theorem get_eq (headers : Headers) (name : Bytes) :
    headers.get name = headers.toMap.lookup (lowerName name) :=
  (HashTable.lookup_toFinmap classes_isEqual _ headers.toStore name).symm

theorem has_eq (headers : Headers) (name : Bytes) :
    headers.has name = (headers.get name).isSome := by
  rw [has, get, Option.isSome_map, Bool.eq_iff_iff, List.any_eq_true, List.find?_isSome]

theorem entries_set (headers : Headers) (name value : Bytes) :
    (headers.set name value).entries = Bucket.insert isEqual headers.entries name value := by
  unfold set Bucket.insert
  split
  · rename_i h
    rw [has] at h
    rw [if_pos h]
    rfl
  · rename_i h
    rw [has] at h
    rw [if_neg h]

theorem toStore_eq_replace {headers headers' : Headers} {name : Bytes} {bucket} (hplaced hdistinct)
    (h : headers'.entries = bucket) :
    headers'.toStore = headers.toStore.replace name bucket hplaced hdistinct := by
  ext1
  funext i
  have hi : i = slot (fun _ => 0) 1 name := Subsingleton.elim (α := Fin 1) _ _
  change headers'.entries = Function.update headers.toStore.buckets _ bucket i
  rw [hi, Function.update_self, h]

/-- The list of entries changes as the plain map does. -/
theorem toMap_apply (headers : Headers) (op : HeaderOp) :
    (headers.apply op).toMap = headers.toMap.apply op := by
  cases op with
  | set name value =>
      have hstore : (headers.set name value).toStore = headers.toStore.insert name value :=
        toStore_eq_replace _ _ (entries_set headers name value)
      rw [apply, toMap, hstore, HashTable.toFinmap_insert]
      rfl
  | remove name =>
      have hstore : (headers.remove name).toStore = headers.toStore.erase name :=
        toStore_eq_replace _ _ rfl
      rw [apply, toMap, hstore, HashTable.toFinmap_erase]
      rfl
  | clear => exact HashTable.toFinmap_empty _ _

theorem toMap_build (ops : List HeaderOp) : (build ops).toMap = PlainMap.build ops := by
  have hfold (headers : Headers) :
      (ops.foldl apply headers).toMap = ops.foldl PlainMap.apply headers.toMap := by
    induction ops generalizing headers with
    | nil => rfl
    | cons op ops ih => rw [List.foldl_cons, ih, toMap_apply, List.foldl_cons]
  rw [build, hfold, PlainMap.build]
  congr 1

/-- What a header map answers does not depend on how its store is laid out. -/
theorem build_eq_store (w : ℕ) (n : ℕ+) (ops : List HeaderOp) :
    (∀ name, (build ops).get name = (HeaderStore.build w n ops).get name ∧
      (build ops).has name = (HeaderStore.build w n ops).has name) ∧
      (build ops).size = (HeaderStore.build w n ops).size := by
  have hget (name : Bytes) : (build ops).get name = (HeaderStore.build w n ops).get name := by
    rw [get_eq, toMap_build, HeaderStore.get_eq, HeaderStore.toMap_build]
  refine ⟨fun name => ⟨hget name, ?_⟩, ?_⟩
  · rw [has_eq, hget, HeaderStore.has, HeaderStore.get, Option.isSome_map]
  · rw [size_eq, toMap_build, ← HeaderStore.toMap_build w n ops]
    exact (HashTable.size_eq_card _ _ _).symm

end Headers

end Mgxx.Http
