import Mgxx.Http.Headers
import Mgxx.Library.HashTable

/-!
The store of the header map as `std::unordered_map` keeps it: buckets chosen by
`case_insensitive_hash` and searched with `case_insensitive_equality`.
-/

namespace Mgxx.Http

open Mgxx.Library

/-- `case_insensitive_hash::hash_key`, where `size_t` has `w` bits. -/
def hashKey (w : ℕ) (key : Bytes) : BitVec w :=
  key.foldl
    (fun hash c => (hash ^^^ BitVec.ofNat w (toLower c).toNat) * BitVec.ofNat w 1099511628211)
    (BitVec.ofNat w 14695981039346656037)

inductive Key
  /-- `const std::string&` -/
  | string (key : Bytes)
  /-- `std::string_view` -/
  | view (key : Bytes)

namespace Key

def bytes : Key → Bytes
  | string key | view key => key

def hash (w : ℕ) : Key → BitVec w
  | view key => hashKey w key
  | string key => hashKey w key

def equal : Key → Key → Bool
  | view lhs, view rhs => isEqual lhs rhs
  | string lhs, string rhs => isEqual lhs rhs
  | string lhs, view rhs => isEqual lhs rhs
  | view lhs, string rhs => isEqual lhs rhs

end Key

abbrev HeaderStore (w : ℕ) (n : ℕ+) := HashTable Bytes Key.equal (fun key => (key.hash w).toNat) n

namespace HeaderStore

variable {w : ℕ} {n : ℕ+}

def has (store : HeaderStore w n) (name : Bytes) : Bool := (store.find (.view name)).isSome

def get (store : HeaderStore w n) (name : Bytes) : Option Bytes :=
  (store.find (.view name)).map Prod.snd

/-- The same bytes, not copied. -/
def getView (store : HeaderStore w n) (name : Bytes) : Option Bytes :=
  (store.find (.view name)).map Prod.snd

def set (store : HeaderStore w n) (name value : Bytes) : HeaderStore w n :=
  store.insert (.string name) value

def remove (store : HeaderStore w n) (name : Bytes) : HeaderStore w n := store.erase (.view name)

def clear (_ : HeaderStore w n) : HeaderStore w n := HashTable.empty

def apply (store : HeaderStore w n) : HeaderOp → HeaderStore w n
  | .set name value => store.set name value
  | .remove name => store.remove name
  | .clear => store.clear

def build (w : ℕ) (n : ℕ+) (ops : List HeaderOp) : HeaderStore w n :=
  ops.foldl apply HashTable.empty

end HeaderStore

end Mgxx.Http
