import Mgxx.Http.Common

/-!
The header map: `std::unordered_map` with a case-insensitive equality.  An
entry keeps the spelling under which its name was first set.
-/

namespace Mgxx.Http

/-- `std::tolower` in the C locale. -/
def toLower (c : UInt8) : UInt8 := if 65 ≤ c.toNat ∧ c.toNat ≤ 90 then c + 32 else c

def isEqual (lhs rhs : Bytes) : Bool :=
  lhs.length == rhs.length && (lhs.zip rhs).all fun p => toLower p.1 == toLower p.2

/-- `mgxx::http::headers`.  The list is the map in its order of enumeration. -/
structure Headers where
  entries : List (Bytes × Bytes)
  distinct : entries.Pairwise fun a b => isEqual a.1 b.1 = false

namespace Headers

def empty : Headers := ⟨[], List.Pairwise.nil⟩

instance : Inhabited Headers := ⟨empty⟩

def size (headers : Headers) : ℕ := headers.entries.length

def has (headers : Headers) (name : Bytes) : Bool :=
  headers.entries.any fun entry => isEqual entry.1 name

def get (headers : Headers) (name : Bytes) : Option Bytes :=
  (headers.entries.find? fun entry => isEqual entry.1 name).map Prod.snd

/-- `m_headers[name] = value` when the name is there: the stored spelling stays. -/
def assign (entries : List (Bytes × Bytes)) (name value : Bytes) : List (Bytes × Bytes) :=
  entries.map fun entry => if isEqual entry.1 name then (entry.1, value) else entry

theorem assign_distinct {entries : List (Bytes × Bytes)} (name value : Bytes)
    (h : entries.Pairwise fun a b => isEqual a.1 b.1 = false) :
    (assign entries name value).Pairwise fun a b => isEqual a.1 b.1 = false := by
  have hkey (entry : Bytes × Bytes) :
      (if isEqual entry.1 name then (entry.1, value) else entry).1 = entry.1 := by
    split <;> rfl
  rw [assign, List.pairwise_map]
  exact h.imp fun {a b} hab => by rw [hkey, hkey]; exact hab

theorem append_distinct {headers : Headers} {name : Bytes} (value : Bytes)
    (h : headers.has name = false) :
    (headers.entries ++ [(name, value)]).Pairwise fun a b => isEqual a.1 b.1 = false := by
  rw [List.pairwise_append]
  refine ⟨headers.distinct, List.pairwise_singleton .., ?_⟩
  intro a ha b hb
  obtain rfl := List.mem_singleton.mp hb
  simpa using List.any_eq_false.mp h a ha

def set (headers : Headers) (name value : Bytes) : Headers :=
  if h : headers.has name = true then
    ⟨assign headers.entries name value, assign_distinct name value headers.distinct⟩
  else
    ⟨headers.entries ++ [(name, value)], append_distinct value (by simpa using h)⟩

def remove (headers : Headers) (name : Bytes) : Headers :=
  ⟨headers.entries.eraseP fun entry => isEqual entry.1 name,
    headers.distinct.sublist List.eraseP_sublist⟩

def clear (_ : Headers) : Headers := empty

/-- `format(empty)`; the reserved capacity changes nothing. -/
def format (headers : Headers) (empty : Bool := false) : Bytes :=
  let block := headers.entries.flatMap fun entry =>
    entry.1 ++ text ": " ++ entry.2 ++ text "\r\n"
  if !empty && block.isEmpty then text "Content-Type: text/plain\r\n" else block

end Headers

inductive HeaderOp
  | set (name value : Bytes)
  | remove (name : Bytes)
  | clear

def Headers.apply (headers : Headers) : HeaderOp → Headers
  | .set name value => headers.set name value
  | .remove name => headers.remove name
  | .clear => headers.clear

def Headers.build (ops : List HeaderOp) : Headers := ops.foldl Headers.apply Headers.empty

end Mgxx.Http
