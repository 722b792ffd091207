import Mathlib.Data.Int.Notation
import Mathlib.Data.List.Basic
import Mathlib.Data.Nat.Notation

/-!
Spans of a memory.  A span that lies in a region can be moved along with the
region: the same offset into a copy of the region reads the same cells.  Spans
that are laid out one after the other partition the region they take together.
-/

namespace Mgxx.Library

/-- `len` cells from address `buf` on; address 0 is the null pointer. -/
structure Span where
  buf : ℕ
  len : ℕ
deriving DecidableEq, Repr

namespace Span

variable {α : Type*} {memory later : ℕ → α} {region copy s : Span} {delta : ℤ}

def null : Span := ⟨0, 0⟩

def read (memory : ℕ → α) (s : Span) : List α :=
  (List.range s.len).map fun i => memory (s.buf + i)

def advance (delta : ℤ) (s : Span) : Span := ⟨(s.buf + delta).toNat, s.len⟩

/-- The span is null, or all of it lies in the region. -/
def Inside (s region : Span) : Prop :=
  s = null ∨ s.buf ≠ 0 ∧ region.buf ≤ s.buf ∧ s.buf + s.len ≤ region.buf + region.len

instance : DecidableRel Inside := fun s region => by unfold Inside; infer_instance

/-- The two memories have the same cells in the span. -/
def Kept (s : Span) (memory later : ℕ → α) : Prop :=
  ∀ a, s.buf ≤ a → a < s.buf + s.len → later a = memory a

@[simp] theorem read_null (memory : ℕ → α) : null.read memory = [] := rfl

@[simp] theorem advance_len (delta : ℤ) (s : Span) : (s.advance delta).len = s.len := rfl

theorem inside_null (region : Span) : null.Inside region := Or.inl rfl

theorem Inside.eq_null (h : s.Inside region) (hbuf : s.buf = 0) : s = null := by
  rcases h with h | ⟨h, -⟩
  · exact h
  · exact absurd hbuf h

theorem Inside.bounds (h : s.Inside region) (hbuf : s.buf ≠ 0) :
    region.buf ≤ s.buf ∧ s.buf + s.len ≤ region.buf + region.len := by
  rcases h with rfl | ⟨-, hlow, hhigh⟩
  · exact absurd rfl hbuf
  · exact ⟨hlow, hhigh⟩

theorem read_eq_of_kept (h : s.Kept memory later) : s.read later = s.read memory := by
  unfold read
  apply List.map_congr_left
  intro i hi
  have hlt : i < s.len := List.mem_range.mp hi
  exact h (s.buf + i) (by omega) (by omega)

/-- The cells of equally long spans with equal contents. -/
theorem cell_eq_of_read_eq (hlen : copy.len = region.len)
    (hread : copy.read later = region.read memory) {i : ℕ} (hi : i < region.len) :
    later (copy.buf + i) = memory (region.buf + i) := by
  have hget : (copy.read later)[i]? = (region.read memory)[i]? := by rw [hread]
  simpa [read, hlen, hi] using hget

/-- Moved along with the region, a span stays inside. -/
theorem inside_advance (h : s.Inside region) (hbuf : s.buf ≠ 0) (hcopy : copy.buf ≠ 0)
    (hlen : copy.len = region.len) :
    (s.advance (copy.buf - region.buf)).Inside copy := by
  obtain ⟨hlow, hhigh⟩ := h.bounds hbuf
  have hmoved : (s.advance (copy.buf - region.buf)).buf = copy.buf + (s.buf - region.buf) := by
    show ((s.buf : ℤ) + (copy.buf - region.buf)).toNat = _
    omega
  refine Or.inr ⟨?_, ?_, ?_⟩
  · omega
  · omega
  · rw [advance_len]
    omega

/-- Moved along with the region, a span reads the same cells. -/
theorem read_advance (h : s.Inside region) (hbuf : s.buf ≠ 0) (hlen : copy.len = region.len)
    (hread : copy.read later = region.read memory) :
    (s.advance (copy.buf - region.buf)).read later = s.read memory := by
  obtain ⟨hlow, hhigh⟩ := h.bounds hbuf
  unfold read
  apply List.map_congr_left
  intro i hi
  have hlt : i < s.len := List.mem_range.mp hi
  have hto : ((s.buf : ℤ) + (copy.buf - region.buf)).toNat + i =
      copy.buf + (s.buf - region.buf + i) := by omega
  have hfrom : s.buf + i = region.buf + (s.buf - region.buf + i) := by omega
  -- both addresses are the same offset into copy and region
  show later (((s.buf : ℤ) + (copy.buf - region.buf)).toNat + i) = memory (s.buf + i)
  rw [hto, hfrom]
  exact cell_eq_of_read_eq hlen hread (by omega)

/-! ### Layouts -/

instance : Membership ℕ Span := ⟨fun s a => s.buf ≤ a ∧ a < s.buf + s.len⟩

/-- Every cell of the region lies in exactly one of the spans, and the spans lie in
the region. -/
structure Partition (spans : List Span) (region : Span) : Prop where
  inside : ∀ s ∈ spans, region.buf ≤ s.buf ∧ s.buf + s.len ≤ region.buf + region.len
  covered : ∀ a ∈ region, ∃ s ∈ spans, a ∈ s
  disjoint : spans.Pairwise fun s t => ∀ a ∈ s, a ∉ t

def write (memory : ℕ → α) (base : ℕ) (cells : List α) : ℕ → α := fun a =>
  if base ≤ a then cells.getD (a - base) (memory a) else memory a

/-- One span for each part, the first at `base` and each where the one before ends. -/
def layout (base : ℕ) : List (List α) → List Span
  | [] => []
  | part :: parts => ⟨base, part.length⟩ :: layout (base + part.length) parts

theorem read_write (memory : ℕ → α) (base : ℕ) (cells : List α) :
    read (write memory base cells) ⟨base, cells.length⟩ = cells := by
  apply List.ext_getElem
  · simp [read]
  · intro i hread hi
    simp [read, write, List.getElem?_eq_getElem hi]

theorem read_add (memory : ℕ → α) (base m n : ℕ) :
    read memory ⟨base, m + n⟩ = read memory ⟨base, m⟩ ++ read memory ⟨base + m, n⟩ := by
  simp only [read, List.range_add, List.map_append, List.map_map]
  congr 1
  apply List.map_congr_left
  intro i hi
  show memory (base + (m + i)) = memory (base + m + i)
  rw [Nat.add_assoc]

@[simp] theorem length_read (memory : ℕ → α) (s : Span) : (s.read memory).length = s.len := by
  simp [read]

/-- Where the region holds the parts one after the other, each span reads its own. -/
theorem map_read_layout {parts : List (List α)} {base : ℕ}
    (h : read memory ⟨base, parts.flatten.length⟩ = parts.flatten) :
    (layout base parts).map (read memory) = parts := by
  induction parts generalizing base with
  | nil => rfl
  | cons part parts ih =>
      rw [List.flatten_cons, List.length_append, read_add] at h
      obtain ⟨hpart, hparts⟩ := List.append_inj h (length_read _ _)
      rw [layout, List.map_cons, hpart, ih hparts]

theorem partition_nil (base : ℕ) : Partition [] ⟨base, 0⟩ := by
  refine ⟨fun s hs => absurd hs List.not_mem_nil, fun a ha => ?_, List.Pairwise.nil⟩
  have hlt : base ≤ a ∧ a < base + 0 := ha
  omega

/-- A span put in front of the region of a partition. -/
theorem Partition.cons {spans : List Span} {base m n : ℕ} (h : Partition spans ⟨base + m, n⟩) :
    Partition (⟨base, m⟩ :: spans) ⟨base, m + n⟩ := by
  have hinside : ∀ s ∈ spans, base + m ≤ s.buf ∧ s.buf + s.len ≤ base + m + n := h.inside
  refine ⟨fun s hs => ?_, fun a ha => ?_, List.pairwise_cons.mpr ⟨fun s hs a ha has => ?_, ?_⟩⟩
  · show base ≤ s.buf ∧ s.buf + s.len ≤ base + (m + n)
    rcases List.mem_cons.mp hs with rfl | hs
    · exact ⟨Nat.le_refl _, Nat.add_le_add_left (Nat.le_add_right m n) base⟩
    · have hs := hinside s hs
      omega
  · -- a cell of the first span, or of the region behind it
    have hbounds : base ≤ a ∧ a < base + (m + n) := ha
    by_cases hfirst : a < base + m
    · exact ⟨⟨base, m⟩, List.mem_cons_self, hbounds.1, hfirst⟩
    · have hbehind : base + m ≤ a ∧ a < base + m + n := by omega
      obtain ⟨s, hs, has⟩ := h.covered a hbehind
      exact ⟨s, List.mem_cons_of_mem _ hs, has⟩
  · have hfirst : base ≤ a ∧ a < base + m := ha
    have hs := hinside s hs
    have has : s.buf ≤ a ∧ a < s.buf + s.len := has
    omega
  · exact h.disjoint

theorem partition_layout (base : ℕ) (parts : List (List α)) :
    Partition (layout base parts) ⟨base, parts.flatten.length⟩ := by
  induction parts generalizing base with
  | nil => exact partition_nil base
  | cons part parts ih =>
      rw [layout, List.flatten_cons, List.length_append]
      exact (ih (base + part.length)).cons

end Span

end Mgxx.Library
