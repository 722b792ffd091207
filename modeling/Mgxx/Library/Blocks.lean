import Mathlib.Data.List.Basic
import Mathlib.Data.Nat.Notation

/-!
A stream cut into blocks.  A block is complete when an element ends it or when
it has `n` elements; what comes after the last complete block is its rest.
-/

namespace Mgxx.Library

variable {α : Type*}

/-- The complete blocks of a stream, and the start of the next one. -/
structure Blocks (α : Type*) where
  complete : List (List α) := []
  rest : List α := []

/-- Ended by an element, or full, and by the last element only. -/
structure IsBlock (ends : α → Prop) (n : ℕ) (block : List α) : Prop where
  ne_nil : block ≠ []
  length_le : block.length ≤ n
  inner : ∀ a ∈ block.dropLast, ¬ends a
  ended : (∃ a ∈ block.getLast?, ends a) ∨ block.length = n

namespace Blocks

variable {ends : α → Prop} [DecidablePred ends] {n : ℕ} {blocks : Blocks α} {input : List α}

def push (ends : α → Prop) [DecidablePred ends] (n : ℕ) (blocks : Blocks α) (a : α) : Blocks α :=
  if ends a ∨ n ≤ blocks.rest.length + 1 then
    { complete := blocks.complete ++ [blocks.rest ++ [a]] }
  else { blocks with rest := blocks.rest ++ [a] }

/-- The input, and nothing else, cut where a block is complete. -/
structure Cuts (ends : α → Prop) (n : ℕ) (blocks : Blocks α) (input : List α) : Prop where
  join : blocks.complete.flatten ++ blocks.rest = input
  complete : ∀ block ∈ blocks.complete, IsBlock ends n block
  rest : ∀ a ∈ blocks.rest, ¬ends a
  length_rest : blocks.rest.length < n

omit [DecidablePred ends] in
theorem cuts_nil (hn : 0 < n) : Cuts ends n {} [] :=
  ⟨rfl, fun _ h => absurd h List.not_mem_nil, fun _ h => absurd h List.not_mem_nil, hn⟩

omit [DecidablePred ends] in
/-- The rest and one element more, once that completes it. -/
theorem Cuts.isBlock (h : blocks.Cuts ends n input) {a : α}
    (hcomplete : ends a ∨ n ≤ blocks.rest.length + 1) : IsBlock ends n (blocks.rest ++ [a]) := by
  have hlength : (blocks.rest ++ [a]).length = blocks.rest.length + 1 := List.length_append
  have hlt := h.length_rest
  refine ⟨by simp, by omega, by simpa using h.rest, ?_⟩
  rcases hcomplete with hends | hfull
  · exact Or.inl ⟨a, by simp, hends⟩
  · exact Or.inr (by omega)

theorem Cuts.push (h : blocks.Cuts ends n input) (a : α) :
    (blocks.push ends n a).Cuts ends n (input ++ [a]) := by
  unfold Blocks.push
  split_ifs with hcomplete
  · refine ⟨?_, ?_, by simp, Nat.zero_lt_of_lt h.length_rest⟩
    · simp [← h.join]
    · intro block hblock
      rcases List.mem_append.mp hblock with hblock | hblock
      · exact h.complete block hblock
      · exact List.mem_singleton.mp hblock ▸ h.isBlock hcomplete
  · obtain ⟨hends, hlength⟩ := not_or.mp hcomplete
    refine ⟨?_, h.complete, ?_, ?_⟩
    · simp [← h.join]
    · intro b hb
      rcases List.mem_append.mp hb with hb | hb
      · exact h.rest b hb
      · exact List.mem_singleton.mp hb ▸ hends
    · rw [List.length_append]
      exact Nat.lt_of_not_le hlength

end Blocks

end Mgxx.Library
