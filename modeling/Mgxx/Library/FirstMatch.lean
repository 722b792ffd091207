import Mathlib.Data.List.Basic

/-!
The first match in a list.  It does not depend on the order of the list exactly
as long as one element matches at most.
-/

namespace Mgxx.Library

variable {α β : Type*} {l l' : List α}

/-- With one match at most, the first match is the same in every order. -/
theorem findSome?_eq_of_perm {f : α → Option β} (h : l.Perm l')
    (hone : (l.filterMap f).length ≤ 1) : l.findSome? f = l'.findSome? f := by
  have hperm : (l.filterMap f).Perm (l'.filterMap f) := h.filterMap f
  rw [← List.head?_filterMap, ← List.head?_filterMap]
  cases hm : l.filterMap f with
  | nil =>
      rw [hm] at hperm
      rw [hperm.nil_eq]
  | cons b rest =>
      rw [hm, List.length_cons] at hone
      obtain rfl : rest = [] := List.length_eq_zero_iff.mp (by omega)
      rw [hm] at hperm
      rw [hperm.symm.eq_singleton]

theorem find?_eq_of_perm {p : α → Bool} (h : l.Perm l') (hone : l.countP p ≤ 1) :
    l.find? p = l'.find? p := by
  rw [← List.findSome?_guard, ← List.findSome?_guard]
  apply findSome?_eq_of_perm h
  rwa [List.filterMap_eq_filter, ← List.countP_eq_length_filter]

/-- With two matches, either can come first. -/
theorem exists_perm_of_two {p : α → Bool} (h : 1 < l.countP p) :
    ∃ a b rest, l.Perm (a :: b :: rest) ∧ l.Perm (b :: a :: rest) ∧
      p a = true ∧ p b = true := by
  rw [List.countP_eq_length_filter] at h
  have hsplit := (List.filter_append_perm p l).symm
  match hm : l.filter p with
  | [] => simp [hm] at h
  | [a] => simp [hm] at h
  | a :: b :: rest =>
      have hmem {x : α} (hx : x ∈ a :: b :: rest) : p x = true :=
        (List.mem_filter.mp (hm ▸ hx)).2
      rw [hm] at hsplit
      exact ⟨a, b, rest ++ l.filter fun x => !p x, hsplit, hsplit.trans (List.Perm.swap ..),
        hmem (by simp), hmem (by simp)⟩

end Mgxx.Library
