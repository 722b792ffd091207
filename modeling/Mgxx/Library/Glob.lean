import Mathlib.Data.List.Forall2

/-!
Glob patterns.  A pattern is a list of tokens, and matches a word that is cut
into a piece for each token.
-/

namespace Mgxx.Library

/-- A literal, a wildcard for one element, or a wildcard for any number of them. -/
inductive Token (α : Type*)
  | literal (a : α)
  | one (ok : α → Bool)
  | run (ok : α → Bool)

namespace Token

variable {α β : Type*}

def Takes : Token α → List α → Prop
  | literal a, piece => piece = [a]
  | one ok, piece => ∃ b, ok b = true ∧ piece = [b]
  | run ok, piece => ∀ b ∈ piece, ok b = true

def Matches (pattern : List (Token α)) (word : List α) : Prop :=
  ∃ pieces, List.Forall₂ Takes pattern pieces ∧ pieces.flatten = word

variable {t : Token α} {pattern pattern' : List (Token α)} {word : List α}

theorem matches_nil_iff : Matches [] word ↔ word = [] := by
  simp [Matches, eq_comm]

theorem matches_cons_iff : Matches (t :: pattern) word ↔
    ∃ piece rest, t.Takes piece ∧ Matches pattern rest ∧ word = piece ++ rest := by
  constructor
  · rintro ⟨pieces, htakes, rfl⟩
    obtain ⟨piece, pieces, ht, hpattern, rfl⟩ := List.forall₂_cons_left_iff.mp htakes
    exact ⟨piece, pieces.flatten, ht, ⟨pieces, hpattern, rfl⟩, List.flatten_cons⟩
  · rintro ⟨piece, rest, ht, ⟨pieces, hpattern, rfl⟩, rfl⟩
    exact ⟨piece :: pieces, .cons ht hpattern, List.flatten_cons⟩

theorem matches_literal_cons_iff (a : α) : Matches (literal a :: pattern) word ↔
    ∃ rest, Matches pattern rest ∧ word = a :: rest := by
  rw [matches_cons_iff]
  constructor
  · rintro ⟨_, rest, rfl, hrest, rfl⟩
    exact ⟨rest, hrest, rfl⟩
  · rintro ⟨rest, hrest, rfl⟩
    exact ⟨[a], rest, rfl, hrest, rfl⟩

/-- Literals at the front of a pattern are at the front of the word. -/
theorem matches_literals_append_iff (l : List α) : Matches (l.map literal ++ pattern) word ↔
    ∃ rest, Matches pattern rest ∧ word = l ++ rest := by
  induction l generalizing word with
  | nil => simp
  | cons a l ih =>
      rw [List.map_cons, List.cons_append, matches_literal_cons_iff]
      constructor
      · rintro ⟨rest, hrest, rfl⟩
        obtain ⟨rest, hpattern, rfl⟩ := ih.mp hrest
        exact ⟨rest, hpattern, rfl⟩
      · rintro ⟨rest, hpattern, rfl⟩
        exact ⟨l ++ rest, ih.mpr ⟨rest, hpattern, rfl⟩, rfl⟩

/-- A pattern with wider tokens matches more words. -/
theorem Matches.mono {f g : β → Token α} {l : List β}
    (hwider : ∀ c piece, (f c).Takes piece → (g c).Takes piece) (h : Matches (l.map f) word) :
    Matches (l.map g) word := by
  obtain ⟨pieces, htakes, rfl⟩ := h
  rw [List.forall₂_map_left_iff] at htakes
  exact ⟨pieces, List.forall₂_map_left_iff.mpr (htakes.imp hwider), rfl⟩

/-- Each token stands for the piece that `piece` gives it. -/
theorem matches_flatMap {f : β → Token α} {piece : β → List α}
    (htakes : ∀ c, (f c).Takes (piece c)) (l : List β) : Matches (l.map f) (l.flatMap piece) := by
  induction l with
  | nil => exact matches_nil_iff.mpr rfl
  | cons c l ih => exact matches_cons_iff.mpr ⟨piece c, l.flatMap piece, htakes c, ih, rfl⟩

/-! ### A matcher -/

/-- What may be left of a word after a run. -/
def afterRun (ok : α → Bool) : List α → List (List α)
  | [] => [[]]
  | b :: word => (b :: word) :: if ok b then afterRun ok word else []

def accepts [DecidableEq α] : List (Token α) → List α → Bool
  | [], word => word.isEmpty
  | literal _ :: _, [] => false
  | literal a :: pattern, b :: word => a = b && accepts pattern word
  | one _ :: _, [] => false
  | one ok :: pattern, b :: word => ok b && accepts pattern word
  | run ok :: pattern, word => (afterRun ok word).any (accepts pattern)

theorem mem_afterRun_iff {ok : α → Bool} {rest : List α} : rest ∈ afterRun ok word ↔
    ∃ piece, (∀ b ∈ piece, ok b = true) ∧ word = piece ++ rest := by
  induction word with
  | nil =>
      simp only [afterRun, List.mem_singleton]
      constructor
      · rintro rfl
        exact ⟨[], by simp, rfl⟩
      · rintro ⟨piece, -, hempty⟩
        obtain ⟨-, hrest⟩ := List.append_eq_nil_iff.mp hempty.symm
        exact hrest
  | cons b word ih =>
      rw [afterRun, List.mem_cons]
      constructor
      · rintro (rfl | h)
        · exact ⟨[], by simp, rfl⟩
        · split at h
          · rename_i hok
            obtain ⟨piece, hpiece, rfl⟩ := ih.mp h
            exact ⟨b :: piece, List.forall_mem_cons.mpr ⟨hok, hpiece⟩, rfl⟩
          · exact absurd h List.not_mem_nil
      · rintro ⟨piece, hpiece, heq⟩
        cases piece with
        | nil => exact Or.inl heq.symm
        | cons b' piece =>
            obtain ⟨rfl, rfl⟩ := List.cons.inj heq
            obtain ⟨hok, hpiece⟩ := List.forall_mem_cons.mp hpiece
            rw [if_pos hok]
            exact Or.inr (ih.mpr ⟨piece, hpiece, rfl⟩)

theorem accepts_iff [DecidableEq α] : accepts pattern word = true ↔ Matches pattern word := by
  induction pattern generalizing word with
  | nil => rw [accepts, List.isEmpty_iff, matches_nil_iff]
  | cons t pattern ih =>
      cases t with
      | literal a =>
          rw [matches_literal_cons_iff]
          cases word with
          | nil => simp [accepts]
          | cons b word =>
              rw [accepts, Bool.and_eq_true, decide_eq_true_eq, ih]
              constructor
              · rintro ⟨rfl, hword⟩
                exact ⟨word, hword, rfl⟩
              · rintro ⟨rest, hrest, heq⟩
                obtain ⟨rfl, rfl⟩ := List.cons.inj heq
                exact ⟨rfl, hrest⟩
      | one ok =>
          rw [matches_cons_iff]
          cases word with
          | nil => simp [accepts, Takes]
          | cons b word => simp [accepts, Takes, ih]
      | run ok =>
          simp only [accepts, List.any_eq_true, mem_afterRun_iff, ih]
          rw [matches_cons_iff]
          constructor
          · rintro ⟨rest, ⟨piece, hpiece, rfl⟩, hrest⟩
            exact ⟨piece, rest, hpiece, hrest, rfl⟩
          · rintro ⟨piece, rest, hpiece, hrest, rfl⟩
            exact ⟨rest, ⟨piece, hpiece, rfl⟩, hrest⟩

end Token

end Mgxx.Library
