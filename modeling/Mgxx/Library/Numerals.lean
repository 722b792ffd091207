import Mgxx.Library.ChunkedCoding

/-!
Numbers as text, and lists of fields between separators.  A separator that occurs
in no field splits the text in one way only.
-/

namespace Mgxx.Library

section Separated

variable {α β : Type*} {field : α → List β} {separator : β}

def separated (separator : β) (field : α → List β) (fields : List α) : List β :=
  [separator].intercalate (fields.map field)

/-- What occurs in the text is a separator or stands in a field. -/
theorem mem_separated {b : β} {fields : List α} (h : b ∈ separated separator field fields) :
    b = separator ∨ ∃ a ∈ fields, b ∈ field a := by
  induction fields with
  | nil => simp [separated] at h
  | cons a fields ih =>
      cases fields with
      | nil => exact Or.inr ⟨a, by simp, by simpa [separated] using h⟩
      | cons a' fields =>
          rw [separated, List.map_cons, List.map_cons, List.intercalate_cons_cons,
            List.mem_append, List.mem_append, List.mem_singleton] at h
          rcases h with (hfirst | hsep) | hrest
          · exact Or.inr ⟨a, by simp, hfirst⟩
          · exact Or.inl hsep
          · rcases ih hrest with hsep | ⟨a'', hmem, hb⟩
            · exact Or.inl hsep
            · exact Or.inr ⟨a'', List.mem_cons_of_mem a hmem, hb⟩

variable [BEq β] [LawfulBEq β]

theorem splitOn_separated (hfield : ∀ a, separator ∉ field a) {fields : List α}
    (hfields : fields ≠ []) :
    (separated separator field fields).splitOn separator = fields.map field := by
  refine List.splitOn_intercalate separator ?_ (by simpa using hfields)
  intro text htext
  obtain ⟨a, -, rfl⟩ := List.mem_map.mp htext
  exact hfield a

/-- Some fields are determined by their text, if each is by its own. -/
theorem separated_inj (hinj : Function.Injective field) (hfield : ∀ a, separator ∉ field a)
    {xs ys : List α} (hxs : xs ≠ []) (hys : ys ≠ [])
    (h : separated separator field xs = separated separator field ys) : xs = ys := by
  refine List.map_injective_iff.mpr hinj ?_
  rw [← splitOn_separated hfield hxs, h, splitOn_separated hfield hys]

end Separated

namespace Decimal

/-- The decimal digits of a number, most significant first. -/
def digits (n : ℕ) : List UInt8 := (Nat.toDigits 10 n).map fun c => UInt8.ofNat c.toNat

theorem isDigit_of_mem_toDigits {n : ℕ} {c : Char} (hc : c ∈ Nat.toDigits 10 n) :
    c.isDigit = true := Nat.isDigit_of_mem_toDigits (by decide) (by decide) hc

theorem toNat_ofNat_of_isDigit {c : Char} (h : c.isDigit = true) :
    (UInt8.ofNat c.toNat).toNat = c.toNat ∧ 48 ≤ c.toNat ∧ c.toNat ≤ 57 := by
  simp only [Char.isDigit, Bool.and_eq_true, decide_eq_true_eq, UInt32.le_iff_toNat_le] at h
  have hlow : 48 ≤ c.toNat := h.1
  have hhigh : c.toNat ≤ 57 := h.2
  refine ⟨?_, hlow, hhigh⟩
  rw [UInt8.toNat_ofNat']
  omega

theorem le_of_mem_digits {n : ℕ} {b : UInt8} (hb : b ∈ digits n) :
    48 ≤ b.toNat ∧ b.toNat ≤ 57 := by
  obtain ⟨c, hc, rfl⟩ := List.mem_map.mp hb
  obtain ⟨heq, hbounds⟩ := toNat_ofNat_of_isDigit (isDigit_of_mem_toDigits hc)
  rwa [heq]

/-- A number is determined by its digits. -/
theorem digits_injective : Function.Injective digits := by
  intro m n h
  have hchars : ∀ k, (digits k).map (fun b => Char.ofNat b.toNat) = Nat.toDigits 10 k := by
    intro k
    rw [digits, List.map_map]
    refine (List.map_congr_left fun c hc => ?_).trans (List.map_id _)
    show Char.ofNat (UInt8.ofNat c.toNat).toNat = c
    rw [(toNat_ofNat_of_isDigit (isDigit_of_mem_toDigits hc)).1, Char.ofNat_toNat]
  have hdigits : Nat.toDigits 10 m = Nat.toDigits 10 n := by rw [← hchars m, h, hchars n]
  rw [← Nat.ofDigitChars_toDigits (b := 10) (n := m) (by decide) (by decide), hdigits,
    Nat.ofDigitChars_toDigits (by decide) (by decide)]

end Decimal

/-- A number is determined by its hexadecimal text. -/
theorem Chunked.hex_injective : Function.Injective Chunked.hex := by
  intro m n h
  rw [← Chunked.ofDigits_hex m, h, Chunked.ofDigits_hex n]

end Mgxx.Library
