import Mathlib.Algebra.BigOperators.Group.List.Basic
import Mathlib.Data.Nat.Digits.Defs
import Mathlib.Tactic.IntervalCases

/-!
The chunked transfer coding.  A chunk is its length in hexadecimal, a line end,
the bytes, and a line end; a body is a sequence of chunks closed by the chunk
of length zero.  The terminator is in band, so a body can be read back exactly
when none of its chunks is empty.
-/

namespace Mgxx.Library.Chunked

def hexDigit (d : ℕ) : UInt8 := UInt8.ofNat (if d < 10 then 48 + d else 87 + d)

/-- The number a hexadecimal digit stands for, in either letter case. -/
def hexValue (b : UInt8) : Option ℕ :=
  if 48 ≤ b.toNat ∧ b.toNat ≤ 57 then some (b.toNat - 48)
  else if 97 ≤ b.toNat ∧ b.toNat ≤ 102 then some (b.toNat - 87)
  else if 65 ≤ b.toNat ∧ b.toNat ≤ 70 then some (b.toNat - 55)
  else none

def hex (n : ℕ) : List UInt8 :=
  if n = 0 then [hexDigit 0] else (Nat.digits 16 n).reverse.map hexDigit

def lineEnd : List UInt8 := [13, 10]

def encodeChunk (chunk : List UInt8) : List UInt8 :=
  hex chunk.length ++ lineEnd ++ chunk ++ lineEnd

theorem length_lt_encodeChunk (chunk : List UInt8) : chunk.length < (encodeChunk chunk).length := by
  simp only [encodeChunk, lineEnd, List.length_append, List.length_cons, List.length_nil]
  omega

/-- The chunks in order, then the terminating chunk. -/
def encode (chunks : List (List UInt8)) : List UInt8 :=
  chunks.flatMap encodeChunk ++ encodeChunk []

def skipLineEnd : List UInt8 → Option (List UInt8)
  | 13 :: 10 :: rest => some rest
  | _ => none

/-- Read a chunk size: at least one hexadecimal digit, then a line end. -/
def decodeSize (input : List UInt8) : Option (ℕ × List UInt8) :=
  let digits := (input.takeWhile fun b => (hexValue b).isSome).filterMap hexValue
  if digits = [] then none
  else (skipLineEnd (input.dropWhile fun b => (hexValue b).isSome)).map fun rest =>
    (Nat.ofDigits 16 digits.reverse, rest)

/-- Read one message body off the input: the decoded bytes and what follows
the terminator.  The fuel bounds the number of chunks. -/
def decodeBody : ℕ → List UInt8 → Option (List UInt8 × List UInt8)
  | 0, _ => none
  | fuel + 1, input =>
      match decodeSize input with
      | none => none
      | some (0, rest) => (skipLineEnd rest).map fun rest => ([], rest)
      | some (size + 1, rest) =>
          if rest.length < size + 1 then none
          else (skipLineEnd (rest.drop (size + 1))).bind fun rest' =>
            (decodeBody fuel rest').map fun (body, after) =>
              (rest.take (size + 1) ++ body, after)

/-- Every chunk takes at least one byte, so the input's length is fuel enough. -/
def decode (input : List UInt8) : Option (List UInt8 × List UInt8) :=
  decodeBody (input.length + 1) input

/-! ### Sizes -/

theorem hexValue_hexDigit {d : ℕ} (hd : d < 16) : hexValue (hexDigit d) = some d := by
  interval_cases d <;> decide

theorem filterMap_hexValue_map {ds : List ℕ} (hds : ∀ d ∈ ds, d < 16) :
    (ds.map hexDigit).filterMap hexValue = ds := by
  induction ds with
  | nil => rfl
  | cons d ds ih =>
      rw [List.map_cons, List.filterMap_cons, hexValue_hexDigit (hds d (by simp))]
      simp only [List.cons.injEq, true_and]
      exact ih fun e he => hds e (List.mem_cons_of_mem d he)

theorem hex_isHex (n : ℕ) : ∀ b ∈ hex n, (hexValue b).isSome = true := by
  intro b hb
  unfold hex at hb
  split at hb
  · obtain rfl := List.mem_singleton.mp hb
    rw [hexValue_hexDigit (by decide)]
    rfl
  · obtain ⟨d, hd, rfl⟩ := List.mem_map.mp hb
    rw [hexValue_hexDigit (Nat.digits_lt_base (by decide) (List.mem_reverse.mp hd))]
    rfl

theorem hex_ne_nil (n : ℕ) : hex n ≠ [] := by
  unfold hex
  split
  · simp
  · rename_i hn
    simp [Nat.digits_eq_nil_iff_eq_zero, hn]

theorem length_hex (n : ℕ) : (hex n).length = (Nat.digits 16 (max n 1)).length := by
  rw [hex]
  split
  · rename_i hn
    subst hn
    rfl
  · rw [Nat.max_eq_left (by omega), List.length_map, List.length_reverse]

theorem ofDigits_hex (n : ℕ) :
    Nat.ofDigits 16 ((hex n).filterMap hexValue).reverse = n := by
  unfold hex
  split
  · rename_i hn
    subst hn
    decide
  · rw [filterMap_hexValue_map, List.reverse_reverse, Nat.ofDigits_digits]
    intro d hd
    exact Nat.digits_lt_base (by decide) (List.mem_reverse.mp hd)

@[simp] theorem skipLineEnd_append (rest : List UInt8) :
    skipLineEnd (lineEnd ++ rest) = some rest := rfl

theorem decodeSize_hex (n : ℕ) (rest : List UInt8) :
    decodeSize (hex n ++ lineEnd ++ rest) = some (n, rest) := by
  have hstop : (lineEnd ++ rest).takeWhile (fun b => (hexValue b).isSome) = [] := rfl
  have hdrop : (lineEnd ++ rest).dropWhile (fun b => (hexValue b).isSome) = lineEnd ++ rest := rfl
  have hne : (hex n).filterMap hexValue ≠ [] := by
    obtain ⟨b, bs, hb⟩ := List.exists_cons_of_ne_nil (hex_ne_nil n)
    obtain ⟨v, hv⟩ := Option.isSome_iff_exists.mp (hex_isHex n b (by simp [hb]))
    simp [hb, hv]
  rw [List.append_assoc, decodeSize,
    List.takeWhile_append_of_pos (hex_isHex n), hstop, List.append_nil,
    List.dropWhile_append_of_pos (hex_isHex n), hdrop]
  simp [hne, ofDigits_hex]

/-! ### Bodies -/

theorem decodeBody_chunk {chunk : List UInt8} (hchunk : chunk ≠ []) (fuel : ℕ)
    (rest : List UInt8) :
    decodeBody (fuel + 1) (encodeChunk chunk ++ rest) =
      (decodeBody fuel rest).map fun (body, after) => (chunk ++ body, after) := by
  have hsize : decodeSize (encodeChunk chunk ++ rest) =
      some (chunk.length, chunk ++ (lineEnd ++ rest)) := by
    simpa [encodeChunk] using decodeSize_hex chunk.length (chunk ++ (lineEnd ++ rest))
  obtain ⟨size, hlen⟩ : ∃ size, chunk.length = size + 1 :=
    Nat.exists_eq_succ_of_ne_zero (by simpa using hchunk)
  rw [hlen] at hsize
  have htake : (chunk ++ (lineEnd ++ rest)).take (size + 1) = chunk := by
    rw [← hlen, List.take_left']
    rfl
  have hdrop : (chunk ++ (lineEnd ++ rest)).drop (size + 1) = lineEnd ++ rest := by
    rw [← hlen, List.drop_left']
    rfl
  have hroom : ¬(chunk ++ (lineEnd ++ rest)).length < size + 1 := by simp [← hlen]
  simp only [decodeBody, hsize, hroom, if_false, htake, hdrop, skipLineEnd_append,
    Option.bind_some]

theorem decodeBody_terminator (fuel : ℕ) (rest : List UInt8) :
    decodeBody (fuel + 1) (encodeChunk [] ++ rest) = some ([], rest) := by
  have hsize : decodeSize (encodeChunk [] ++ rest) = some (0, lineEnd ++ rest) := by
    simpa [encodeChunk] using decodeSize_hex 0 (lineEnd ++ rest)
  simp [decodeBody, hsize]

/-- Reading stops at the first empty chunk, whatever follows it. -/
theorem decodeBody_encode {chunks : List (List UInt8)} (hchunks : ∀ c ∈ chunks, c ≠ [])
    {fuel : ℕ} (hfuel : chunks.length < fuel) (rest : List UInt8) :
    decodeBody fuel (chunks.flatMap encodeChunk ++ (encodeChunk [] ++ rest)) =
      some (chunks.flatten, rest) := by
  induction chunks generalizing fuel with
  | nil =>
      obtain ⟨fuel, rfl⟩ := Nat.exists_eq_succ_of_ne_zero (Nat.ne_of_gt hfuel)
      simpa using decodeBody_terminator fuel rest
  | cons chunk chunks ih =>
      obtain ⟨fuel, rfl⟩ := Nat.exists_eq_succ_of_ne_zero
        (Nat.ne_of_gt (Nat.zero_lt_of_lt hfuel))
      have hrest := ih (fun c hc => hchunks c (List.mem_cons_of_mem chunk hc))
        (Nat.lt_of_succ_lt_succ hfuel)
      rw [List.flatMap_cons, List.append_assoc,
        decodeBody_chunk (hchunks chunk (by simp)), hrest]
      rfl

theorem length_le_flatMap_encodeChunk (chunks : List (List UInt8)) :
    chunks.length ≤ (chunks.flatMap encodeChunk).length := by
  have hpos : ∀ n ∈ chunks.map fun chunk => (encodeChunk chunk).length, 1 ≤ n := by
    intro n hn
    obtain ⟨chunk, -, rfl⟩ := List.mem_map.mp hn
    exact Nat.one_le_of_lt (length_lt_encodeChunk chunk)
  rw [List.length_flatMap]
  simpa using List.length_le_sum_of_one_le _ hpos

theorem decode_encode {chunks : List (List UInt8)} (hchunks : ∀ c ∈ chunks, c ≠ [])
    (rest : List UInt8) :
    decode (chunks.flatMap encodeChunk ++ (encodeChunk [] ++ rest)) =
      some (chunks.flatten, rest) := by
  apply decodeBody_encode hchunks
  have hlen := length_le_flatMap_encodeChunk chunks
  simp only [List.length_append]
  omega

/-- A body reads back whole exactly when no chunk of it is empty. -/
theorem decode_encode_iff (chunks : List (List UInt8)) :
    decode (encode chunks) = some (chunks.flatten, []) ↔ ∀ c ∈ chunks, c ≠ [] := by
  constructor
  · intro h
    by_contra hempty
    push Not at hempty
    obtain ⟨c, hc, rfl⟩ := hempty
    -- everything after the first empty chunk is left unread
    obtain ⟨before, after, hsplit, hbefore⟩ := List.eq_append_cons_of_mem hc
    have hread := decode_encode
      (fun c hc hnil => hbefore (hnil ▸ hc)) (after.flatMap encodeChunk ++ encodeChunk [])
    rw [hsplit, encode, List.flatMap_append, List.flatMap_cons, List.append_assoc,
      List.append_assoc, hread] at h
    have hrest := (Prod.mk.inj (Option.some.inj h)).2
    simp [encodeChunk, hex_ne_nil] at hrest
  · intro h
    simpa [encode] using decode_encode h []

end Mgxx.Library.Chunked
