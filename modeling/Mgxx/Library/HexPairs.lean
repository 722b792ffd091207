import Mgxx.Library.ChunkedCoding

/-!
Bytes as pairs of hexadecimal digits between separators.  The separator is no
digit, so the text can be split at it and read back.
-/

namespace Mgxx.Library.HexPairs

def separator : UInt8 := 58

def digit (d : ℕ) : UInt8 := UInt8.ofNat (if d < 10 then 48 + d else 55 + d)

def pair (b : UInt8) : List UInt8 := [digit (b.toNat / 16), digit (b.toNat % 16)]

def encode (bytes : List UInt8) : List UInt8 := [separator].intercalate (bytes.map pair)

def decodePair : List UInt8 → Option UInt8
  | [high, low] => do
      let high ← Chunked.hexValue high
      let low ← Chunked.hexValue low
      return UInt8.ofNat (16 * high + low)
  | _ => none

/-- The bytes of a text; the empty text has none. -/
def decode (text : List UInt8) : Option (List UInt8) :=
  if text = [] then some [] else (text.splitOn separator).mapM decodePair

theorem hexValue_digit {d : ℕ} (hd : d < 16) : Chunked.hexValue (digit d) = some d := by
  interval_cases d <;> decide

theorem digit_ne_separator {d : ℕ} (hd : d < 16) : digit d ≠ separator := by
  interval_cases d <;> decide

theorem halves_lt (b : UInt8) : b.toNat / 16 < 16 ∧ b.toNat % 16 < 16 := by
  have hb : b.toNat < 256 := b.toNat_lt
  omega

theorem decodePair_pair (b : UInt8) : decodePair (pair b) = some b := by
  obtain ⟨hhigh, hlow⟩ := halves_lt b
  have hhalves : 16 * (b.toNat / 16) + b.toNat % 16 = b.toNat := by omega
  simp only [decodePair, pair, hexValue_digit hhigh, hexValue_digit hlow, Option.bind_eq_bind,
    Option.bind_some, hhalves, UInt8.ofNat_toNat]
  rfl

theorem separator_notMem_pair (b : UInt8) : separator ∉ pair b := by
  obtain ⟨hhigh, hlow⟩ := halves_lt b
  simp [pair, (digit_ne_separator hhigh).symm, (digit_ne_separator hlow).symm]

theorem mapM_decodePair (bytes : List UInt8) :
    (bytes.map pair).mapM decodePair = some bytes := by
  induction bytes with
  | nil => rfl
  | cons b bytes ih => simp [decodePair_pair, ih]

@[simp] theorem encode_nil : encode [] = [] := rfl

@[simp] theorem encode_singleton (b : UInt8) : encode [b] = pair b := by
  simp [encode]

theorem encode_cons_cons (b b' : UInt8) (bytes : List UInt8) :
    encode (b :: b' :: bytes) = pair b ++ separator :: encode (b' :: bytes) := by
  simp [encode, List.intercalate_cons_cons]

theorem encode_ne_nil {bytes : List UInt8} (h : bytes ≠ []) : encode bytes ≠ [] := by
  cases bytes with
  | nil => exact absurd rfl h
  | cons b bytes =>
      cases bytes with
      | nil => simp [pair]
      | cons b' bytes => simp [encode_cons_cons, pair]

/-- The text of some bytes reads back as these bytes. -/
theorem decode_encode (bytes : List UInt8) : decode (encode bytes) = some bytes := by
  by_cases hbytes : bytes = []
  · subst hbytes
    rfl
  · have hpairs : ∀ text ∈ bytes.map pair, separator ∉ text := by
      intro text htext
      obtain ⟨b, -, rfl⟩ := List.mem_map.mp htext
      exact separator_notMem_pair b
    have hsplit : (encode bytes).splitOn separator = bytes.map pair :=
      List.splitOn_intercalate separator hpairs (by simpa using hbytes)
    rw [decode, if_neg (encode_ne_nil hbytes), hsplit, mapM_decodePair]

end Mgxx.Library.HexPairs
