import Mgxx.Http.CertInfo

/-!
What a handler reads of a certificate is what `setup` has extracted, field by
field; and the fingerprint determines the digest.
-/

namespace Mgxx.Http

open Library

namespace CertStrings

def parts (strings : CertStrings) : List Bytes :=
  [strings.subject, strings.issuer, strings.serial, strings.before, strings.after,
    strings.fingerprint]

end CertStrings

namespace TlsCertInfo

def views (info : TlsCertInfo) : List MgStr :=
  [info.subjectName, info.issuerName, info.serialNumber, info.notBefore, info.notAfter,
    info.fingerprint]

/-- The buffer is cut into the six views, and each getter returns its own string. -/
structure Shows (info : TlsCertInfo) (memory : Memory) (strings : CertStrings) : Prop where
  partition : Span.Partition info.views info.buffer
  buffer : info.buffer.read memory = strings.parts.flatten
  subjectName : info.getSubjectName memory = strings.subject
  issuerName : info.getIssuerName memory = strings.issuer
  serialNumber : info.getSerialNumber memory = strings.serial
  notBefore : info.getNotBefore memory = strings.before
  notAfter : info.getNotAfter memory = strings.after
  fingerprint : info.getFingerprint memory = strings.fingerprint

end TlsCertInfo

variable {memory later : Memory} {base : ℕ} {strings : CertStrings} {w : ℕ}

theorem buffer_storeCertInfo : (storeCertInfo memory base strings).2.buffer =
    ⟨base, strings.parts.flatten.length⟩ := by
  simp [storeCertInfo, CertStrings.parts, Nat.add_assoc]

/-- The sums written out in the source are the running sums of the lengths. -/
theorem views_storeCertInfo :
    (storeCertInfo memory base strings).2.views = Span.layout base strings.parts := rfl

theorem read_storeCertInfo : (storeCertInfo memory base strings).2.buffer.read
    (storeCertInfo memory base strings).1 = strings.parts.flatten := by
  have hparts : strings.subject ++ strings.issuer ++ strings.serial ++ strings.before ++
      strings.after ++ strings.fingerprint = strings.parts.flatten := by
    simp [CertStrings.parts]
  rw [← hparts]
  exact Span.read_write _ _ _

/-- What is stored shows as long as the buffer is kept. -/
theorem shows_storeCertInfo (h : (storeCertInfo memory base strings).2.buffer.Kept
    (storeCertInfo memory base strings).1 later) :
    (storeCertInfo memory base strings).2.Shows later strings := by
  have hbuffer : (storeCertInfo memory base strings).2.buffer.read later =
      strings.parts.flatten := by rw [Span.read_eq_of_kept h, read_storeCertInfo]
  have hviews : (storeCertInfo memory base strings).2.views.map (Span.read later) =
      strings.parts := by
    rw [views_storeCertInfo]
    rw [buffer_storeCertInfo] at hbuffer
    exact Span.map_read_layout hbuffer
  have hpartition : Span.Partition (storeCertInfo memory base strings).2.views
      (storeCertInfo memory base strings).2.buffer := by
    rw [views_storeCertInfo, buffer_storeCertInfo]
    exact Span.partition_layout base strings.parts
  simp only [TlsCertInfo.views, CertStrings.parts, List.map_cons, List.map_nil, List.cons.injEq,
    and_true] at hviews
  obtain ⟨hsubject, hissuer, hserial, hbefore, hafter, hfingerprint⟩ := hviews
  exact ⟨hpartition, hbuffer, hsubject, hissuer, hserial, hbefore, hafter, hfingerprint⟩

variable (timegm : Tm → ℤ) (old : Option TlsCertInfo)

theorem setupOpenssl_cert (cert : X509) :
    setupOpenssl timegm base true (some ⟨some (some cert)⟩) memory old =
      ((storeCertInfo memory base (opensslStrings timegm cert)).1,
        some (storeCertInfo memory base (opensslStrings timegm cert)).2) := rfl

theorem setupMbed_cert (cert : MbedCert w) :
    setupMbed timegm base (some (some cert)) memory old =
      ((storeCertInfo memory base (mbedStrings timegm cert)).1,
        some (storeCertInfo memory base (mbedStrings timegm cert)).2) := rfl

/-! ### Fingerprints -/

/-- The separator follows every pair but the last, as the length minus one does not
wrap around while there are bytes left. -/
theorem fingerprintLoop_eq (length : ℕ) (hlength : length < 2 ^ w) (out : Bytes) (i : ℕ)
    (fp : Bytes) (hi : i + fp.length = length) :
    fingerprintLoop w length out i fp = out ++ HexPairs.encode fp := by
  induction fp generalizing out i with
  | nil => simp [fingerprintLoop]
  | cons b fp ih =>
      rw [List.length_cons] at hi
      have hbound : (length + 2 ^ w - 1) % 2 ^ w = length - 1 := by
        have hsum : length + 2 ^ w - 1 = length - 1 + 2 ^ w := by omega
        rw [hsum, Nat.add_mod_right]
        exact Nat.mod_eq_of_lt (by omega)
      rw [fingerprintLoop, hbound, ih _ _ (by omega)]
      cases fp with
      | nil =>
          rw [List.length_nil] at hi
          rw [if_neg (by omega)]
          simp [format02X]
      | cons b' fp =>
          rw [List.length_cons] at hi
          rw [if_pos (by omega), HexPairs.encode_cons_cons]
          simp [format02X]

theorem fingerprint_eq (digest : Digest w) : fingerprint digest = HexPairs.encode digest.bytes := by
  rw [fingerprint, fingerprintLoop_eq _ digest.fits [] 0 digest.bytes (Nat.zero_add _)]
  rfl

theorem decode_fingerprint (digest : Digest w) :
    HexPairs.decode (fingerprint digest) = some digest.bytes := by
  rw [fingerprint_eq, HexPairs.decode_encode]

theorem fingerprint_ne {d d' : Digest w} (h : d.bytes ≠ d'.bytes) :
    fingerprint d ≠ fingerprint d' := by
  intro heq
  have hdecode := decode_fingerprint d
  rw [heq, decode_fingerprint] at hdecode
  exact h (Option.some.inj hdecode).symm

theorem fingerprint_mbedStrings {cert : MbedCert w} (hraw : cert.raw = true)
    {digest : Digest w} (hhash : cert.hash = some digest) :
    (mbedStrings timegm cert).fingerprint = fingerprint digest := by
  simp [mbedStrings, getFingerprint, hraw, hhash]

/-- Both branches store each string where its getter finds it; the fingerprint reads
back as the digest, so that different digests have different fingerprints. -/
theorem certificate_info (timegm : Tm → ℤ) :
    (∀ (strings : CertStrings) (base : ℕ) (memory later : Memory),
      (storeCertInfo memory base strings).2.buffer.Kept (storeCertInfo memory base strings).1
        later → (storeCertInfo memory base strings).2.Shows later strings) ∧
    (∀ (cert : X509) (base : ℕ) (memory : Memory) (old : Option TlsCertInfo),
      ∃ after info,
        setupOpenssl timegm base true (some ⟨some (some cert)⟩) memory old = (after, some info) ∧
        ∀ later, info.buffer.Kept after later → info.Shows later (opensslStrings timegm cert)) ∧
    (∀ (w : ℕ) (cert : MbedCert w) (base : ℕ) (memory : Memory) (old : Option TlsCertInfo),
      ∃ after info, setupMbed timegm base (some (some cert)) memory old = (after, some info) ∧
        ∀ later, info.buffer.Kept after later → info.Shows later (mbedStrings timegm cert)) ∧
    (∀ (w : ℕ) (digest : Digest w),
      HexPairs.decode (fingerprint digest) = some digest.bytes) ∧
    (∀ cert cert' : X509, cert.digest.bytes ≠ cert'.digest.bytes →
      (opensslStrings timegm cert).fingerprint ≠ (opensslStrings timegm cert').fingerprint) ∧
    ∀ (w : ℕ) (cert cert' : MbedCert w) (digest digest' : Digest w),
      cert.raw = true → cert.hash = some digest → cert'.raw = true → cert'.hash = some digest' →
      digest.bytes ≠ digest'.bytes →
      (mbedStrings timegm cert).fingerprint ≠ (mbedStrings timegm cert').fingerprint := by
  refine ⟨fun strings base memory later h => shows_storeCertInfo h, ?_, ?_,
    fun w digest => decode_fingerprint digest, fun cert cert' h => fingerprint_ne h, ?_⟩
  · intro cert base memory old
    exact ⟨_, _, setupOpenssl_cert timegm old cert, fun later h => shows_storeCertInfo h⟩
  · intro w cert base memory old
    exact ⟨_, _, setupMbed_cert timegm old cert, fun later h => shows_storeCertInfo h⟩
  · intro w cert cert' digest digest' hraw hhash hraw' hhash' h
    rw [fingerprint_mbedStrings timegm hraw hhash, fingerprint_mbedStrings timegm hraw' hhash']
    exact fingerprint_ne h

/-- The times of January 1970, as `timegm` answers for them. -/
def january (t : Tm) : ℤ := 86400 * (t.mday - 1) + 3600 * t.hour + 60 * t.min + t.sec

def openssl1970 (digest : Digest 32) : X509 where
  subjectName := text "CN=alice"
  issuerName := []
  notBefore := some ⟨70, 0, 1, 0, 0, 0, 0⟩
  notAfter := none
  serialNumber := text "0A"
  digest := digest

def mbed1970 (digest : Digest 64) : MbedCert 64 where
  subject := ⟨8, text "CN=alice" ++ [0], by decide⟩
  issuer := ⟨-1, [], by decide⟩
  serial := ⟨5, text "0A:1B" ++ [0], by decide⟩
  validFrom := ⟨1970, 1, 1, 0, 0, 0⟩
  validTo := ⟨1970, 1, 2, 0, 0, 0⟩
  raw := true
  hash := some digest

/-- Two certificates that differ in their digests; the issuer's name is empty. -/
theorem certificate_info_1970 :
    (∃ after info,
      setupOpenssl january 4096 true (some ⟨some (some (openssl1970 ⟨[171, 1], by decide⟩))⟩)
        (fun _ => 0) none = (after, some info) ∧
      info.Shows after (opensslStrings january (openssl1970 ⟨[171, 1], by decide⟩))) ∧
    (∃ after info,
      setupMbed january 4096 (some (some (mbed1970 ⟨[171, 1], by decide⟩))) (fun _ => 0) none =
        (after, some info) ∧
      info.Shows after (mbedStrings january (mbed1970 ⟨[171, 1], by decide⟩))) ∧
    (opensslStrings january (openssl1970 ⟨[171, 1], by decide⟩)).fingerprint ≠
      (opensslStrings january (openssl1970 ⟨[171], by decide⟩)).fingerprint ∧
    (mbedStrings january (mbed1970 ⟨[171, 1], by decide⟩)).fingerprint ≠
      (mbedStrings january (mbed1970 ⟨[171], by decide⟩)).fingerprint := by
  obtain ⟨-, hopenssl, hmbed, -, hne, hne'⟩ := certificate_info january
  obtain ⟨after, info, hsetup, hshows⟩ :=
    hopenssl (openssl1970 ⟨[171, 1], by decide⟩) 4096 (fun _ => 0) none
  obtain ⟨after', info', hsetup', hshows'⟩ :=
    hmbed 64 (mbed1970 ⟨[171, 1], by decide⟩) 4096 (fun _ => 0) none
  refine ⟨⟨after, info, hsetup, hshows after fun _ _ _ => rfl⟩,
    ⟨after', info', hsetup', hshows' after' fun _ _ _ => rfl⟩, hne _ _ ?_,
    hne' 64 _ _ _ _ rfl rfl rfl rfl ?_⟩
  · show ([171, 1] : Bytes) ≠ [171]
    decide
  · show ([171, 1] : Bytes) ≠ [171]
    decide

end Mgxx.Http
