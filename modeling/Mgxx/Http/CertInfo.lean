import Mgxx.Http.Requests
import Mgxx.Library.HexPairs

/-!
`tls_cert_info`, and `remote_context::setup`, which fills it: once written for
OpenSSL and once for mbedTLS.  What the two libraries and `timegm` answer comes
from outside.
-/

namespace Mgxx.Http

open Library

/-- `tls_cert_info`: six views over one buffer. -/
structure TlsCertInfo where
  buffer : MgStr
  subjectName : MgStr
  issuerName : MgStr
  serialNumber : MgStr
  notBefore : MgStr
  notAfter : MgStr
  fingerprint : MgStr
deriving DecidableEq, Repr

namespace TlsCertInfo

variable (memory : Memory) (info : TlsCertInfo)

def getSubjectName : Bytes := info.subjectName.read memory

def getIssuerName : Bytes := info.issuerName.read memory

def getSerialNumber : Bytes := info.serialNumber.read memory

def getNotBefore : Bytes := info.notBefore.read memory

def getNotAfter : Bytes := info.notAfter.read memory

def getFingerprint : Bytes := info.fingerprint.read memory

end TlsCertInfo

/-- The strings that a branch of `setup` has extracted, in the order in which it
appends them. -/
structure CertStrings where
  subject : Bytes
  issuer : Bytes
  serial : Bytes
  before : Bytes
  after : Bytes
  fingerprint : Bytes
deriving DecidableEq, Repr

/-- The end of both branches; `base` is where the buffer of the new
`tls_cert_info` is. -/
def storeCertInfo (memory : Memory) (base : ℕ) (strings : CertStrings) : Memory × TlsCertInfo :=
  let ⟨subject, issuer, serial, before, after, fingerprint⟩ := strings
  let buffer := subject ++ issuer ++ serial ++ before ++ after ++ fingerprint
  (Span.write memory base buffer, {
    buffer := ⟨base, buffer.length⟩
    subjectName := ⟨base, subject.length⟩
    issuerName := ⟨base + subject.length, issuer.length⟩
    serialNumber := ⟨base + subject.length + issuer.length, serial.length⟩
    notBefore := ⟨base + subject.length + issuer.length + serial.length, before.length⟩
    notAfter :=
      ⟨base + subject.length + issuer.length + serial.length + before.length, after.length⟩
    fingerprint :=
      ⟨base + subject.length + issuer.length + serial.length + before.length + after.length,
        fingerprint.length⟩ })

/-- The bytes of a digest; an unsigned integer of `w` bits says how many. -/
structure Digest (w : ℕ) where
  bytes : Bytes
  fits : bytes.length < 2 ^ w

/-- `std::format("{:02X}", b)`. -/
def format02X (b : UInt8) : Bytes := HexPairs.pair b

/-- The loop from index `i` on, over the bytes of the digest that are left; the
bound of the separator is the length minus one as an unsigned integer. -/
def fingerprintLoop (w length : ℕ) (fingerprint : Bytes) (i : ℕ) : Bytes → Bytes
  | [] => fingerprint
  | b :: fp =>
      let fingerprint := fingerprint ++ format02X b
      let fingerprint :=
        if i < (length + 2 ^ w - 1) % 2 ^ w then fingerprint ++ [HexPairs.separator]
        else fingerprint
      fingerprintLoop w length fingerprint (i + 1) fp

def fingerprint {w : ℕ} (digest : Digest w) : Bytes :=
  fingerprintLoop w digest.bytes.length [] 0 digest.bytes

/-- `struct tm`, as far as `timegm` reads it. -/
structure Tm where
  year : ℤ
  mon : ℤ
  mday : ℤ
  hour : ℤ
  min : ℤ
  sec : ℤ
  isdst : ℤ

def formatTime (timestamp : ℤ) : Bytes := text (toString timestamp)

section Setup

variable (timegm : Tm → ℤ)

/-! ### OpenSSL -/

/-- A certificate as OpenSSL answers about it. -/
structure X509 where
  /-- What `X509_NAME_print_ex` prints for the subject, and for the issuer. -/
  subjectName : Bytes
  issuerName : Bytes
  /-- `ASN1_TIME_to_tm`, which may fail. -/
  notBefore : Option Tm
  notAfter : Option Tm
  /-- The buffer that `BN_bn2hex` returns for the serial number. -/
  serialNumber : Bytes
  /-- `X509_digest`, whose length is an `unsigned int`. -/
  digest : Digest 32

/-- `mg_tls` of OpenSSL: the session, and the certificate that its peer has sent. -/
structure OpensslTls where
  ssl : Option (Option X509)

def getX509Time : Option Tm → Bytes
  | none => []
  | some t => formatTime (timegm t)

def opensslStrings (cert : X509) : CertStrings where
  subject := cert.subjectName
  issuer := cert.issuerName
  serial := cString cert.serialNumber
  before := getX509Time timegm cert.notBefore
  after := getX509Time timegm cert.notAfter
  fingerprint := fingerprint cert.digest

def setupOpenssl (base : ℕ) (bio : Bool) (tls : Option OpensslTls) (memory : Memory)
    (mTlsCert : Option TlsCertInfo) : Memory × Option TlsCertInfo :=
  match tls with
  | some ⟨some (some cert)⟩ =>
      if bio then
        let (memory, info) := storeCertInfo memory base (opensslStrings timegm cert)
        (memory, some info)
      else (memory, mTlsCert)
  -- no TLS, no session, or a peer without a certificate
  | _ => (memory, mTlsCert)

/-! ### mbedTLS -/

structure MbedTime where
  year : ℤ
  mon : ℤ
  day : ℤ
  hour : ℤ
  min : ℤ
  sec : ℤ

/-- What a function of mbedTLS that prints into a buffer returns, and leaves there. -/
structure MbedText where
  length : ℤ
  buffer : Bytes
  fits : length ≤ buffer.length

/-- `mbedtls_x509_crt`, with the answers of mbedTLS about it; `w` is the width of
`size_t`. -/
structure MbedCert (w : ℕ) where
  /-- `mbedtls_x509_dn_gets` for the subject, and for the issuer. -/
  subject : MbedText
  issuer : MbedText
  /-- `mbedtls_x509_serial_gets`. -/
  serial : MbedText
  validFrom : MbedTime
  validTo : MbedTime
  /-- Whether `raw.p` is not null. -/
  raw : Bool
  /-- `psa_hash_compute`, if its status is `PSA_SUCCESS`. -/
  hash : Option (Digest w)

variable {w : ℕ}

def getX509Text (printed : MbedText) : Option Bytes :=
  if printed.length < 0 then none else some (printed.buffer.take printed.length.toNat)

def getFingerprint (cert : MbedCert w) : Option Bytes :=
  if !cert.raw then none else cert.hash.map fingerprint

def getTimestamp (time : MbedTime) : ℤ :=
  timegm {
    year := time.year - 1900
    mon := time.mon - 1
    mday := time.day
    hour := time.hour
    min := time.min
    sec := time.sec
    isdst := -1 }

def mbedStrings (cert : MbedCert w) : CertStrings where
  subject := (getX509Text cert.subject).getD []
  issuer := (getX509Text cert.issuer).getD []
  serial := ((getX509Text cert.serial).getD []).filter (· ≠ HexPairs.separator)
  before := formatTime (getTimestamp timegm cert.validFrom)
  after := formatTime (getTimestamp timegm cert.validTo)
  fingerprint := (getFingerprint cert).getD []

/-- `setup` with mbedTLS; `tls` is the certificate that the peer has sent, if there
is TLS. -/
def setupMbed (base : ℕ) (tls : Option (Option (MbedCert w))) (memory : Memory)
    (mTlsCert : Option TlsCertInfo) : Memory × Option TlsCertInfo :=
  match tls with
  | some (some cert) =>
      let (memory, info) := storeCertInfo memory base (mbedStrings timegm cert)
      (memory, some info)
  | _ => (memory, mTlsCert)

end Setup

end Mgxx.Http
