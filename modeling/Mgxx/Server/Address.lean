import Mgxx.Http.Common
import Mgxx.Library.Numerals
import Mathlib.Data.List.OfFn

/-!
The address of the peer, as `format_ip` shows it.  What `inet_ntop` makes of an IPv6
address and `mg_ntohs` of a port comes from outside; an IPv4 address is four numbers and
three dots.
-/

namespace Mgxx

open Library

/-- `mg_addr`: the union `addr` and the port, both as they lie in memory. -/
structure MgAddr where
  addr : Fin 16 → UInt8
  port : UInt8 × UInt8
  isIp6 : Bool

/-- The functions that print an address and are not of this repository. -/
structure NetText where
  /-- `inet_ntop(AF_INET6, ..)` -/
  inetNtop6 : (Fin 16 → UInt8) → Bytes
  mgNtohs : UInt8 × UInt8 → ℕ

/-- The bytes of the union that an IPv4 address takes. -/
def MgAddr.ip4 (ip : MgAddr) : Bytes := (List.ofFn ip.addr).take 4

def inetNtop (bytes : Bytes) : Bytes :=
  separated 46 (fun b : UInt8 => Decimal.digits b.toNat) bytes

def formatIp (net : NetText) (ip : MgAddr) : Bytes :=
  if ip.isIp6 then
    text "[" ++ net.inetNtop6 ip.addr ++ text "]:" ++ text (toString (net.mgNtohs ip.port))
  else inetNtop ip.ip4 ++ text ":" ++ text (toString (net.mgNtohs ip.port))

/-- Two addresses name the same peer: what the other family would use of the
union does not count. -/
def MgAddr.SamePeer (a b : MgAddr) : Prop :=
  a.isIp6 = b.isIp6 ∧ a.port = b.port ∧ if a.isIp6 then a.addr = b.addr else a.ip4 = b.ip4

theorem text_nat (n : ℕ) : text (toString n) = Decimal.digits n := by
  rw [Nat.toString_eq_repr, text, Nat.toList_repr, Decimal.digits]

theorem notMem_port {b : UInt8} (hb : 57 < b.toNat) (port : ℕ) :
    b ∉ text (toString port) := by
  rw [text_nat]
  intro hmem
  have hbounds := Decimal.le_of_mem_digits hmem
  omega

@[simp] theorem length_ip4 (ip : MgAddr) : ip.ip4.length = 4 := by simp [MgAddr.ip4]

/-- A byte of the text of an IPv4 address is a dot or a digit. -/
theorem mem_inetNtop {b : UInt8} {bytes : Bytes} (h : b ∈ inetNtop bytes) :
    46 ≤ b.toNat ∧ b.toNat ≤ 57 := by
  rcases mem_separated h with rfl | ⟨a, -, hb⟩
  · decide
  · have hbounds := Decimal.le_of_mem_digits hb
    omega

theorem inetNtop_inj {x y : Bytes} (hx : x ≠ []) (hy : y ≠ []) (h : inetNtop x = inetNtop y) :
    x = y := by
  refine separated_inj (fun a b hab => ?_) (fun a hdot => ?_) hx hy h
  · exact UInt8.toNat_inj.mp (Decimal.digits_injective hab)
  · have hbounds := Decimal.le_of_mem_digits hdot
    exact absurd hbounds.1 (by decide)

theorem ip4_ne_nil (ip : MgAddr) : ip.ip4 ≠ [] :=
  List.ne_nil_of_length_pos (by simp)

variable {net : NetText}

theorem port_inj (hports : Function.Injective net.mgNtohs) {p q : UInt8 × UInt8}
    (h : text (toString (net.mgNtohs p)) = text (toString (net.mgNtohs q))) : p = q := by
  rw [text_nat, text_nat] at h
  exact hports (Decimal.digits_injective h)

/-- An IPv4 text never equals an IPv6 text: one starts with a dot or a digit,
the other with a bracket. -/
theorem formatIp_ne {a b : MgAddr} (ha : a.isIp6 = true) (hb : b.isIp6 = false) :
    formatIp net a ≠ formatIp net b := by
  intro h
  have hbracket : (91 : UInt8) ∈ (formatIp net b).head? := by
    rw [← h, formatIp, if_pos ha]
    rfl
  rw [formatIp, hb, if_neg Bool.false_ne_true] at hbracket
  cases htext : inetNtop b.ip4 with
  | nil =>
      rw [htext] at hbracket
      simp [text] at hbracket
  | cons d ds =>
      rw [htext] at hbracket
      obtain rfl : d = 91 := by simpa using hbracket
      have hmem : 91 ∈ inetNtop b.ip4 := by simp [htext]
      exact absurd (mem_inetNtop hmem).2 (by decide)

/-- The text of a remote address names the peer: its family, its address and its port. -/
theorem formatIp_eq_iff (hinj : Function.Injective net.inetNtop6)
    (hbracket : ∀ addr, 93 ∉ net.inetNtop6 addr) (hports : Function.Injective net.mgNtohs)
    (a b : MgAddr) : formatIp net a = formatIp net b ↔ a.SamePeer b := by
  constructor
  · intro h
    cases ha : a.isIp6 with
    | true =>
        cases hb : b.isIp6 with
        | false => exact absurd h (formatIp_ne ha hb)
        | true =>
            have hsplit : net.inetNtop6 a.addr ++ 93 :: 58 :: text (toString (net.mgNtohs a.port)) =
                net.inetNtop6 b.addr ++ 93 :: 58 :: text (toString (net.mgNtohs b.port)) := by
              simpa [formatIp, ha, hb, text] using h
            have hrest : 93 ∉ (58 : UInt8) :: text (toString (net.mgNtohs a.port)) := by
              simpa using notMem_port (b := 93) (by decide) (net.mgNtohs a.port)
            obtain ⟨haddr, -, hport⟩ :=
              (List.append_cons_inj_of_notMem (hbracket _) hrest).mp hsplit
            refine ⟨by rw [ha, hb], port_inj hports (List.cons.inj hport).2, ?_⟩
            rw [if_pos ha]
            exact hinj haddr
    | false =>
        cases hb : b.isIp6 with
        | true => exact absurd h.symm (formatIp_ne hb ha)
        | false =>
            have hsplit : inetNtop a.ip4 ++ 58 :: text (toString (net.mgNtohs a.port)) =
                inetNtop b.ip4 ++ 58 :: text (toString (net.mgNtohs b.port)) := by
              simpa [formatIp, ha, hb, text] using h
            have hcolon : ∀ bytes, (58 : UInt8) ∉ inetNtop bytes := by
              intro bytes hmem
              exact absurd (mem_inetNtop hmem).2 (by decide)
            obtain ⟨haddr, -, hport⟩ := (List.append_cons_inj_of_notMem (hcolon _)
              (notMem_port (by decide) (net.mgNtohs a.port))).mp hsplit
            refine ⟨by rw [ha, hb], port_inj hports hport, ?_⟩
            rw [if_neg (by simp [ha])]
            exact inetNtop_inj (ip4_ne_nil a) (ip4_ne_nil b) haddr
  · rintro ⟨hfamily, hport, hbytes⟩
    cases ha : a.isIp6 with
    | true =>
        rw [if_pos ha] at hbytes
        simp [formatIp, ← hfamily, ha, hport, hbytes]
    | false =>
        rw [if_neg (by simp [ha])] at hbytes
        simp [formatIp, ← hfamily, ha, hport, hbytes]

def bigEndian (net : UInt8 × UInt8) : ℕ := 256 * net.1.toNat + net.2.toNat

theorem bigEndian_injective : Function.Injective bigEndian := by
  intro p q h
  have hp : p.2.toNat < 256 := p.2.toNat_lt
  have hq : q.2.toNat < 256 := q.2.toNat_lt
  simp only [bigEndian] at h
  have hhigh : p.1.toNat = q.1.toNat := by omega
  have hlow : p.2.toNat = q.2.toNat := by omega
  exact Prod.ext (UInt8.toNat_inj.mp hhigh) (UInt8.toNat_inj.mp hlow)

/-- The text of an IPv6 address in which no group is zero. -/
def ip6Groups (addr : Fin 16 → UInt8) : Bytes :=
  separated 58 Chunked.hex (List.ofFn fun i : Fin 8 =>
    bigEndian (addr ⟨2 * i, by omega⟩, addr ⟨2 * i + 1, by omega⟩))

theorem notMem_hex {b : UInt8} (hb : Chunked.hexValue b = none) (n : ℕ) : b ∉ Chunked.hex n := by
  intro hmem
  exact absurd (Chunked.hex_isHex n b hmem) (by simp [hb])

theorem ip6Groups_injective : Function.Injective ip6Groups := by
  intro x y h
  have hgroups := List.ofFn_injective
    (separated_inj Chunked.hex_injective (notMem_hex (by decide)) (by simp) (by simp) h)
  have hpair (i : Fin 8) := Prod.mk.inj (bigEndian_injective (congrFun hgroups i))
  funext j
  obtain ⟨hfst, hsnd⟩ := hpair ⟨j / 2, by omega⟩
  rcases Nat.mod_two_eq_zero_or_one j with heven | hodd
  · have hj : (⟨2 * (j / 2), by omega⟩ : Fin 16) = j := Fin.ext (show 2 * (j.1 / 2) = j by omega)
    exact hj ▸ hfst
  · have hj : (⟨2 * (j / 2) + 1, by omega⟩ : Fin 16) = j :=
      Fin.ext (show 2 * (j.1 / 2) + 1 = j by omega)
    exact hj ▸ hsnd

theorem notMem_ip6Groups (addr : Fin 16 → UInt8) : 93 ∉ ip6Groups addr := by
  intro hmem
  rcases mem_separated hmem with h | ⟨n, -, h⟩
  · exact absurd h (by decide)
  · exact notMem_hex (by decide) n h

def groupsText : NetText := ⟨ip6Groups, bigEndian⟩

def groupsPeer : MgAddr := ⟨fun i => UInt8.ofNat (i + 1), (31, 144), true⟩

theorem formatIp_eq_iff_groups :
    formatIp groupsText groupsPeer = text "[102:304:506:708:90a:b0c:d0e:f10]:8080" ∧
      ∀ b, formatIp groupsText groupsPeer = formatIp groupsText b ↔ groupsPeer.SamePeer b :=
  ⟨by decide +kernel, formatIp_eq_iff
    (show Function.Injective groupsText.inetNtop6 from ip6Groups_injective) notMem_ip6Groups
    bigEndian_injective groupsPeer⟩

end Mgxx
