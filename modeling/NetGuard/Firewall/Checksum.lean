import Mathlib.Algebra.BigOperators.Group.Finset.Basic
import NetGuard.Engine.Checksum
import NetGuard.Firewall.Headers

/-! # The checksum test of IPv4 headers

`handle_ip` drops a header when `calc_checksum` over it is `0`, without the complement. That sum
is `0xFFFF` for a valid header, whatever the byte order, and `0` for no header that starts with
the version. So no header is dropped for its checksum.
-/
namespace NetGuard.Engine
open OnesComplement

section Words
variable (p : Packet)

def Packet.words (i n : Nat) : List Nat := (List.range n).map fun k => (p.be16 (i + 2 * k)).toNat

/-- The one's-complement sum of the ten words of an IPv4 header. -/
def Packet.headerSum : Nat := OnesComplement.sum 65536 (p.words 0 10)

theorem Packet.words_succ (i n : Nat) :
    p.words i (n + 1) = (p.be16 i).toNat :: p.words (i + 2) n := by
  simp only [Packet.words, List.range_succ_eq_map, List.map_cons, List.map_map, Nat.mul_zero,
    Nat.add_zero]
  apply congrArg ((p.be16 i).toNat :: ·)
  apply List.map_congr_left
  intro k _
  rw [Function.comp_apply, show i + 2 * (k + 1) = i + 2 + 2 * k by omega]

/-- The words of the host are those of the network with their bytes swapped. -/
theorem wordTotal_slice_modEq (i n : Nat) :
    wordTotal (p.slice i (2 * n)) ≡ 256 * (p.words i n).sum [MOD 65535] := by
  induction n generalizing i with
  | zero => exact Nat.ModEq.refl _
  | succ n ih =>
    rw [show 2 * (n + 1) = 2 * n + 1 + 1 by omega, Packet.slice_succ, Packet.slice_succ, wordTotal,
      Packet.words_succ, List.sum_cons, Nat.mul_add, Packet.be16_toNat]
    apply Nat.ModEq.add _ (ih (i + 2))
    have hswap : 256 * ((p.mem i).toNat * 256 + (p.mem (i + 1)).toNat)
        = (p.mem i).toNat + (p.mem (i + 1)).toNat * 256 + 65535 * (p.mem i).toNat := by omega
    rw [hswap]
    exact (Nat.add_mul_mod_self_left _ _ _).symm

theorem wordTotal_slice_eq_zero (i n : Nat) :
    wordTotal (p.slice i (2 * n)) = 0 ↔ (p.words i n).sum = 0 := by
  induction n generalizing i with
  | zero => exact Iff.rfl
  | succ n ih =>
    have hrest := ih (i + 2)
    rw [show 2 * (n + 1) = 2 * n + 1 + 1 by omega, Packet.slice_succ, Packet.slice_succ, wordTotal,
      Packet.words_succ, List.sum_cons, Packet.be16_toNat]
    rw [show i + 1 + 1 = i + 2 from rfl]
    omega

theorem Packet.headerSum_eq : p.headerSum = residue 65536 (p.words 0 10).sum := by
  apply sum_eq_residue (by decide)
  intro w hw
  obtain ⟨k, -, rfl⟩ := List.mem_map.mp hw
  exact (p.be16 _).toNat_lt

/-- `calc_checksum` sees all ones exactly where the words of the network add up to all ones. -/
theorem calcChecksum_eq_ones_iff :
    (calcChecksum 0 (p.slice 0 20)).toNat = 0xFFFF ↔ p.headerSum = 0xFFFF := by
  have hzero : wordTotal (p.slice 0 20) = 0 ↔ 256 * (p.words 0 10).sum = 0 := by
    have hwords := wordTotal_slice_eq_zero p 0 10
    rw [show 2 * 10 = 20 from rfl] at hwords
    omega
  rw [Packet.headerSum_eq, calcChecksum_toNat (by simp)]
  have hswap : residue 65536 (0 + wordTotal (p.slice 0 20))
      = residue 65536 (256 * (p.words 0 10).sum) := by
    rw [Nat.zero_add]
    exact residue_congr (wordTotal_slice_modEq p 0 10) hzero
  rw [show ((0 : UInt16).toNat) = 0 from rfl, hswap]
  exact residue_mul_eq_ones_iff (by decide) (by decide) (by decide)

end Words

section Emitted

/-- The ends of a session that the writers build an IPv4 header for. -/
structure Endpoints.IsIp4 (e : Endpoints) : Prop where
  version : e.version = .v4
  saddr : e.saddr.length = 4
  daddr : e.daddr.length = 4

variable {protocol : UInt8} {len : UInt16} {saddr daddr : Address}

theorem ip4HeaderWith_eq (protocol : UInt8) (len : UInt16) (saddr daddr : Address) :
    ∃ front, front.length = 10 ∧
      ∀ check, ip4HeaderWith protocol len saddr daddr check =
        front ++ (hostWord check ++ (saddr ++ daddr)) := by
  refine ⟨0x45 :: 0 :: htons len ++ [0, 0, 0, 0, ipDefTtl, protocol], rfl, ?_⟩
  intro check
  rw [hostWord_eq, ip4HeaderWith]

theorem length_ip4Header (hsaddr : saddr.length = 4) (hdaddr : daddr.length = 4) :
    (ip4Header protocol len saddr daddr).length = 20 := by
  simp [ip4Header, ip4HeaderWith, htons, hsaddr, hdaddr]

/-- With the complement in its place the header adds up to all ones. -/
theorem calcChecksum_ip4Header (hsaddr : saddr.length = 4) (hdaddr : daddr.length = 4) :
    calcChecksum 0 (ip4Header protocol len saddr daddr) = 0xFFFF := by
  obtain ⟨front, hfront, hwith⟩ := ip4HeaderWith_eq protocol len saddr daddr
  rw [ip4Header, hwith, hwith]
  apply calcChecksum_stored (by rw [hfront])
  rw [hfront, List.length_append, hsaddr, hdaddr]
  decide

theorem TunPacket.headerSum_ip4Header {packet : TunPacket} {p : Packet}
    (hends : packet.ends.IsIp4) (hheader : p.slice 0 20 = packet.ip4Header) :
    p.headerSum = 0xFFFF := by
  apply (calcChecksum_eq_ones_iff p).mp
  rw [hheader]
  exact congrArg UInt16.toNat (calcChecksum_ip4Header hends.daddr hends.saddr)

end Emitted

section Flipped
variable {p : Packet} {k i : Nat}

def Packet.flipBit (p : Packet) (k i : Nat) : Packet where
  mem := fun j => if j = k then p.mem j ^^^ UInt8.ofNat (2 ^ i) else p.mem j
  length := p.length

theorem flipBit_byte (b : UInt8) (hi : i < 8) :
    (b ^^^ UInt8.ofNat (2 ^ i)).toNat + 2 ^ i = b.toNat ∨
      (b ^^^ UInt8.ofNat (2 ^ i)).toNat = b.toNat + 2 ^ i := by
  have hbit : (UInt8.ofNat (2 ^ i)).toNat = 2 ^ i := by
    rw [UInt8.toNat_ofNat', Nat.mod_eq_of_lt (Nat.pow_lt_pow_right (by decide) hi)]
  rw [UInt8.toNat_xor, hbit]
  exact xor_two_pow _ _

/-- The words of a packet, as far as the total is concerned, with one of them taken out. -/
theorem Packet.words_sum_erase (p : Packet) {j : Nat} (hj : j < 10) :
    (p.words 0 10).sum = (p.be16 (2 * j)).toNat
      + ∑ x ∈ (Finset.range 10).erase j, (p.be16 (2 * x)).toNat := by
  have hsum : (p.words 0 10).sum = ∑ x ∈ Finset.range 10, (p.be16 (0 + 2 * x)).toNat := rfl
  simp only [hsum, Nat.zero_add]
  exact (Finset.add_sum_erase _ _ (Finset.mem_range.mpr hj)).symm

theorem Packet.be16_flipBit (hi : i < 8) :
    ((p.flipBit k i).be16 (2 * (k / 2))).toNat + 256 ^ (1 - k % 2) * 2 ^ i
        = (p.be16 (2 * (k / 2))).toNat ∨
      ((p.flipBit k i).be16 (2 * (k / 2))).toNat
        = (p.be16 (2 * (k / 2))).toNat + 256 ^ (1 - k % 2) * 2 ^ i := by
  have hbyte := flipBit_byte (p.mem k) hi
  simp only [Packet.be16_toNat, Packet.flipBit]
  rcases Nat.mod_two_eq_zero_or_one k with heven | hodd
  · have hk : 2 * (k / 2) = k := by omega
    rw [heven, hk, if_pos rfl, if_neg (by omega)]
    omega
  · have hk : 2 * (k / 2) + 1 = k := by omega
    rw [hodd, hk, if_pos rfl, if_neg (by omega)]
    omega

theorem Packet.be16_flipBit_of_ne {j : Nat} (hj : j ≠ k / 2) :
    (p.flipBit k i).be16 (2 * j) = p.be16 (2 * j) := by
  simp only [Packet.be16, Packet.flipBit]
  rw [if_neg (by omega), if_neg (by omega)]

/-- A changed bit moves the total by less than a multiple of 65535. -/
theorem Packet.headerSum_flipBit (hsum : p.headerSum = 0xFFFF) (hk : k < 20) (hi : i < 8) :
    (p.flipBit k i).headerSum ≠ 0xFFFF := by
  rw [Packet.headerSum_eq] at hsum ⊢
  have hword := Packet.be16_flipBit (p := p) (k := k) hi
  have hother : ∑ x ∈ (Finset.range 10).erase (k / 2), ((p.flipBit k i).be16 (2 * x)).toNat
      = ∑ x ∈ (Finset.range 10).erase (k / 2), (p.be16 (2 * x)).toNat := by
    apply Finset.sum_congr rfl
    intro x hx
    rw [Packet.be16_flipBit_of_ne (Finset.ne_of_mem_erase hx)]
  have hj : k / 2 < 10 := by omega
  have hplace : 256 ^ (1 - k % 2) * 2 ^ i < 65535 := by
    have hpow : 2 ^ i ≤ 2 ^ 7 := Nat.pow_le_pow_right (by decide) (by omega)
    rcases Nat.mod_two_eq_zero_or_one k with heven | hodd
    · rw [heven]
      omega
    · rw [hodd]
      omega
  have hpos : 0 < 256 ^ (1 - k % 2) * 2 ^ i :=
    Nat.mul_pos (Nat.pow_pos (by decide)) (Nat.two_pow_pos i)
  refine residue_ne_ones (by decide) hsum (d := 256 ^ (1 - k % 2) * 2 ^ i) hpos hplace ?_
  rw [Packet.words_sum_erase _ hj, Packet.words_sum_erase p hj, hother]
  omega

end Flipped

section Test
variable {args : Arguments} {p : Packet}

/-- An IPv4 packet that is not dropped before its checksum is looked at, at a log level where
it is. -/
structure Packet.ReachesChecksum (args : Arguments) (p : Packet) : Prop where
  version : p.versionNibble = 4
  long : 20 ≤ p.length
  whole : p.fragOff &&& ipMf = 0
  total : (p.be16 2).toNat = p.length
  verbose : args.loglevel < androidLogWarn

theorem Packet.ReachesChecksum.parseIp_eq (h : p.ReachesChecksum args) :
    parseIp args p = if calcChecksum 0 (p.slice 0 20) = 0 then .drop else .ok p.ipHdr4 := by
  rw [parseIp_version4 h.version, parseIp4, if_neg (Nat.not_lt.mpr h.long), if_neg (by simp [h.whole]),
    if_neg (by simp [h.total])]
  simp only [h.verbose, true_and]
  rfl

/-- The version alone keeps the sum from being zero. -/
theorem calcChecksum_ne_zero (hversion : p.versionNibble = 4) : calcChecksum 0 (p.slice 0 20) ≠ 0 := by
  have hfirst : (p.mem 0).toNat ≠ 0 := by
    intro hzero
    have hmem : p.mem 0 = 0 := UInt8.toNat_inj.mp hzero
    rw [Packet.versionNibble, hmem] at hversion
    exact absurd hversion (by decide)
  rw [Ne, calcChecksum_eq_zero (by simp), wordTotal_slice_eq_zero p 0 10, Packet.words_succ,
    List.sum_cons, Packet.be16_toNat]
  omega

theorem Packet.ReachesChecksum.parseIp_ok (h : p.ReachesChecksum args) :
    parseIp args p = .ok p.ipHdr4 := by
  rw [h.parseIp_eq, if_neg (calcChecksum_ne_zero h.version)]

/-- No header is dropped for its checksum, so the test is right on the valid ones alone. Those of
the writers are valid and go on; with one bit of them changed they are not, and go on as well. -/
theorem ip4_checksum_iff (h : p.ReachesChecksum args) :
    ((parseIp args p = .drop ↔ p.headerSum ≠ 0xFFFF) ↔ p.headerSum = 0xFFFF) ∧
      ∀ (packet : TunPacket) (q : Packet), packet.ends.IsIp4 → q.slice 0 20 = packet.ip4Header →
        (p = q → p.headerSum = 0xFFFF ∧ parseIp args p = .ok p.ipHdr4) ∧
          ∀ k < 20, ∀ i < 8, p = q.flipBit k i →
            p.headerSum ≠ 0xFFFF ∧ parseIp args p = .ok p.ipHdr4 := by
  have hkept := h.parseIp_ok
  refine ⟨by simp [hkept], ?_⟩
  intro packet q hends hheader
  have hsum := TunPacket.headerSum_ip4Header hends hheader
  refine ⟨fun hpq => ⟨hpq ▸ hsum, hkept⟩, ?_⟩
  rintro k hk i hi rfl
  exact ⟨Packet.headerSum_flipBit hsum hk hi, hkept⟩

/-- An empty datagram as `write_udp` sends it, but for the lowest bit of its time to live. -/
def Packet.aged : Packet :=
  .ofBytes [0x45, 0, 0, 28, 0, 0, 0, 0, 65, 17, 0x3a, 0xf5, 10, 0, 0, 2, 93, 184, 216, 34,
    0, 53, 156, 64, 0, 8, 0, 0]

def Arguments.verbose : Arguments := { Arguments.direct with loglevel := 3 }

theorem Packet.aged_reaches : Packet.aged.ReachesChecksum .verbose :=
  ⟨by decide, by decide, by decide, by decide, by decide⟩

theorem ip4_checksum_aged :
    ((parseIp .verbose .aged = .drop ↔ Packet.aged.headerSum ≠ 0xFFFF) ↔
        Packet.aged.headerSum = 0xFFFF) ∧
      ∀ (packet : TunPacket) (q : Packet), packet.ends.IsIp4 → q.slice 0 20 = packet.ip4Header →
        (Packet.aged = q → Packet.aged.headerSum = 0xFFFF ∧
          parseIp .verbose .aged = .ok Packet.aged.ipHdr4) ∧
          ∀ k < 20, ∀ i < 8, Packet.aged = q.flipBit k i →
            Packet.aged.headerSum ≠ 0xFFFF ∧ parseIp .verbose .aged = .ok Packet.aged.ipHdr4 :=
  ip4_checksum_iff ⟨by decide, by decide, by decide, by decide, by decide⟩

theorem not_dropped_aged :
    ¬ (parseIp .verbose .aged = .drop ↔ Packet.aged.headerSum ≠ 0xFFFF) := by
  have hsum : Packet.aged.headerSum ≠ 0xFFFF := by decide
  simp [Packet.aged_reaches.parseIp_ok, hsum]

end Test

end NetGuard.Engine
