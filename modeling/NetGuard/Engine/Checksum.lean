import NetGuard.Engine.Icmp
import NetGuard.Library.OnesComplement

/-! # Checksums

`calc_checksum` folds the carries of a 32-bit total, which is the one's-complement sum of the
16-bit words in the order of the host. The IPv4 headers that `write_tcp`, `write_udp` and
`write_icmp` build carry its complement.
-/
namespace NetGuard.Engine
open OnesComplement

section Sum

/-- The total of the 16-bit words as a little-endian host loads them, without a carry lost. -/
def wordTotal : List UInt8 → Nat
  | a :: b :: rest => a.toNat + b.toNat * 256 + wordTotal rest
  | [a] => a.toNat
  | [] => 0

theorem wordTotal_le (buffer : List UInt8) :
    2 * wordTotal buffer ≤ 65535 * (buffer.length + 1) := by
  fun_induction wordTotal buffer with
  | case1 a b rest ih =>
    have ha := a.toNat_lt
    have hb := b.toNat_lt
    simp only [List.length_cons]
    omega
  | case2 a =>
    have ha := a.toNat_lt
    simp only [List.length_singleton]
    omega
  | case3 => exact Nat.zero_le _

theorem wordTotal_append {buffer : List UInt8} (heven : buffer.length % 2 = 0) (rest : List UInt8) :
    wordTotal (buffer ++ rest) = wordTotal buffer + wordTotal rest := by
  fun_induction wordTotal buffer with
  | case1 a b buffer ih =>
    simp only [List.length_cons] at heven
    simp only [List.cons_append, wordTotal, ih (by omega)]
    omega
  | case2 a => simp at heven
  | case3 => simp

theorem checksumWords_toNat {sum : UInt32} {buffer : List UInt8}
    (hfits : sum.toNat + wordTotal buffer < 2 ^ 32) :
    (checksumWords sum buffer).toNat = sum.toNat + wordTotal buffer := by
  fun_induction checksumWords sum buffer with
  | case1 sum a b rest ih =>
    have ha := a.toNat_lt
    have hb := b.toNat_lt
    rw [wordTotal] at hfits
    have hword : (sum + (a.toUInt32 + b.toUInt32 * 256)).toNat
        = sum.toNat + (a.toNat + b.toNat * 256) := by
      simp only [UInt32.toNat_add, UInt32.toNat_mul, UInt8.toNat_toUInt32,
        show (256 : UInt32).toNat = 256 from rfl]
      omega
    rw [ih (by omega), hword, wordTotal]
    omega
  | case2 sum a =>
    rw [wordTotal] at hfits
    rw [UInt32.toNat_add, UInt8.toNat_toUInt32, wordTotal]
    omega
  | case3 sum => rfl

theorem foldChecksum_toNat (sum : UInt32) :
    (foldChecksum sum).toNat = residue 65536 sum.toNat := by
  fun_induction foldChecksum sum with
  | case1 sum hsmall =>
    rw [residue_of_lt hsmall, UInt32.toNat_toUInt16]
    exact Nat.mod_eq_of_lt hsmall
  | case2 sum hlarge ih =>
    have hlt := sum.toNat_lt
    rw [ih, UInt32.toNat_ofNat', Nat.mod_eq_of_lt (by omega), residue_fold (by decide)]

/-- From a start of 16 bits the total of two of the longest packets fits in 32 bits. -/
theorem checksumWords_start {start : UInt16} {buffer : List UInt8}
    (hlen : buffer.length ≤ 131070) :
    (checksumWords start.toUInt32 buffer).toNat = start.toNat + wordTotal buffer := by
  have hstart := start.toNat_lt
  have htotal := wordTotal_le buffer
  rw [checksumWords_toNat] <;> rw [UInt16.toNat_toUInt32]
  omega

theorem calcChecksum_toNat {start : UInt16} {buffer : List UInt8}
    (hlen : buffer.length ≤ 131070) :
    (calcChecksum start buffer).toNat = residue 65536 (start.toNat + wordTotal buffer) := by
  rw [calcChecksum, foldChecksum_toNat, checksumWords_start hlen]

theorem calcChecksum_eq_zero {buffer : List UInt8} (hlen : buffer.length ≤ 131070) :
    calcChecksum 0 buffer = 0 ↔ wordTotal buffer = 0 := by
  rw [← UInt16.toNat_inj, calcChecksum_toNat hlen]
  simp [residue_eq_zero]

end Sum

section Stored
variable {start : UInt16} {front rest : List UInt8}

/-- A word as the bytes that a 16-bit store leaves. -/
theorem hostWord_eq (w : UInt16) : hostWord w = [w.toUInt8, (w >>> 8).toUInt8] := by
  have hlow : UInt8.ofNat w.toNat = w.toUInt8 := rfl
  have hhigh : UInt8.ofNat (w.toNat / 256) = (w >>> 8).toUInt8 := by
    apply UInt8.toNat_inj.mp
    rw [UInt8.toNat_ofNat', UInt16.toNat_toUInt8, UInt16.toNat_shiftRight,
      Nat.shiftRight_eq_div_pow]
    rfl
  rw [hostWord, hlow, hhigh]

theorem wordTotal_hostWord (w : UInt16) (rest : List UInt8) :
    wordTotal (hostWord w ++ rest) = w.toNat + wordTotal rest := by
  have hlt := w.toNat_lt
  simp only [hostWord, List.cons_append, List.nil_append, wordTotal, UInt8.toNat_ofNat']
  omega

/-- With the complement of the whole sum in its place a message verifies. -/
theorem residue_stored {start : Nat} {csum : UInt16}
    (hfront : front.length % 2 = 0)
    (hcsum : csum.toNat = residue 65536 (start + wordTotal (front ++ (hostWord 0 ++ rest)))) :
    residue 65536 (start + wordTotal (front ++ (hostWord (~~~ csum) ++ rest))) = 0xFFFF := by
  have hones := residue_add_complement (b := 65536) (by decide)
    (start + wordTotal (front ++ (hostWord 0 ++ rest)))
  rw [← hcsum, wordTotal_append hfront, wordTotal_hostWord, UInt16.toNat_zero] at hones
  rw [wordTotal_append hfront, wordTotal_hostWord, UInt16.toNat_not]
  have hsame : start + (wordTotal front + (0 + wordTotal rest)) + (65536 - 1 - csum.toNat) =
      start + (wordTotal front + (UInt16.size - 1 - csum.toNat + wordTotal rest)) := by
    simp only [UInt16.size]
    omega
  rw [← hsame]
  exact hones

/-- With the complement of its own sum in its place a message adds up to all ones. -/
theorem calcChecksum_stored (hfront : front.length % 2 = 0)
    (hlen : front.length + 2 + rest.length ≤ 131070) :
    calcChecksum start (front ++
      (hostWord (~~~ calcChecksum start (front ++ (hostWord 0 ++ rest))) ++ rest)) = 0xFFFF := by
  have hlength (w : UInt16) : (front ++ (hostWord w ++ rest)).length ≤ 131070 := by
    simp only [List.length_append, hostWord, List.length_cons, List.length_nil]
    omega
  apply UInt16.toNat_inj.mp
  rw [calcChecksum_toNat (hlength _)]
  exact residue_stored hfront (calcChecksum_toNat (hlength 0))

end Stored

section Header

def ipDefTtl : UInt8 := 64

/-- `htons`, as the two bytes it leaves in memory. -/
def htons (n : UInt16) : List UInt8 := [(n >>> 8).toUInt8, n.toUInt8]

/-- The two bytes read as the number. -/
theorem Packet.be16_htons {p : Packet} {i : Nat} {n : UInt16}
    (hhigh : p.mem i = (n >>> 8).toUInt8) (hlow : p.mem (i + 1) = n.toUInt8) : p.be16 i = n := by
  have hlt := n.toNat_lt
  apply UInt16.toNat_inj.mp
  rw [Packet.be16_toNat, hhigh, hlow]
  simp only [UInt16.toNat_toUInt8, UInt16.toNat_shiftRight, Nat.shiftRight_eq_div_pow,
    show (8 : UInt16).toNat % 16 = 8 from rfl]
  omega

/-- The IPv4 header of the writers with the given checksum field, a 16-bit store of the host. -/
def ip4HeaderWith (protocol : UInt8) (len : UInt16) (saddr daddr : Address) (check : UInt16) :
    List UInt8 :=
  0x45 :: 0 :: htons len ++ [0, 0, 0, 0, ipDefTtl, protocol] ++
    ([check.toUInt8, (check >>> 8).toUInt8] ++ (saddr ++ daddr))

def ip4Header (protocol : UInt8) (len : UInt16) (saddr daddr : Address) : List UInt8 :=
  ip4HeaderWith protocol len saddr daddr
    (~~~ calcChecksum 0 (ip4HeaderWith protocol len saddr daddr 0))

def TunPacket.ends : TunPacket → Endpoints
  | .tcp cur _ _ _ _ _ => cur.toEndpoints
  | .udp cur _ => cur.toEndpoints
  | .icmp cur _ => cur.toEndpoints

/-- The length of an IPv4 packet of the writers, as a `size_t`. -/
def TunPacket.len4 : TunPacket → Nat
  | .tcp _ data syn _ _ _ => 20 + 20 + (if syn then 4 + 3 + 1 else 0) + data.length
  | .udp _ data => 20 + 8 + data.length
  | .icmp _ data => 20 + data.length

def TunPacket.protocol4 : TunPacket → UInt8
  | .tcp .. => ipprotoTcp
  | .udp .. => ipprotoUdp
  | .icmp .. => ipprotoIcmp

/-- The header goes back to the app: it swaps the addresses of the session. -/
def TunPacket.ip4Header (packet : TunPacket) : List UInt8 :=
  Engine.ip4Header packet.protocol4 (UInt16.ofNat packet.len4) packet.ends.daddr packet.ends.saddr

end Header

end NetGuard.Engine
