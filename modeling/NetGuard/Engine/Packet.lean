import NetGuard.Engine.Session
import NetGuard.Library.Serial

/-! # Packets as the engine reads them

A packet is the memory from `pkt` on together with the length `read` returned. The
header functions read where the source reads, also behind the length: what lies
there is arbitrary, so a theorem about every packet covers every such read.
-/
namespace NetGuard.Engine

structure Packet where
  mem : Nat → UInt8
  length : Nat

def Packet.be16 (p : Packet) (i : Nat) : UInt16 :=
  (p.mem i).toUInt16 * 256 + (p.mem (i + 1)).toUInt16

theorem Packet.be16_toNat (p : Packet) (i : Nat) :
    (p.be16 i).toNat = (p.mem i).toNat * 256 + (p.mem (i + 1)).toNat := by
  have hhigh := (p.mem i).toNat_lt
  have hlow := (p.mem (i + 1)).toNat_lt
  simp only [Packet.be16, UInt16.toNat_add, UInt16.toNat_mul, UInt8.toNat_toUInt16,
    show (256 : UInt16).toNat = 256 from rfl]
  omega

def Packet.be32 (p : Packet) (i : Nat) : UInt32 :=
  (p.be16 i).toUInt32 * 65536 + (p.be16 (i + 2)).toUInt32

def Packet.slice (p : Packet) (i n : Nat) : List UInt8 := (List.range n).map fun k => p.mem (i + k)

@[simp] theorem Packet.slice_length (p : Packet) (i n : Nat) : (p.slice i n).length = n := by
  simp [Packet.slice]

theorem Packet.slice_succ (p : Packet) (i n : Nat) : p.slice i (n + 1) = p.mem i :: p.slice (i + 1) n := by
  simp only [Packet.slice, List.range_succ_eq_map, List.map_cons, List.map_map, Nat.add_zero]
  apply congrArg (p.mem i :: ·)
  apply List.map_congr_left
  intro k _
  rw [Function.comp_apply, show i + (k + 1) = i + 1 + k by omega]

theorem Packet.drop_slice (p : Packet) (i n k : Nat) : (p.slice i n).drop k = p.slice (i + k) (n - k) := by
  induction k generalizing i n with
  | zero => rfl
  | succ k ih =>
    cases n with
    | zero => simp [Packet.slice]
    | succ n =>
      rw [Packet.slice_succ, List.drop_succ_cons, ih, Nat.add_sub_add_right,
        show i + 1 + k = i + (k + 1) by omega]

/-- `length - (ptr - pkt)` in `size_t`, which wraps when the pointer lies behind the end. -/
def Packet.sizeFrom (p : Packet) (i : Nat) : UInt64 := UInt64.ofNat p.length - UInt64.ofNat i

def Packet.datalen (p : Packet) (i : Nat) : UInt16 := (p.sizeFrom i).toUInt16

def Packet.payloadFrom (p : Packet) (i : Nat) : Payload :=
  ⟨p.slice i (p.datalen i).toNat, by simpa using (p.datalen i).toNat_lt⟩

def Packet.versionNibble (p : Packet) : UInt8 := p.mem 0 >>> 4

def Packet.saddr (p : Packet) : IpVersion → Address
  | .v4 => p.slice 12 4
  | .v6 => p.slice 8 16

def Packet.daddr (p : Packet) : IpVersion → Address
  | .v4 => p.slice 16 4
  | .v6 => p.slice 24 16

/-- `ip4hdr->frag_off` as a little-endian host loads it. -/
def Packet.fragOff (p : Packet) : UInt16 := (p.mem 6).toUInt16 + (p.mem 7).toUInt16 * 256

def ipMf : UInt16 := 0x2000

def Packet.ipoptlen (p : Packet) : UInt8 := (p.mem 0 &&& 0x0f) * 4 - 20

section Transport
variable (p : Packet) (payload : Nat)

structure TcpHdr where
  source : UInt16
  dest : UInt16
  seq : UInt32
  ackSeq : UInt32
  doff : UInt8
  fin : Bool
  syn : Bool
  rst : Bool
  psh : Bool
  ack : Bool
  urg : Bool
  window : UInt16
  deriving DecidableEq, Repr

/-- `struct tcphdr` at `payload`, in host notation. -/
def Packet.tcphdr : TcpHdr :=
  let flags := p.mem (payload + 13)
  { source := p.be16 payload
    dest := p.be16 (payload + 2)
    seq := p.be32 (payload + 4)
    ackSeq := p.be32 (payload + 8)
    doff := p.mem (payload + 12) >>> 4
    fin := flags &&& 1 != 0
    syn := flags &&& 2 != 0
    rst := flags &&& 4 != 0
    psh := flags &&& 8 != 0
    ack := flags &&& 16 != 0
    urg := flags &&& 32 != 0
    window := p.be16 (payload + 14) }

def TcpHdr.bare (seq ackSeq : UInt32) (window : UInt16) : TcpHdr where
  source := 40000
  dest := 80
  seq := seq
  ackSeq := ackSeq
  doff := 5
  fin := false
  syn := false
  rst := false
  psh := false
  ack := false
  urg := false
  window := window

def TcpHdr.tcpoptlen (h : TcpHdr) : UInt8 := (h.doff - 5) * 4

def Packet.tcpData : Nat := payload + 20 + (p.tcphdr payload).tcpoptlen.toNat

def Packet.flow (version : IpVersion) : Flow where
  version := version
  saddr := p.saddr version
  daddr := p.daddr version
  source := p.be16 payload
  dest := p.be16 (payload + 2)

end Transport

/-- `calc_checksum`: 16-bit words in (little-endian) host order, an odd last byte
alone, the 32-bit sum folded until it fits. -/
def checksumWords (sum : UInt32) : List UInt8 → UInt32
  | a :: b :: rest => checksumWords (sum + (a.toUInt32 + b.toUInt32 * 256)) rest
  | [a] => sum + a.toUInt32
  | [] => sum

def foldChecksum (sum : UInt32) : UInt16 :=
  if h : sum.toNat < 65536 then sum.toUInt16
  else foldChecksum (UInt32.ofNat (sum.toNat % 65536 + sum.toNat / 65536))
termination_by sum.toNat
decreasing_by
  have hs := sum.toNat_lt
  have hq : 0 < sum.toNat / 65536 := Nat.div_pos (by omega) (by decide)
  rw [UInt32.toNat_ofNat', Nat.mod_eq_of_lt (by omega)]
  omega

def calcChecksum (start : UInt16) (buffer : List UInt8) : UInt16 :=
  foldChecksum (checksumWords start.toUInt32 buffer)

def compareU32 (s1 s2 : UInt32) : Int :=
  if s1 = s2 then 0
  else if (s1 < s2 ∧ s2 - s1 < 0x7FFFFFFF) ∨ (s1 > s2 ∧ s1 - s2 > 0x7FFFFFFF) then -1
  else 1

section Compare
open Serial
variable {s1 s2 : UInt32}

/-- `compare_u32` sees `s1` before `s2` up to the far side of the circle. On the two
last distances before half of it the answer depends on the values themselves. -/
theorem compareU32_neg_iff : compareU32 s1 s2 < 0 ↔ s1 ≠ s2 ∧
    (ahead s1 s2 < 2 ^ 31 - 1 ∨ (ahead s1 s2 ≤ 2 ^ 31 ∧ s2.toNat < s1.toNat)) := by
  have h1 := s1.toNat_lt
  have h2 := s2.toNat_lt
  by_cases he : s1 = s2
  · simp [compareU32, he]
  have hne : s1.toNat ≠ s2.toNat := fun h => he (UInt32.toNat_inj.mp h)
  have hconst : (0x7FFFFFFF : UInt32).toNat = 2 ^ 31 - 1 := rfl
  have hcond : ((s1 < s2 ∧ s2 - s1 < 0x7FFFFFFF) ∨ (s1 > s2 ∧ s1 - s2 > 0x7FFFFFFF)) ↔
      (ahead s1 s2 < 2 ^ 31 - 1 ∨ (ahead s1 s2 ≤ 2 ^ 31 ∧ s2.toNat < s1.toNat)) := by
    simp only [gt_iff_lt, UInt32.lt_iff_toNat_lt, UInt32.toNat_sub, ahead_eq, hconst]
    omega
  by_cases hc : (s1 < s2 ∧ s2 - s1 < 0x7FFFFFFF) ∨ (s1 > s2 ∧ s1 - s2 > 0x7FFFFFFF)
  · simpa [compareU32, he, hc] using hcond.mp hc
  · simpa [compareU32, he, hc] using fun h => hc (hcond.mpr h)

theorem compareU32_pos_iff : 0 < compareU32 s1 s2 ↔ s1 ≠ s2 ∧ ¬ compareU32 s1 s2 < 0 := by
  unfold compareU32
  split <;> [simp [*]; split <;> simp [*]]

theorem compareU32_before (h0 : 0 < ahead s1 s2) (h : ahead s1 s2 < 2 ^ 31 - 1) :
    compareU32 s1 s2 < 0 := by
  refine compareU32_neg_iff.mpr ⟨?_, Or.inl h⟩
  rintro rfl
  simp at h0

theorem compareU32_after (h : 2 ^ 31 < ahead s1 s2) : 0 < compareU32 s1 s2 := by
  refine compareU32_pos_iff.mpr ⟨?_, ?_⟩
  · rintro rfl
    simp at h
  · intro hneg
    obtain ⟨_, hclose | hfar⟩ := compareU32_neg_iff.mp hneg <;> omega

theorem ahead_of_compareU32_neg (h : compareU32 s1 s2 < 0) : ahead s1 s2 ≤ 2 ^ 31 := by
  obtain ⟨_, hclose | hfar⟩ := compareU32_neg_iff.mp h <;> omega

end Compare

def getMtu : UInt16 := 10000

def getDefaultMss : IpVersion → UInt16
  | .v4 => getMtu - 20 - 20
  | .v6 => getMtu - 40 - 20

end NetGuard.Engine
