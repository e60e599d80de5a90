import NetGuard.Engine.Write
import NetGuard.Firewall.Checksum
import NetGuard.Library.Wire

/-! # What a receiver checks of a packet

A receiver takes the lengths from the headers and adds up the words of the network: those of an
IPv4 header, and those of the transport part behind its pseudo header. The engine adds up the
words of the host instead and stores complements; the sums are all ones together.
-/
namespace NetGuard.Engine
open OnesComplement

section Words

/-- The words of the network, with a last odd byte padded. -/
def netWords : List UInt8 → List Nat
  | a :: b :: rest => (a.toNat * 256 + b.toNat) :: netWords rest
  | [a] => [a.toNat * 256]
  | [] => []

def netSum (bytes : List UInt8) : Nat := OnesComplement.sum 65536 (netWords bytes)

theorem netWords_lt (bytes : List UInt8) : ∀ w ∈ netWords bytes, w < 65536 := by
  fun_induction netWords bytes with
  | case1 a b rest ih =>
    have ha := a.toNat_lt
    have hb := b.toNat_lt
    rw [List.forall_mem_cons]
    exact ⟨by omega, ih⟩
  | case2 a =>
    have ha := a.toNat_lt
    rw [List.forall_mem_singleton]
    omega
  | case3 => exact fun w hw => absurd hw List.not_mem_nil

/-- The bytes of each word are swapped. -/
theorem netWords_sum_modEq (bytes : List UInt8) :
    (netWords bytes).sum ≡ 256 * wordTotal bytes [MOD 65535] := by
  fun_induction netWords bytes with
  | case1 a b rest ih =>
    have hswap : 256 * (a.toNat + b.toNat * 256) = a.toNat * 256 + b.toNat + 65535 * b.toNat := by
      omega
    rw [List.sum_cons, wordTotal, Nat.mul_add, hswap]
    exact Nat.ModEq.add (Nat.add_mul_mod_self_left _ _ _).symm ih
  | case2 a =>
    rw [List.sum_singleton, wordTotal, Nat.mul_comm]
  | case3 => exact Nat.ModEq.refl _

theorem netWords_sum_eq_zero (bytes : List UInt8) :
    (netWords bytes).sum = 0 ↔ wordTotal bytes = 0 := by
  fun_induction netWords bytes with
  | case1 a b rest ih =>
    rw [List.sum_cons, wordTotal]
    omega
  | case2 a =>
    rw [List.sum_singleton, wordTotal]
    omega
  | case3 => exact Iff.rfl

/-- Bytes verify in the order of the network where they do in the order of the host. -/
theorem netSum_eq_ones_iff {bytes : List UInt8} :
    netSum bytes = 0xFFFF ↔ residue 65536 (wordTotal bytes) = 0xFFFF := by
  have hzero : (netWords bytes).sum = 0 ↔ 256 * wordTotal bytes = 0 := by
    rw [netWords_sum_eq_zero]
    omega
  rw [netSum, sum_eq_residue (by decide) (netWords_lt bytes),
    residue_congr (netWords_sum_modEq bytes) hzero]
  exact residue_mul_eq_ones_iff (by decide) (by decide) (by decide)

end Words

section Packet
variable (p : Packet)

def ipHeaderLength : IpVersion → Nat
  | .v4 => 20
  | .v6 => 40

def Packet.ipLengthField : IpVersion → UInt16
  | .v4 => p.be16 2
  | .v6 => p.be16 4

def Packet.ipProtocolField : IpVersion → UInt8
  | .v4 => p.mem 9
  | .v6 => p.mem 6

/-- The length field of the IP header says how long the packet is: all of it, or what
follows an IPv6 header. -/
def Packet.LengthRight : IpVersion → Prop
  | .v4 => (p.ipLengthField .v4).toNat = p.length
  | .v6 => 40 + (p.ipLengthField .v6).toNat = p.length

/-- Only IPv4 headers have a checksum of their own. -/
def Packet.HeaderRight : IpVersion → Prop
  | .v4 => p.headerSum = 0xFFFF
  | .v6 => True

def Packet.upper (version : IpVersion) : List UInt8 :=
  p.slice (ipHeaderLength version) (p.length - ipHeaderLength version)

/-- The pseudo header in front of the transport part: the addresses, the length and the
protocol, in network order. -/
def Packet.pseudo : IpVersion → List UInt8
  | .v4 => p.saddr .v4 ++ p.daddr .v4 ++ [0, p.ipProtocolField .v4] ++ Wire.be16 (p.length - 20)
  | .v6 => p.saddr .v6 ++ p.daddr .v6 ++ Wire.be32 (p.length - 40) ++
      [0, 0, 0, p.ipProtocolField .v6]

def Packet.transportSum (version : IpVersion) : Nat :=
  netSum (p.pseudo version ++ p.upper version)

end Packet

section Ends

/-- Addresses of the lengths that belong to the version, as the unions of the source hold. -/
structure Endpoints.Sized (e : Endpoints) : Prop where
  saddr : e.saddr.length = if e.version = .v4 then 4 else 16
  daddr : e.daddr.length = if e.version = .v4 then 4 else 16

theorem Packet.flow_sized (p : Packet) (version : IpVersion) (payload : Nat) :
    (p.flow payload version).toEndpoints.Sized := by
  cases version with
  | v4 => exact ⟨p.slice_length 12 4, p.slice_length 16 4⟩
  | v6 => exact ⟨p.slice_length 8 16, p.slice_length 24 16⟩

theorem Endpoints.Sized.isIp4 {e : Endpoints} (h : e.Sized) (hversion : e.version = .v4) :
    e.IsIp4 :=
  ⟨hversion, by simpa [hversion] using h.saddr, by simpa [hversion] using h.daddr⟩

end Ends

section Layout
variable {p : Packet} {i : Nat} {bytes : List UInt8}

theorem Packet.at_ofBytes (bytes : List UInt8) : Wire.At (Packet.ofBytes bytes).mem 0 bytes :=
  Wire.at_getD bytes 0

theorem Packet.slice_of_at (h : Wire.At p.mem i bytes) : p.slice i bytes.length = bytes :=
  h.map_range

theorem be16_of_at {n : UInt16} (h : Wire.At p.mem i (htons n)) : p.be16 i = n := by
  obtain ⟨hhigh, hlow, -⟩ := h
  exact Packet.be16_htons hhigh hlow

variable (packet : TunPacket)

theorem length_ip6Header {protocol : UInt8} {plen : UInt16} {saddr daddr : Address}
    (hsaddr : saddr.length = 16) (hdaddr : daddr.length = 16) :
    (ip6Header protocol plen saddr daddr).length = 40 := by
  simp [ip6Header, htons, hsaddr, hdaddr]

theorem length_ipHeader {ends : Endpoints} (h : ends.Sized) (protocol : UInt8) (len : Nat) :
    (ipHeader ends protocol len).length = ipHeaderLength ends.version := by
  obtain ⟨hsaddr, hdaddr⟩ := h
  rw [ipHeader]
  cases hversion : ends.version with
  | v4 =>
    rw [hversion, if_pos rfl] at hsaddr hdaddr
    exact length_ip4Header hdaddr hsaddr
  | v6 =>
    rw [hversion, if_neg (by decide)] at hsaddr hdaddr
    exact length_ip6Header hdaddr hsaddr

theorem TunPacket.length_buffer (h : packet.ends.Sized) :
    packet.buffer.length = ipHeaderLength packet.ends.version + packet.payload.length := by
  rw [buffer, List.length_append, length_ipHeader h]

/-- Where the parts of a buffer lie. -/
theorem TunPacket.at_buffer (h : packet.ends.Sized) :
    Wire.At (Packet.ofBytes packet.buffer).mem 0
      (ipHeader packet.ends packet.protocol packet.payload.length) ∧
    Wire.At (Packet.ofBytes packet.buffer).mem (ipHeaderLength packet.ends.version)
      packet.payload := by
  have hall := Packet.at_ofBytes packet.buffer
  rw [buffer, Wire.at_append, length_ipHeader h, Nat.zero_add] at hall
  exact hall

theorem TunPacket.upper_buffer (h : packet.ends.Sized) :
    (Packet.ofBytes packet.buffer).upper packet.ends.version = packet.payload := by
  have hlength : (Packet.ofBytes packet.buffer).length - ipHeaderLength packet.ends.version
      = packet.payload.length := by
    rw [Packet.ofBytes, length_buffer packet h, Nat.add_sub_cancel_left]
  rw [Packet.upper, hlength]
  exact Packet.slice_of_at (at_buffer packet h).2

/-- The pseudo header in front of a segment for the source of the session. -/
def receiverPseudo (ends : Endpoints) (protocol : UInt8) (len : Nat) : List UInt8 :=
  match ends.version with
  | .v4 => ends.daddr ++ ends.saddr ++ [0, protocol] ++ Wire.be16 len
  | .v6 => ends.daddr ++ ends.saddr ++ Wire.be32 len ++ [0, 0, 0, protocol]

section Header
variable {protocol : UInt8} {len : UInt16} {saddr daddr : Address}

/-- The fields of a header that the receiver reads. -/
structure IpFields (p : Packet) (version : IpVersion) (protocol : UInt8) (len : UInt16)
    (saddr daddr : Address) : Prop where
  length : p.ipLengthField version = len
  protocol : p.ipProtocolField version = protocol
  saddr : p.saddr version = saddr
  daddr : p.daddr version = daddr

theorem ipFields_ip4Header (hsaddr : saddr.length = 4) (hdaddr : daddr.length = 4)
    (h : Wire.At p.mem 0 (ip4Header protocol len saddr daddr)) :
    IpFields p .v4 protocol len saddr daddr := by
  obtain ⟨-, -, hhigh, hlow, -, -, -, -, -, hprotocol, -, -, hrest⟩ := h
  have hends : Wire.At p.mem 12 (saddr ++ daddr) := hrest
  obtain ⟨hsource, hdest⟩ := Wire.at_append.mp hends
  rw [hsaddr] at hdest
  have hsource' := Packet.slice_of_at hsource
  have hdest' := Packet.slice_of_at hdest
  rw [hsaddr] at hsource'
  rw [hdaddr] at hdest'
  exact ⟨be16_of_at ⟨hhigh, hlow, Wire.at_nil⟩, hprotocol, hsource', hdest'⟩

theorem ipFields_ip6Header (hsaddr : saddr.length = 16) (hdaddr : daddr.length = 16)
    (h : Wire.At p.mem 0 (ip6Header protocol len saddr daddr)) :
    IpFields p .v6 protocol len saddr daddr := by
  obtain ⟨-, -, -, -, hhigh, hlow, hprotocol, -, hrest⟩ := h
  have hends : Wire.At p.mem 8 (saddr ++ daddr) := hrest
  obtain ⟨hsource, hdest⟩ := Wire.at_append.mp hends
  rw [hsaddr] at hdest
  have hsource' := Packet.slice_of_at hsource
  have hdest' := Packet.slice_of_at hdest
  rw [hsaddr] at hsource'
  rw [hdaddr] at hdest'
  exact ⟨be16_of_at ⟨hhigh, hlow, Wire.at_nil⟩, hprotocol, hsource', hdest'⟩

end Header

/-- What the writers put into the length field of the IP header, before it is cut to 16 bits. -/
def TunPacket.ipLength (packet : TunPacket) : Nat :=
  match packet.ends.version with
  | .v4 => 20 + packet.payload.length
  | .v6 => packet.payload.length

theorem TunPacket.ipFields_buffer (h : packet.ends.Sized) :
    IpFields (Packet.ofBytes packet.buffer) packet.ends.version packet.protocol
      (UInt16.ofNat packet.ipLength) packet.ends.daddr packet.ends.saddr := by
  have hheader := (at_buffer packet h).1
  obtain ⟨hsaddr, hdaddr⟩ := h
  rw [ipHeader] at hheader
  rw [ipLength]
  cases hversion : packet.ends.version with
  | v4 =>
    rw [hversion, if_pos rfl] at hsaddr hdaddr
    rw [hversion] at hheader
    exact ipFields_ip4Header hdaddr hsaddr hheader
  | v6 =>
    rw [hversion, if_neg (by decide)] at hsaddr hdaddr
    rw [hversion] at hheader
    exact ipFields_ip6Header hdaddr hsaddr hheader

theorem TunPacket.pseudo_buffer (h : packet.ends.Sized) :
    (Packet.ofBytes packet.buffer).pseudo packet.ends.version =
      receiverPseudo packet.ends packet.protocol packet.payload.length := by
  have hlength : (Packet.ofBytes packet.buffer).length =
      ipHeaderLength packet.ends.version + packet.payload.length := length_buffer packet h
  obtain ⟨-, hprotocol, hsaddr, hdaddr⟩ := ipFields_buffer packet h
  rw [receiverPseudo]
  cases hversion : packet.ends.version with
  | v4 =>
    rw [hversion] at hprotocol hsaddr hdaddr hlength
    rw [Packet.pseudo, hsaddr, hdaddr, hprotocol, hlength, ipHeaderLength,
      Nat.add_sub_cancel_left]
  | v6 =>
    rw [hversion] at hprotocol hsaddr hdaddr hlength
    rw [Packet.pseudo, hsaddr, hdaddr, hprotocol, hlength, ipHeaderLength,
      Nat.add_sub_cancel_left]

theorem ofNat_toNat_eq_iff {n : Nat} : (UInt16.ofNat n).toNat = n ↔ n ≤ 65535 := by
  rw [UInt16.toNat_ofNat', Nat.mod_eq_iff_lt (by decide)]
  omega

theorem TunPacket.lengthRight_buffer (h : packet.ends.Sized) :
    (Packet.ofBytes packet.buffer).LengthRight packet.ends.version ↔
      packet.ipLength ≤ 65535 := by
  have hlength : (Packet.ofBytes packet.buffer).length =
      ipHeaderLength packet.ends.version + packet.payload.length := length_buffer packet h
  have hfield := (ipFields_buffer packet h).length
  rw [← ofNat_toNat_eq_iff, ← hfield, ipLength]
  cases hversion : packet.ends.version with
  | v4 =>
    rw [hversion] at hlength
    rw [Packet.LengthRight, hlength, ipHeaderLength]
  | v6 =>
    rw [hversion] at hlength
    rw [Packet.LengthRight, hlength, ipHeaderLength, Nat.add_left_cancel_iff]

theorem TunPacket.headerRight_buffer (h : packet.ends.Sized) :
    (Packet.ofBytes packet.buffer).HeaderRight packet.ends.version := by
  cases hversion : packet.ends.version with
  | v4 =>
    have hends := h.isIp4 hversion
    have hheader := Packet.slice_of_at (at_buffer packet h).1
    rw [length_ipHeader h, hversion, ipHeader_eq_ip4Header hversion] at hheader
    exact headerSum_ip4Header hends hheader
  | v6 => trivial

end Layout

section Sums
variable {ends : Endpoints} {protocol : UInt8} {len : Nat}

theorem htons_ofNat (hlen : len ≤ 65535) : htons (UInt16.ofNat len) = Wire.be16 len := by
  have hvalue : (UInt16.ofNat len).toNat = len := ofNat_toNat_eq_iff.mpr hlen
  have hhigh : ((UInt16.ofNat len) >>> 8).toUInt8 = UInt8.ofNat (len / 256) := by
    apply UInt8.toNat_inj.mp
    rw [UInt16.toNat_toUInt8, UInt16.toNat_shiftRight, hvalue, UInt8.toNat_ofNat',
      Nat.shiftRight_eq_div_pow]
    rfl
  have hlow : (UInt16.ofNat len).toUInt8 = UInt8.ofNat len := by
    apply UInt8.toNat_inj.mp
    rw [UInt16.toNat_toUInt8, hvalue, UInt8.toNat_ofNat']
  rw [htons, hhigh, hlow, Wire.be16]

theorem length_receiverPseudo (h : ends.Sized) :
    (receiverPseudo ends protocol len).length = if ends.version = .v4 then 12 else 40 := by
  obtain ⟨hsaddr, hdaddr⟩ := h
  rw [receiverPseudo]
  cases hversion : ends.version with
  | v4 =>
    rw [hversion, if_pos rfl] at hsaddr hdaddr
    simp [hsaddr, hdaddr]
  | v6 =>
    rw [hversion, if_neg (by decide)] at hsaddr hdaddr
    simp [hsaddr, hdaddr]

theorem length_receiverPseudo_even (h : ends.Sized) (protocol : UInt8) (len : Nat) :
    (receiverPseudo ends protocol len).length % 2 = 0 := by
  rw [length_receiverPseudo h]
  split <;> decide

/-- Neither the order of the addresses nor where in its field the length stands shows in the
sum: the partial sum of the writers is that of the receiver's pseudo header. -/
theorem pseudoChecksum_toNat (h : ends.Sized) (hlen : len ≤ 65535) :
    (pseudoChecksum ends protocol len).toNat =
      residue 65536 (wordTotal (receiverPseudo ends protocol len)) := by
  obtain ⟨hsaddr, hdaddr⟩ := h
  rw [pseudoChecksum, receiverPseudo]
  cases hversion : ends.version with
  | v4 =>
    rw [hversion, if_pos rfl] at hsaddr hdaddr
    dsimp only
    rw [calcChecksum_toNat (by simp [ipPseudo, hsaddr, hdaddr, htons]), ipPseudo,
      htons_ofNat hlen]
    exact congrArg (residue 65536) (Nat.zero_add _)
  | v6 =>
    rw [hversion, if_neg (by decide)] at hsaddr hdaddr
    dsimp only
    have hwide : Wire.be32 len = [0, 0] ++ Wire.be16 len := by
      rw [Wire.be32, Nat.div_eq_of_lt (by omega), Nat.mod_eq_of_lt (by omega)]
      rfl
    rw [calcChecksum_toNat (by simp [ip6Pseudo, hsaddr, hdaddr, htons]), ip6Pseudo,
      htons_ofNat hlen, hwide]
    have htotal (a b c d : List UInt8) (ha : a.length % 2 = 0) (hb : b.length % 2 = 0)
        (hc : c.length % 2 = 0) :
        wordTotal (a ++ b ++ c ++ d) = wordTotal a + wordTotal b + wordTotal c + wordTotal d := by
      rw [wordTotal_append (by simp only [List.length_append]; omega),
        wordTotal_append (by simp only [List.length_append]; omega), wordTotal_append ha]
    rw [htotal _ _ _ _ (by rw [hsaddr]) (by rw [hdaddr]) (by simp),
      htotal _ _ _ _ (by rw [hdaddr]) (by rw [hsaddr]) (by simp), wordTotal_append (by simp),
      wordTotal_append (by simp)]
    congr 1
    simp only [wordTotal, UInt16.toNat_zero, UInt8.toNat_zero]
    omega

end Sums

end NetGuard.Engine
