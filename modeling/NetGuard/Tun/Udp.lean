import NetGuard.Loop.Sizes

/-! # UDP packets for the tun

The lengths and the checksum of a UDP packet are right. A checksum that comes out as zero is
sent as zero, which IPv6 does not allow.
-/
namespace NetGuard.Engine
open OnesComplement

section Datagram
variable {cur : UdpSession} {data : List UInt8}

/-- What the receiver of a UDP packet relies on. -/
structure Packet.UdpAcceptable (p : Packet) (version : IpVersion) : Prop where
  length : p.LengthRight version
  udpLength : ipHeaderLength version + (p.be16 (ipHeaderLength version + 4)).toNat = p.length
  checksum : p.transportSum version = 0xFFFF
  present : version = .v6 → p.be16 (ipHeaderLength version + 6) ≠ 0

/-- What the checksum of a datagram is taken over: the field itself is zero. -/
def UdpSession.summed (cur : UdpSession) (data : List UInt8) : List UInt8 :=
  receiverPseudo cur.toEndpoints ipprotoUdp (8 + data.length) ++ (udpHeaderWith cur data 0 ++ data)

theorem udpHeaderWith_eq (cur : UdpSession) (data : List UInt8) :
    ∃ front, front.length = 6 ∧ ∀ check, udpHeaderWith cur data check = front ++ hostWord check :=
  ⟨_, rfl, fun _ => rfl⟩

/-- The partial sums of `write_udp` add up to one sum over all parts. -/
theorem udpChecksum_toNat (h : cur.toEndpoints.Sized) (hlen : 8 + data.length ≤ 65535) :
    ∃ csum, udpChecksum cur data = ~~~ csum ∧ csum.toNat = residue 65536
      (wordTotal (receiverPseudo cur.toEndpoints ipprotoUdp (8 + data.length)) +
        wordTotal (udpHeaderWith cur data 0 ++ data)) := by
  have hheader : (udpHeaderWith cur data 0).length = 8 := length_udpHeaderWith ..
  refine ⟨_, rfl, ?_⟩
  rw [calcChecksum_toNat (by omega), calcChecksum_toNat (by omega), pseudoChecksum_toNat h hlen,
    residue_add_left, Nat.add_assoc, residue_add_left, wordTotal_append (by rw [hheader])]

theorem transportSum_udp (h : cur.toEndpoints.Sized) (hlen : 8 + data.length ≤ 65535) :
    (Packet.ofBytes (TunPacket.udp cur data).buffer).transportSum cur.version = 0xFFFF := by
  have hupper := TunPacket.upper_buffer (.udp cur data) h
  have hpseudo := TunPacket.pseudo_buffer (.udp cur data) h
  obtain ⟨csum, hcheck, hcsum⟩ := udpChecksum_toNat h hlen
  obtain ⟨front, hfront, hwith⟩ := udpHeaderWith_eq cur data
  rw [hwith, List.append_assoc] at hcsum
  have hones := residue_stored (by rw [hfront]) hcsum
  rw [Packet.transportSum, netSum_eq_ones_iff]
  simp only [TunPacket.ends] at hupper hpseudo
  rw [hupper, hpseudo]
  simp only [TunPacket.payload, TunPacket.protocol]
  rw [length_udpDatagram, udpDatagram, hcheck, hwith, List.append_assoc,
    wordTotal_append (length_receiverPseudo_even h _ _)]
  exact hones

theorem be16_eq_zero_of_at {p : Packet} {i : Nat} {w : UInt16} (h : Wire.At p.mem i (hostWord w)) :
    p.be16 i = 0 ↔ w = 0 := by
  obtain ⟨hlow, hhigh, -⟩ := h
  have hlt := w.toNat_lt
  rw [← UInt16.toNat_inj, ← UInt16.toNat_inj, Packet.be16_toNat, hlow, hhigh, UInt8.toNat_ofNat',
    UInt8.toNat_ofNat', UInt16.toNat_zero]
  omega

/-- The checksum comes out as zero where the rest adds up to all ones. -/
theorem udpChecksum_eq_zero_iff (h : cur.toEndpoints.Sized) (hlen : 8 + data.length ≤ 65535) :
    udpChecksum cur data = 0 ↔ netSum (cur.summed data) = 0xFFFF := by
  obtain ⟨csum, hcheck, hcsum⟩ := udpChecksum_toNat h hlen
  have hlt := csum.toNat_lt
  rw [netSum_eq_ones_iff, UdpSession.summed, wordTotal_append (length_receiverPseudo_even h _ _),
    ← hcsum, hcheck, ← UInt16.toNat_inj, UInt16.toNat_not, UInt16.toNat_zero, UInt16.size]
  omega

/-- Where the fields of the header lie. -/
theorem fields_udp (data : List UInt8) (h : cur.toEndpoints.Sized) :
    (Packet.ofBytes (TunPacket.udp cur data).buffer).be16 (ipHeaderLength cur.version + 4) =
        UInt16.ofNat (8 + data.length) ∧
      ((Packet.ofBytes (TunPacket.udp cur data).buffer).be16 (ipHeaderLength cur.version + 6) = 0 ↔
        udpChecksum cur data = 0) := by
  have hpayload := (TunPacket.at_buffer (.udp cur data) h).2
  simp only [TunPacket.ends, TunPacket.payload, udpDatagram, udpHeaderWith, Wire.at_append]
    at hpayload
  obtain ⟨⟨⟨-, hlength⟩, hcheck⟩, -⟩ := hpayload
  exact ⟨be16_of_at hlength, be16_eq_zero_of_at hcheck⟩

theorem acceptable_udp_iff (h : cur.toEndpoints.Sized) (hlen : data.length ≤ maxDatagram cur.version) :
    (Packet.ofBytes (TunPacket.udp cur data).buffer).UdpAcceptable cur.version ↔
      cur.version = .v4 ∨ netSum (cur.summed data) ≠ 0xFFFF := by
  have hroom : (TunPacket.udp cur data).ipLength ≤ 65535 := by
    rw [TunPacket.ipLength]
    simp only [TunPacket.ends, TunPacket.payload, length_udpDatagram]
    cases hversion : cur.version <;> rw [hversion] at hlen <;> dsimp only [maxDatagram] at hlen ⊢ <;>
      omega
  have hshort : 8 + data.length ≤ 65535 := by
    cases hversion : cur.version <;> rw [hversion] at hlen <;> dsimp only [maxDatagram] at hlen <;>
      omega
  obtain ⟨hfield, hcheck⟩ := fields_udp data h
  rw [udpChecksum_eq_zero_iff h hshort] at hcheck
  constructor
  · intro hacceptable
    cases hversion : cur.version with
    | v4 => exact .inl rfl
    | v6 => exact .inr fun hones => hacceptable.present hversion (hcheck.mpr hones)
  · intro hcase
    refine ⟨(TunPacket.lengthRight_buffer (.udp cur data) h).mpr hroom, ?_,
      transportSum_udp h hshort, ?_⟩
    · have hlength := TunPacket.length_buffer (.udp cur data) h
      rw [hfield, ofNat_toNat_eq_iff.mpr hshort, Packet.ofBytes, hlength]
      simp only [TunPacket.ends, TunPacket.payload, length_udpDatagram]
    · intro hversion hzero
      rcases hcase with hv4 | hother
      · rw [hversion] at hv4
        exact absurd hv4 (by decide)
      · exact hother (hcheck.mp hzero)

end Datagram

section Run

/-- The packets of a UDP session of a run are acceptable except for those of IPv6 whose
checksum comes out as zero. -/
theorem EventLoop.udp_acceptable_iff (args : Arguments) (es : List (Env × LoopEvent))
    {cur : UdpSession} {sock : Int} {data : List UInt8}
    (hmem : .udp cur sock ∈ ((EventLoop.init args).run es).ngSession)
    (hmss : data.length ≤ cur.mss.toNat) :
    (Packet.ofBytes (TunPacket.udp cur data).buffer).UdpAcceptable cur.version ↔
      cur.version = .v4 ∨ netSum (cur.summed data) ≠ 0xFFFF := by
  have hfit := (EventLoop.run_sizes args es).list _ hmem
  exact acceptable_udp_iff hfit.sized (hmss.trans hfit.mss)

/-- A datagram of one byte from port 40000 of `fd00::2` to port 5000 of `fd00::35`. -/
def Packet.sampleDatagram6 : Packet :=
  .ofBytes ([0x60, 0, 0, 0, 0, 9, 17, 64, 0xfd, 0] ++ List.replicate 13 0 ++ [2, 0xfd, 0] ++
    List.replicate 13 0 ++ [53, 156, 64, 19, 136, 0, 9, 0, 0, 7])

theorem sampleDatagram6_session : ∃ s : UdpSession,
    ((EventLoop.init .direct).run [(.calm, .tun .sampleDatagram6)]).ngSession = [.udp s 7] ∧
      s.toFlow = Packet.sampleDatagram6.flow 40 .v6 ∧ s.mss = 65487 :=
  ⟨_, rfl, rfl, rfl⟩

theorem EventLoop.udp_acceptable_sample : ∃ cur : UdpSession,
    .udp cur 7 ∈ ((EventLoop.init .direct).run [(.calm, .tun .sampleDatagram6)]).ngSession ∧
      (Packet.ofBytes (TunPacket.udp cur [85]).buffer).UdpAcceptable cur.version := by
  obtain ⟨cur, hlist, hflow, hmss⟩ := sampleDatagram6_session
  have hmem : .udp cur 7 ∈
      ((EventLoop.init .direct).run [(.calm, .tun .sampleDatagram6)]).ngSession := by simp [hlist]
  refine ⟨cur, hmem, (EventLoop.udp_acceptable_iff .direct _ hmem (by rw [hmss]; decide)).mpr (.inr ?_)⟩
  rw [UdpSession.summed, udpHeaderWith, hflow]
  decide

/-- The answer `55 d9` of that server is sent with the checksum zero. -/
theorem EventLoop.not_udp_acceptable : ¬ ∀ (args : Arguments) (es : List (Env × LoopEvent))
    (cur : UdpSession) (sock : Int) (data : List UInt8),
    .udp cur sock ∈ ((EventLoop.init args).run es).ngSession → data.length ≤ cur.mss.toNat →
      (Packet.ofBytes (TunPacket.udp cur data).buffer).UdpAcceptable cur.version := by
  intro h
  obtain ⟨cur, hlist, hflow, hmss⟩ := sampleDatagram6_session
  have hmem : .udp cur 7 ∈
      ((EventLoop.init .direct).run [(.calm, .tun .sampleDatagram6)]).ngSession := by simp [hlist]
  have hsized : cur.toEndpoints.Sized := hflow ▸ Packet.flow_sized ..
  have hversion : cur.version = .v6 := congrArg (fun flow : Flow => flow.version) hflow
  have hacceptable := h _ _ _ _ [85, 217] hmem (by rw [hmss]; decide)
  rcases (acceptable_udp_iff hsized (by rw [hversion]; decide)).mp hacceptable with hv4 | hother
  · rw [hversion] at hv4
    exact absurd hv4 (by decide)
  · apply hother
    rw [UdpSession.summed, udpHeaderWith, hflow]
    decide

end Run

end NetGuard.Engine
