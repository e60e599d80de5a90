import NetGuard.Loop.Sizes

/-! # TCP packets for the tun

A TCP packet that fits the 16-bit length field of its IP header is well formed: its lengths, its
data offset and its checksums are right. The data of a segment is bounded by the MSS that the
app announces, which may exceed what the headers leave of the field.
-/
namespace NetGuard.Engine
open OnesComplement

section Segment
variable {cur : TcpSession} {data : List UInt8} {syn ack fin rst : Bool}

/-- What the receiver of a TCP packet with `datalen` bytes of data relies on. -/
structure Packet.TcpWellFormed (p : Packet) (version : IpVersion) (datalen : Nat) : Prop where
  length : p.LengthRight version
  offset : ipHeaderLength version + 4 * (p.tcphdr (ipHeaderLength version)).doff.toNat +
    datalen = p.length
  header : p.HeaderRight version
  checksum : p.transportSum version = 0xFFFF

theorem tcpHeaderWith_eq (cur : TcpSession) (syn ack fin rst : Bool) :
    ∃ front, front.length = 16 ∧ ∀ check,
      tcpHeaderWith cur syn ack fin rst check = front ++ (hostWord check ++ [0, 0]) :=
  ⟨_, rfl, fun _ => rfl⟩

/-- The partial sums of `write_tcp` add up to one sum over all parts. -/
theorem tcpChecksum_toNat (ack fin rst : Bool) (h : cur.toEndpoints.Sized)
    (hlen : 20 + (tcpOptions cur syn).length + data.length ≤ 65535) :
    ∃ csum, tcpChecksum cur data syn ack fin rst = ~~~ csum ∧ csum.toNat = residue 65536
      (wordTotal (receiverPseudo cur.toEndpoints ipprotoTcp
          (20 + (tcpOptions cur syn).length + data.length)) +
        wordTotal (tcpHeaderWith cur syn ack fin rst 0 ++ (tcpOptions cur syn ++ data))) := by
  have hheader : (tcpHeaderWith cur syn ack fin rst 0).length = 20 := length_tcpHeaderWith ..
  have hoptions : (tcpOptions cur syn).length % 2 = 0 := by
    rw [length_tcpOptions]
    cases syn <;> decide
  refine ⟨_, rfl, ?_⟩
  rw [calcChecksum_toNat (by omega), calcChecksum_toNat (by omega),
    calcChecksum_toNat (by omega), pseudoChecksum_toNat h hlen, residue_add_left,
    residue_add_left, Nat.add_assoc, residue_add_left, wordTotal_append (by rw [hheader]),
    wordTotal_append hoptions, Nat.add_assoc]

theorem transportSum_tcp (h : cur.toEndpoints.Sized)
    (hlen : 20 + (tcpOptions cur syn).length + data.length ≤ 65535) :
    (Packet.ofBytes (TunPacket.tcp cur data syn ack fin rst).buffer).transportSum cur.version =
      0xFFFF := by
  have hupper := TunPacket.upper_buffer (.tcp cur data syn ack fin rst) h
  have hpseudo := TunPacket.pseudo_buffer (.tcp cur data syn ack fin rst) h
  obtain ⟨csum, hcheck, hcsum⟩ := tcpChecksum_toNat ack fin rst h hlen
  obtain ⟨front, hfront, hwith⟩ := tcpHeaderWith_eq cur syn ack fin rst
  rw [hwith, List.append_assoc, List.append_assoc] at hcsum
  have hones := residue_stored (by rw [hfront]) hcsum
  rw [Packet.transportSum, netSum_eq_ones_iff]
  simp only [TunPacket.ends] at hupper hpseudo
  rw [hupper, hpseudo]
  simp only [TunPacket.payload, TunPacket.protocol]
  rw [length_tcpSegment, tcpSegment, hcheck, hwith, List.append_assoc, List.append_assoc,
    wordTotal_append (length_receiverPseudo_even h _ _)]
  exact hones

/-- The data starts where the header says. -/
theorem doff_tcp (data : List UInt8) (syn ack fin rst : Bool) (h : cur.toEndpoints.Sized) :
    4 * ((Packet.ofBytes (TunPacket.tcp cur data syn ack fin rst).buffer).tcphdr
      (ipHeaderLength cur.version)).doff.toNat = 20 + (tcpOptions cur syn).length := by
  have hpayload := (TunPacket.at_buffer (.tcp cur data syn ack fin rst) h).2
  simp only [TunPacket.ends, TunPacket.payload] at hpayload
  generalize Packet.ofBytes _ = p at hpayload ⊢
  obtain ⟨-, -, -, -, -, -, -, -, -, -, -, -, hdoff, -⟩ := hpayload
  have hoffset : (p.tcphdr (ipHeaderLength cur.version)).doff =
      (UInt8.ofNat ((20 + (tcpOptions cur syn).length) / 4) <<< 4) >>> 4 :=
    congrArg (fun b : UInt8 => b >>> 4) hdoff
  rw [hoffset, length_tcpOptions]
  cases syn <;> rfl

/-- What the headers leave of the length field for options and data. -/
def tcpRoom : IpVersion → Nat
  | .v4 => 65535 - 20 - 20
  | .v6 => 65535 - 20

theorem wellFormed_tcp_iff (h : cur.toEndpoints.Sized) :
    (Packet.ofBytes (TunPacket.tcp cur data syn ack fin rst).buffer).TcpWellFormed cur.version
        data.length ↔
      (if syn then 4 + 3 + 1 else 0) + data.length ≤ tcpRoom cur.version := by
  have hlengthRight := TunPacket.lengthRight_buffer (.tcp cur data syn ack fin rst) h
  have hfits : (TunPacket.tcp cur data syn ack fin rst).ipLength ≤ 65535 ↔
      (if syn then 4 + 3 + 1 else 0) + data.length ≤ tcpRoom cur.version := by
    rw [← length_tcpOptions cur syn, TunPacket.ipLength]
    simp only [TunPacket.ends, TunPacket.payload, length_tcpSegment]
    cases cur.version <;> dsimp only [tcpRoom] <;> omega
  rw [← hfits]
  constructor
  · intro hwell
    exact hlengthRight.mp hwell.length
  · intro hroom
    have hlen : 20 + (tcpOptions cur syn).length + data.length ≤ 65535 := by
      rw [length_tcpOptions]
      have hsmall := hfits.mp hroom
      cases hversion : cur.version <;> rw [hversion] at hsmall <;> dsimp only [tcpRoom] at hsmall <;>
        omega
    refine ⟨hlengthRight.mpr hroom, ?_, TunPacket.headerRight_buffer (.tcp cur data syn ack fin rst) h, transportSum_tcp h hlen⟩
    have hlength := TunPacket.length_buffer (.tcp cur data syn ack fin rst) h
    rw [doff_tcp data syn ack fin rst h, Packet.ofBytes, hlength]
    simp only [TunPacket.ends, TunPacket.payload, length_tcpSegment]
    omega

end Segment

section Run

/-- Of the TCP packets that a run writes to the tun those are well formed whose options and data
fit. -/
theorem EventLoop.tcp_wellFormed_iff (args : Arguments) (es : List (Env × LoopEvent))
    {cur : TcpSession} {data : List UInt8} {syn ack fin rst written : Bool}
    (hmem : .tun (.tcp cur data syn ack fin rst) written ∈ ((EventLoop.init args).run es).out) :
    (Packet.ofBytes (TunPacket.tcp cur data syn ack fin rst).buffer).TcpWellFormed cur.version
        data.length ↔
      (if syn then 4 + 3 + 1 else 0) + data.length ≤ tcpRoom cur.version :=
  wellFormed_tcp_iff ((EventLoop.run_sizes args es).out _ hmem)

/-- A SYN that announces the largest MSS and a window scale of one. -/
def Packet.jumboSyn : Packet :=
  .sample 6 [156, 64, 0, 80, 0, 0, 0, 100, 0, 0, 0, 0, 0x70, 2, 255, 255, 0, 0, 0, 0,
    2, 4, 255, 255, 3, 3, 1, 0]

def Packet.jumboAck : Packet :=
  .sample 6 [156, 64, 0, 80, 0, 0, 0, 101, 0, 0, 0, 1, 0x50, 16, 255, 255, 0, 0, 0, 0]

def jumboBytes : List UInt8 := List.replicate 65535 0

theorem length_jumboBytes : jumboBytes.length = 65535 := List.length_replicate

theorem jumboBytes_read {size : Nat} (h : 65535 ≤ size) :
    jumboBytes ≠ [] ∧ jumboBytes.length ≤ size :=
  ⟨List.ne_nil_of_length_pos (by rw [length_jumboBytes]; decide), length_jumboBytes.trans_le h⟩

/-- The server has sent the bytes. -/
def Env.jumbo : Env :=
  { Env.calm with
    recv := fun _ size =>
      if h : 65535 ≤ size then .data jumboBytes (jumboBytes_read h) else .retry }

def jumboRun : List (Env × LoopEvent) :=
  [(.calm, .tun .jumboSyn), (.calm, .socket 0 ⟨false, true, false⟩), (.calm, .tun .jumboAck),
    (.jumbo, .socket 0 ⟨true, false, false⟩)]

theorem jumboRun_writes : ∃ pre cur, ((EventLoop.init .direct).run jumboRun).out =
    pre ++ [.tun (.tcp cur jumboBytes false true false false) true] ∧ cur.version = .v4 := by
  refine ⟨[_, _, _, _, _, _, _, _, _, _, _, _], _, by with_unfolding_all rfl, ?_⟩
  rfl

/-- The packet of the bytes is too long for its length field. -/
theorem EventLoop.not_tcp_wellFormed : ¬ ∀ (args : Arguments) (es : List (Env × LoopEvent))
    (cur : TcpSession) (data : List UInt8) (syn ack fin rst written : Bool),
    .tun (.tcp cur data syn ack fin rst) written ∈ ((EventLoop.init args).run es).out →
      (Packet.ofBytes (TunPacket.tcp cur data syn ack fin rst).buffer).TcpWellFormed cur.version
        data.length := by
  intro h
  obtain ⟨pre, cur, hout, hversion⟩ := jumboRun_writes
  have hmem : .tun (.tcp cur jumboBytes false true false false) true ∈
      ((EventLoop.init .direct).run jumboRun).out := by simp [hout]
  have hsized := (EventLoop.run_sizes .direct jumboRun).out _ hmem
  have hroom := (wellFormed_tcp_iff hsized).mp (h _ _ _ _ _ _ _ _ _ hmem)
  rw [length_jumboBytes, hversion] at hroom
  exact absurd hroom (by decide)

/-- The same connection, and a server that has sent one byte. -/
def byteRun : List (Env × LoopEvent) :=
  [(.calm, .tun .jumboSyn), (.calm, .socket 0 ⟨false, true, false⟩), (.calm, .tun .jumboAck),
    (Env.calm.byte 9, .socket 0 ⟨true, false, false⟩)]

theorem byteRun_writes : ∃ cur, .tun (.tcp cur [9] false true false false) true ∈
    ((EventLoop.init .direct).run byteRun).out ∧ cur.version = .v4 := by
  obtain ⟨pre, cur, hout, hversion⟩ : ∃ pre cur, ((EventLoop.init .direct).run byteRun).out =
      pre ++ [.tun (.tcp cur [9] false true false false) true] ∧ cur.version = .v4 := by
    refine ⟨[_, _, _, _, _, _, _, _, _, _, _, _], _, by with_unfolding_all rfl, ?_⟩
    rfl
  exact ⟨cur, by simp [hout], hversion⟩

theorem EventLoop.tcp_wellFormed_byteRun : ∃ cur, cur.version = .v4 ∧
    (Packet.ofBytes (TunPacket.tcp cur [9] false true false false).buffer).TcpWellFormed .v4 1 := by
  obtain ⟨cur, hmem, hversion⟩ := byteRun_writes
  have hiff := EventLoop.tcp_wellFormed_iff .direct byteRun hmem
  rw [hversion] at hiff
  exact ⟨cur, hversion, hiff.mpr (by decide)⟩

end Run

end NetGuard.Engine
