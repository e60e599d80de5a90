import NetGuard.Tcp.Answers
import NetGuard.Tun.Tcp

/-! # Reading back what was written

The header functions of `handle_ip` take every packet for the tun that fits the length field of
its IP header, and find in it what the writers were given, seen from the other end.
-/
namespace NetGuard.Engine

section Ends

/-- The same flow as the other end sees it. -/
def Endpoints.mirror (e : Endpoints) : Endpoints := ⟨e.version, e.daddr, e.saddr⟩

def Flow.mirror (f : Flow) : Flow := ⟨f.toEndpoints.mirror, f.dest, f.source⟩

def Packet.endpoints (p : Packet) (version : IpVersion) : Endpoints :=
  ⟨version, p.saddr version, p.daddr version⟩

theorem Packet.flow_eq (p : Packet) (payload : Nat) (version : IpVersion) :
    p.flow payload version =
      ⟨p.endpoints version, p.be16 payload, p.be16 (payload + 2)⟩ := rfl

end Ends

section Parse
variable {args : Arguments} {p : Packet} {protocol : UInt8} {len : UInt16} {saddr daddr : Address}

theorem parseIp_ip4Header (h : Wire.At p.mem 0 (ip4Header protocol len saddr daddr))
    (hlong : 20 ≤ p.length) (hright : p.LengthRight .v4) :
    parseIp args p = .ok ⟨.v4, protocol, 20⟩ := by
  obtain ⟨hfirst, -, -, -, -, -, hfrag, hfrag', -, hprotocol, -⟩ := h
  have hversion : p.versionNibble = 4 := by
    rw [Packet.versionNibble, hfirst]
    rfl
  have hwhole : p.fragOff &&& ipMf = 0 := by
    rw [Packet.fragOff, hfrag, hfrag']
    rfl
  have hoptions : p.ipoptlen = 0 := by
    rw [Packet.ipoptlen, hfirst]
    rfl
  have htotal : (p.be16 2).toNat = p.length := hright
  rw [parseIp_version4 hversion, parseIp4, if_neg (Nat.not_lt.mpr hlong), if_neg (by simp [hwhole]),
    if_neg (by simp [htotal]), if_neg fun h => calcChecksum_ne_zero hversion h.2, hoptions,
    show p.mem 9 = protocol from hprotocol]
  rfl

theorem parseIp_ip6Header (h : Wire.At p.mem 0 (ip6Header protocol len saddr daddr))
    (hlong : 40 ≤ p.length) (hupper : isUpperLayer protocol = true) :
    parseIp args p = .ok ⟨.v6, protocol, 40⟩ := by
  obtain ⟨hfirst, -, -, -, -, -, hprotocol, -⟩ := h
  have hversion : p.versionNibble = 6 := by
    rw [Packet.versionNibble, hfirst]
    rfl
  have hnext : p.mem 6 = protocol := hprotocol
  rw [parseIp, hversion, if_neg (by decide), if_pos rfl, parseIp6, if_neg (Nat.not_lt.mpr hlong)]
  simp only [hnext, hupper, if_true]

theorem TunPacket.isUpperLayer_protocol (packet : TunPacket) :
    isUpperLayer packet.protocol = true := by
  cases packet with
  | tcp => rfl
  | udp => rfl
  | icmp cur data =>
    simp only [protocol]
    split <;> rfl

/-- What the parser makes of a packet for the tun. -/
def TunPacket.ipHdr (packet : TunPacket) : IpHdr :=
  ⟨packet.ends.version, packet.protocol, ipHeaderLength packet.ends.version⟩

theorem TunPacket.parseIp_buffer {packet : TunPacket} (h : packet.ends.Sized)
    (hfits : packet.ipLength ≤ 65535) :
    parseIp args (Packet.ofBytes packet.buffer) = .ok packet.ipHdr := by
  have hright := (lengthRight_buffer packet h).mpr hfits
  have hheader := (at_buffer packet h).1
  have hlong : ipHeaderLength packet.ends.version ≤ (Packet.ofBytes packet.buffer).length := by
    rw [Packet.ofBytes, length_buffer packet h]
    exact Nat.le_add_right _ _
  rw [ipHeader] at hheader
  rw [ipHdr]
  cases hversion : packet.ends.version with
  | v4 =>
    rw [hversion] at hheader hlong hright
    exact parseIp_ip4Header hheader hlong hright
  | v6 =>
    rw [hversion] at hheader hlong
    exact parseIp_ip6Header hheader hlong packet.isUpperLayer_protocol

end Parse

section Payload
variable {p : Packet} {i n : Nat}

theorem Packet.sizeFrom_of_length (hlength : p.length = i + n) (hn : i + n < 2 ^ 64) :
    (p.sizeFrom i).toNat = n := by
  rw [Packet.sizeFrom, UInt64.toNat_sub, UInt64.toNat_ofNat', UInt64.toNat_ofNat', hlength]
  omega

theorem Packet.rest_of_at {bytes : List UInt8} (h : Wire.At p.mem i bytes)
    (hlength : p.length = i + bytes.length) (hn : i + bytes.length < 2 ^ 64) :
    p.slice i (p.sizeFrom i).toNat = bytes := by
  rw [Packet.sizeFrom_of_length hlength hn]
  exact Packet.slice_of_at h

theorem Packet.payloadFrom_of_at {bytes : List UInt8} (h : Wire.At p.mem i bytes)
    (hlength : p.length = i + bytes.length) (hn : i + bytes.length < 2 ^ 64)
    (hbytes : bytes.length < 2 ^ 16) : (p.payloadFrom i).val = bytes := by
  have hsize : (p.datalen i).toNat = bytes.length := by
    rw [Packet.datalen, UInt64.toNat_toUInt16, Packet.sizeFrom_of_length hlength hn]
    exact Nat.mod_eq_of_lt hbytes
  simp only [Packet.payloadFrom, hsize]
  exact Packet.slice_of_at h

end Payload

section Tcp
variable {p : Packet} {payload : Nat} {cur : TcpSession} {syn ack fin rst : Bool} {check : UInt16}

/-- The TCP header that the writer was asked for, as the reader sees it. -/
def TcpSession.written (cur : TcpSession) (syn ack fin rst : Bool) : TcpHdr where
  source := cur.dest
  dest := cur.source
  seq := cur.localSeq
  ackSeq := if ack then cur.remoteSeq else 0
  doff := if syn then 7 else 5
  fin := fin
  syn := syn
  rst := rst
  psh := false
  ack := ack
  urg := false
  window := (cur.recvWindow >>> cur.recvScale.toUInt32).toUInt16

theorem TcpSession.written_tcpoptlen (cur : TcpSession) (syn ack fin rst : Bool) :
    (cur.written syn ack fin rst).tcpoptlen.toNat = (tcpOptions cur syn).length := by
  have hdoff : (cur.written syn ack fin rst).doff = if syn then 7 else 5 := rfl
  rw [length_tcpOptions, TcpHdr.tcpoptlen, hdoff]
  cases syn <;> rfl

theorem tcphdr_of_at (h : Wire.At p.mem payload (tcpHeaderWith cur syn ack fin rst check)) :
    p.tcphdr payload = cur.written syn ack fin rst := by
  simp only [tcpHeaderWith, Wire.at_append] at h
  obtain ⟨⟨⟨⟨⟨⟨hsource, hdest⟩, hseq⟩, hackSeq⟩, hdoff, hflags, -⟩, hwindow⟩, -⟩ := h
  have hoffset : p.mem (payload + 12) =
      UInt8.ofNat ((20 + (tcpOptions cur syn).length) / 4) <<< 4 := hdoff
  have hflag : p.mem (payload + 13) = tcpFlags syn ack fin rst := hflags
  have hdoff' : p.mem (payload + 12) >>> 4 = if syn then 7 else 5 := by
    rw [hoffset, length_tcpOptions]
    cases syn <;> rfl
  rw [Packet.tcphdr, TcpSession.written, be16_of_at hsource, be16_of_at (i := payload + 2) hdest,
    be32_of_at (i := payload + 4) hseq, be32_of_at (i := payload + 8) hackSeq, hdoff', hflag,
    be16_of_at (i := payload + 14) hwindow]
  cases syn <;> cases ack <;> cases fin <;> cases rst <;> rfl

end Tcp

section ReadBack

/-- The reader finds what the writer was given. -/
def TunPacket.ReadBack (packet : TunPacket) (p : Packet) : Prop :=
  let version := packet.ends.version
  let payload := ipHeaderLength version
  match packet with
  | .tcp cur data syn ack fin rst =>
    p.flow payload version = cur.toFlow.mirror ∧
      p.tcphdr payload = cur.written syn ack fin rst ∧
      (p.payloadFrom (p.tcpData payload)).val = data
  | .udp cur data => p.flow payload version = cur.toFlow.mirror ∧ p.udpData payload = data
  | .icmp cur data =>
    p.endpoints version = cur.toEndpoints.mirror ∧
      p.slice payload (p.sizeFrom payload).toNat = data

variable {packet : TunPacket}

theorem TunPacket.endpoints_buffer (h : packet.ends.Sized) :
    (Packet.ofBytes packet.buffer).endpoints packet.ends.version = packet.ends.mirror := by
  obtain ⟨-, -, hsaddr, hdaddr⟩ := ipFields_buffer packet h
  rw [Packet.endpoints, hsaddr, hdaddr]
  rfl

theorem TunPacket.length_of_fits (h : packet.ends.Sized) (hfits : packet.ipLength ≤ 65535) :
    (Packet.ofBytes packet.buffer).length =
        ipHeaderLength packet.ends.version + packet.payload.length ∧
      packet.payload.length ≤ 65535 ∧ ipHeaderLength packet.ends.version ≤ 40 := by
  refine ⟨length_buffer packet h, ?_, ?_⟩
  · rw [ipLength] at hfits
    cases hversion : packet.ends.version <;> rw [hversion] at hfits <;> dsimp only at hfits <;> omega
  · cases packet.ends.version <;> decide

/-- Only an ICMP message may be too short for its header. -/
theorem TunPacket.tooShort_buffer (h : packet.ends.Sized) (hfits : packet.ipLength ≤ 65535) :
    packet.ipHdr.tooShort (Packet.ofBytes packet.buffer) = false ↔ 8 ≤ packet.payload.length := by
  obtain ⟨hlength, hpayload, hheader⟩ := length_of_fits h hfits
  have hsize := Packet.sizeFrom_of_length hlength (by omega)
  have hleast (n : UInt64) (hmin : packet.ipHdr.minLength = n) :
      packet.ipHdr.tooShort (Packet.ofBytes packet.buffer) = false ↔
        n.toNat ≤ packet.payload.length := by
    rw [IpHdr.tooShort, hmin, decide_eq_false_iff_not, UInt64.lt_iff_toNat_lt, ipHdr, hsize,
      Nat.not_lt]
  cases packet with
  | tcp cur data syn ack fin rst =>
    rw [hleast 20 rfl, payload, length_tcpSegment]
    apply iff_of_true
    · rw [Nat.add_assoc]
      exact Nat.le_add_right _ _
    · omega
  | udp cur data => exact hleast 8 rfl
  | icmp cur data =>
    refine hleast 8 ?_
    rw [IpHdr.minLength, ipHdr, IpHdr.isIcmp, protocol]
    split <;> rfl

theorem TunPacket.readBack_buffer (h : packet.ends.Sized) (hfits : packet.ipLength ≤ 65535) :
    packet.ReadBack (Packet.ofBytes packet.buffer) := by
  obtain ⟨hlength, hpayload, hheader⟩ := length_of_fits h hfits
  have hends := endpoints_buffer h
  have hat := (at_buffer packet h).2
  cases packet with
  | tcp cur data syn ack fin rst =>
    simp only [ends, payload] at hat hlength hends hheader
    have hsegment : (tcpSegment cur data syn ack fin rst).length =
      20 + (tcpOptions cur syn).length + data.length := length_tcpSegment ..
    rw [tcpSegment, Wire.at_append, Wire.at_append, length_tcpHeaderWith] at hat
    obtain ⟨hfields, -, hdata⟩ := hat
    have htcp := tcphdr_of_at hfields
    refine ⟨?_, htcp, ?_⟩
    · have hsource := congrArg TcpHdr.source htcp
      have hdest := congrArg TcpHdr.dest htcp
      rw [Packet.flow_eq]
      simp only [ends] at hends ⊢
      rw [hends]
      exact congrArg₂ (Flow.mk _) hsource hdest
    · have hstart : (Packet.ofBytes (TunPacket.tcp cur data syn ack fin rst).buffer).tcpData
          (ipHeaderLength cur.version) =
            ipHeaderLength cur.version + 20 + (tcpOptions cur syn).length := by
        rw [Packet.tcpData, htcp, TcpSession.written_tcpoptlen]
      have hbound : (tcpSegment cur data syn ack fin rst).length ≤ 65535 := hpayload
      rw [ends, hstart]
      exact Packet.payloadFrom_of_at hdata (by omega) (by omega) (by omega)
  | udp cur data =>
    simp only [ends, payload] at hat hlength hends hheader
    have hdatagram : (udpDatagram cur data).length = 8 + data.length := length_udpDatagram data cur
    rw [udpDatagram, Wire.at_append, length_udpHeaderWith] at hat
    obtain ⟨hfields, hdata⟩ := hat
    simp only [udpHeaderWith, Wire.at_append] at hfields
    obtain ⟨⟨⟨hsource, hdest⟩, -⟩, -⟩ := hfields
    refine ⟨?_, ?_⟩
    · rw [Packet.flow_eq]
      simp only [ends] at hends ⊢
      rw [hends, be16_of_at hsource, be16_of_at (i := ipHeaderLength cur.version + 2) hdest]
      rfl
    · have hbound : (udpDatagram cur data).length ≤ 65535 := hpayload
      exact Packet.rest_of_at hdata (by rw [ends]; omega) (by rw [ends]; omega)
  | icmp cur data =>
    have hbound : data.length ≤ 65535 := hpayload
    exact ⟨hends, Packet.rest_of_at hat hlength (by omega)⟩

end ReadBack

section Run

/-- Every packet that a run writes to the tun, if it fits the length field of its IP header, is
taken by the parser of `handle_ip` and read as what the writer was given, at any log level. -/
theorem EventLoop.read_back (args args' : Arguments) (es : List (Env × LoopEvent))
    {packet : TunPacket} {written : Bool}
    (hmem : .tun packet written ∈ ((EventLoop.init args).run es).out)
    (hfits : packet.ipLength ≤ 65535) :
    parseIp args' (Packet.ofBytes packet.buffer) = .ok packet.ipHdr ∧
      (packet.ipHdr.tooShort (Packet.ofBytes packet.buffer) = false ↔ 8 ≤ packet.payload.length) ∧
      packet.ReadBack (Packet.ofBytes packet.buffer) := by
  have hsized : packet.ends.Sized := (EventLoop.run_sizes args es).out _ hmem
  exact ⟨TunPacket.parseIp_buffer hsized hfits, TunPacket.tooShort_buffer hsized hfits,
    TunPacket.readBack_buffer hsized hfits⟩

/-- The server's byte, at a log level where the checksum of its packet is looked at. -/
theorem EventLoop.read_back_sample : ∃ cur,
    parseIp .verbose (Packet.ofBytes (TunPacket.tcp cur [9] false true false false).buffer) =
        .ok ⟨.v4, ipprotoTcp, 20⟩ ∧
      (Packet.ofBytes (TunPacket.tcp cur [9] false true false false).buffer).tcphdr 20 =
        cur.written false true false false ∧
      ((Packet.ofBytes (TunPacket.tcp cur [9] false true false false).buffer).payloadFrom
        ((Packet.ofBytes (TunPacket.tcp cur [9] false true false false).buffer).tcpData 20)).val =
          [9] := by
  obtain ⟨cur, hmem, hversion⟩ := byteRun_writes
  have hfits : (TunPacket.tcp cur [9] false true false false).ipLength ≤ 65535 := by
    rw [TunPacket.ipLength]
    simp only [TunPacket.ends, hversion, TunPacket.payload, length_tcpSegment, length_tcpOptions]
    decide
  obtain ⟨hparsed, -, -, htcp, hdata⟩ := EventLoop.read_back .direct .verbose _ hmem hfits
  rw [TunPacket.ipHdr, TunPacket.ends, hversion] at hparsed
  rw [TunPacket.ends, hversion] at htcp hdata
  exact ⟨cur, hparsed, htcp, hdata⟩

end Run

end NetGuard.Engine
