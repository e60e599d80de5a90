import NetGuard.Engine.Checksum
import NetGuard.Engine.Icmp

/-! # Building packets for the tun

The buffers that `write_tcp`, `write_udp` and `write_icmp` fill. The three build the same IP
headers, with the addresses of the session swapped; TCP and UDP sum a pseudo header first.
-/
namespace NetGuard.Engine

section Ip

def ip6Version : UInt8 := 0x60

def ip6Header (protocol : UInt8) (plen : UInt16) (saddr daddr : Address) : List UInt8 :=
  [ip6Version, 0, 0, 0] ++ htons plen ++ [protocol, ipDefTtl] ++ (saddr ++ daddr)

/-- `struct ippseudo`. -/
def ipPseudo (src dst : Address) (protocol : UInt8) (len : UInt16) : List UInt8 :=
  src ++ dst ++ [0, protocol] ++ htons len

variable (ends : Endpoints) (protocol : UInt8) (len : Nat)

/-- The IP header in front of `len` bytes. Both length fields keep the low 16 bits. -/
def ipHeader : List UInt8 :=
  match ends.version with
  | .v4 => ip4Header protocol (UInt16.ofNat (20 + len)) ends.daddr ends.saddr
  | .v6 => ip6Header protocol (UInt16.ofNat len) ends.daddr ends.saddr

/-- The partial sum of a segment of `len` bytes. For IPv6 the addresses of the header are
swapped, and its 16-bit payload length is assigned to a field of 32 bits. -/
def pseudoChecksum : UInt16 :=
  match ends.version with
  | .v4 => calcChecksum 0 (ipPseudo ends.daddr ends.saddr protocol (UInt16.ofNat len))
  | .v6 => calcChecksum 0
      (ip6Pseudo ends.saddr ends.daddr (htons (UInt16.ofNat len) ++ [0, 0]) protocol)

end Ip

section Tcp
variable (cur : TcpSession) (data : List UInt8) (syn ack fin rst : Bool)

/-- `htonl`, as the four bytes it leaves in memory. -/
def htonl (n : UInt32) : List UInt8 := htons (n >>> 16).toUInt16 ++ htons n.toUInt16

def tcpFlags : UInt8 :=
  (if fin then 1 else 0) ||| (if syn then 2 else 0) ||| (if rst then 4 else 0) |||
    (if ack then 16 else 0)

/-- The options of a SYN. The MSS is stored in the order of the host. -/
def tcpOptions : List UInt8 :=
  if syn then [2, 4] ++ hostWord (getDefaultMss cur.version) ++ [3, 3, cur.recvScale] ++ [0]
  else []

/-- The TCP header with the given checksum field. -/
def tcpHeaderWith (check : UInt16) : List UInt8 :=
  htons cur.dest ++ htons cur.source ++ htonl cur.localSeq ++
    htonl (if ack then cur.remoteSeq else 0) ++
    [UInt8.ofNat ((20 + (tcpOptions cur syn).length) / 4) <<< 4, tcpFlags syn ack fin rst] ++
    htons (cur.recvWindow >>> cur.recvScale.toUInt32).toUInt16 ++ (hostWord check ++ [0, 0])

def tcpChecksum : UInt16 :=
  let options := tcpOptions cur syn
  let csum := pseudoChecksum cur.toEndpoints ipprotoTcp (20 + options.length + data.length)
  let csum := calcChecksum csum (tcpHeaderWith cur syn ack fin rst 0)
  let csum := calcChecksum csum options
  ~~~ calcChecksum csum data

def tcpSegment : List UInt8 :=
  tcpHeaderWith cur syn ack fin rst (tcpChecksum cur data syn ack fin rst) ++
    (tcpOptions cur syn ++ data)

end Tcp

section Udp
variable (cur : UdpSession) (data : List UInt8)

/-- The UDP header with the given checksum field. -/
def udpHeaderWith (check : UInt16) : List UInt8 :=
  htons cur.dest ++ htons cur.source ++ htons (UInt16.ofNat (8 + data.length)) ++ hostWord check

def udpChecksum : UInt16 :=
  let csum := pseudoChecksum cur.toEndpoints ipprotoUdp (8 + data.length)
  let csum := calcChecksum csum (udpHeaderWith cur data 0)
  ~~~ calcChecksum csum data

def udpDatagram : List UInt8 := udpHeaderWith cur data (udpChecksum cur data) ++ data

end Udp

section Buffer

def TunPacket.protocol : TunPacket → UInt8
  | .tcp .. => ipprotoTcp
  | .udp .. => ipprotoUdp
  | .icmp cur _ => if cur.version = .v4 then ipprotoIcmp else ipprotoIcmpV6

/-- What follows the IP header. -/
def TunPacket.payload : TunPacket → List UInt8
  | .tcp cur data syn ack fin rst => tcpSegment cur data syn ack fin rst
  | .udp cur data => udpDatagram cur data
  | .icmp _ data => data

def TunPacket.buffer (packet : TunPacket) : List UInt8 :=
  ipHeader packet.ends packet.protocol packet.payload.length ++ packet.payload

end Buffer

section Lengths
variable (cur : TcpSession) (data : List UInt8) (syn ack fin rst : Bool)

theorem length_tcpOptions : (tcpOptions cur syn).length = if syn then 4 + 3 + 1 else 0 := by
  cases syn <;> rfl

theorem length_tcpHeaderWith (check : UInt16) :
    (tcpHeaderWith cur syn ack fin rst check).length = 20 := rfl

theorem length_tcpSegment : (tcpSegment cur data syn ack fin rst).length =
    20 + (tcpOptions cur syn).length + data.length := by
  rw [tcpSegment, List.length_append, List.length_append, length_tcpHeaderWith, Nat.add_assoc]

theorem length_udpHeaderWith (cur : UdpSession) (check : UInt16) :
    (udpHeaderWith cur data check).length = 8 := rfl

theorem length_udpDatagram (cur : UdpSession) :
    (udpDatagram cur data).length = 8 + data.length := by
  rw [udpDatagram, List.length_append, length_udpHeaderWith]

/-- The IPv4 length of a packet counts its IP header. -/
theorem TunPacket.len4_eq (packet : TunPacket) : packet.len4 = 20 + packet.payload.length := by
  cases packet with
  | tcp cur data syn ack fin rst =>
    rw [payload, length_tcpSegment, length_tcpOptions, len4]
    omega
  | udp cur data =>
    rw [payload, length_udpDatagram, len4]
    omega
  | icmp cur data => rfl

theorem TunPacket.protocol_eq_protocol4 {packet : TunPacket} (h : packet.ends.version = .v4) :
    packet.protocol = packet.protocol4 := by
  cases packet with
  | icmp cur data => exact if_pos h
  | _ => rfl

/-- The buffer of an IPv4 packet starts with the header of the session. -/
theorem TunPacket.ipHeader_eq_ip4Header {packet : TunPacket} (h : packet.ends.version = .v4) :
    ipHeader packet.ends packet.protocol packet.payload.length = packet.ip4Header := by
  rw [ipHeader, h, protocol_eq_protocol4 h, ip4Header, len4_eq]

end Lengths

end NetGuard.Engine
