import Mathlib.Data.List.Basic
import Mathlib.Data.List.Defs
import Mathlib.Algebra.Group.Nat.Defs

/-! # Sessions of the packet engine

The data types of `netguard.h`. The tagged union of `struct ng_session` is an
inductive type, so a session never carries the protocol number of another kind.
Ports and sequence numbers are in host notation; addresses are the raw bytes.
-/
namespace NetGuard.Engine

inductive IpVersion
  | v4
  | v6
  deriving DecidableEq, Repr

abbrev Address := List UInt8

structure Endpoints where
  version : IpVersion
  saddr : Address
  daddr : Address
  deriving DecidableEq, Repr

structure Flow extends Endpoints where
  source : UInt16
  dest : UInt16
  deriving DecidableEq, Repr

/-- A block of at most 65535 bytes, so that its length is a `uint16_t`. -/
abbrev Payload := {bytes : List UInt8 // bytes.length < 2 ^ 16}

/-- A queued uplink segment. Its data block always holds `len` bytes. -/
structure Segment where
  seq : UInt32
  sent : UInt16
  psh : Bool
  data : Payload

/-- The field `len`, which the source keeps equal to the size of `data`. -/
def Segment.len (g : Segment) : UInt16 := UInt16.ofNat g.data.val.length

@[simp] theorem Segment.len_toNat (g : Segment) : g.len.toNat = g.data.val.length := by
  simpa [Segment.len] using Nat.mod_eq_of_lt g.data.property

/-- `len - sent` promoted to `int` and compared or added as `uint32_t`. -/
def Segment.unsent (g : Segment) : UInt32 := g.len.toUInt32 - g.sent.toUInt32

/-- The TCP states the engine uses; `unset` is the zero of `memset`. -/
inductive TcpState
  | unset
  | listen
  | synRecv
  | established
  | finWait1
  | closeWait
  | lastAck
  | closing
  | close
  deriving DecidableEq, Repr

inductive Socks5
  | failed
  | none
  | hello
  | auth
  | connect
  | connected
  deriving DecidableEq, Repr

inductive UdpState
  | active
  | finishing
  | closed
  | blocked
  deriving DecidableEq, Repr

structure IcmpSession extends Endpoints where
  time : Int
  uid : Int
  id : UInt16
  stop : Bool

structure UdpSession extends Flow where
  time : Int
  uid : Int
  mss : UInt16
  sent : UInt64
  received : UInt64
  state : UdpState

structure TcpSession extends Flow where
  uid : Int
  time : Int
  mss : UInt16
  recvScale : UInt8
  sendScale : UInt8
  recvWindow : UInt32
  sendWindow : UInt32
  unconfirmed : UInt16
  remoteSeq : UInt32
  localSeq : UInt32
  remoteStart : UInt32
  localStart : UInt32
  acked : UInt32
  lastKeepAlive : Int
  sent : UInt64
  received : UInt64
  state : TcpState
  socks5 : Socks5
  forward : List Segment

structure Events where
  epollIn : Bool
  epollOut : Bool
  epollErr : Bool
  deriving DecidableEq, Repr

/-- One entry of the session list. Only TCP changes the events it watches. -/
inductive NgSession
  | icmp (s : IcmpSession) (socket : Int)
  | udp (s : UdpSession) (socket : Int)
  | tcp (s : TcpSession) (socket : Int) (events : Events)

def ipprotoIcmp : UInt8 := 1
def ipprotoTcp : UInt8 := 6
def ipprotoUdp : UInt8 := 17
def ipprotoIcmpV6 : UInt8 := 58

def NgSession.protocol : NgSession → UInt8
  | .icmp s _ => if s.version = .v4 then ipprotoIcmp else ipprotoIcmpV6
  | .udp _ _ => ipprotoUdp
  | .tcp _ _ _ => ipprotoTcp

def NgSession.uid : NgSession → Int
  | .icmp s _ => s.uid
  | .udp s _ => s.uid
  | .tcp s _ _ => s.uid

def NgSession.udpFlow? : NgSession → Option Flow
  | .udp s _ => some s.toFlow
  | _ => none

end NetGuard.Engine
