import NetGuard.Engine.Tls
import NetGuard.Engine.TcpSegment
import NetGuard.Engine.Udp
import NetGuard.Engine.Icmp

/-! # Packets from the tun

`handle_ip` in the order of the source: the IP header, the ports, the session limit,
the uid, the server name, the verdict, and the handler of the protocol.
-/
namespace NetGuard.Engine

section Headers

def isLowerLayer (protocol : UInt8) : Bool := protocol ∈ [0, 60, 43, 44, 51, 50, 135]

def isUpperLayer (protocol : UInt8) : Bool :=
  protocol ∈ [ipprotoTcp, ipprotoUdp, ipprotoIcmp, ipprotoIcmpV6]

/-- What the IP header says: the upper protocol and where the payload starts. -/
structure IpHdr where
  version : IpVersion
  protocol : UInt8
  payload : Nat

/-- Whether a packet goes on, is dropped, or keeps the parser in a loop. -/
inductive Parsed (α : Type)
  | ok (a : α)
  | drop
  | hang

def androidLogWarn : Int := 5

def parseIp4 (args : Arguments) (p : Packet) : Parsed IpHdr :=
  if p.length < 20 then .drop
  else if p.fragOff &&& ipMf ≠ 0 then .drop
  else if (p.be16 2).toNat ≠ p.length then .drop
  else if args.loglevel < androidLogWarn ∧ calcChecksum 0 (p.slice 0 20) = 0 then .drop
  else .ok ⟨.v4, p.mem 9, 20 + p.ipoptlen.toNat⟩

/-- The loop over extension headers, from the offset `off` and the protocol found so
far. It can visit 65536 offsets; `none` is the loop that comes back to one of them. -/
def skipExtensions (p : Packet) : Nat → UInt16 → UInt8 → Option (UInt16 × UInt8)
  | 0, _, _ => none
  | fuel + 1, off, protocol =>
    let nxt := p.mem off.toNat
    if isLowerLayer nxt && !isUpperLayer protocol then
      skipExtensions p fuel (off + (8 + (p.mem (off.toNat + 1)).toUInt16)) nxt
    else some (off, protocol)

def parseIp6 (p : Packet) : Parsed IpHdr :=
  if p.length < 40 then .drop
  else
    let protocol := p.mem 6
    if isUpperLayer protocol then .ok ⟨.v6, protocol, 40⟩
    else
      match skipExtensions p 65537 40 protocol with
      | none => .hang
      | some (off, last) =>
        if isUpperLayer last then .ok ⟨.v6, last, 40 + off.toNat⟩
        else .ok ⟨.v6, protocol, 40⟩

def parseIp (args : Arguments) (p : Packet) : Parsed IpHdr :=
  if p.versionNibble = 4 then parseIp4 args p
  else if p.versionNibble = 6 then parseIp6 p
  else .drop

def IpHdr.isIcmp (h : IpHdr) : Bool := h.protocol = ipprotoIcmp || h.protocol = ipprotoIcmpV6

theorem IpHdr.isIcmp_udp {h : IpHdr} (hudp : h.protocol = ipprotoUdp) : h.isIcmp = false := by
  rw [IpHdr.isIcmp, hudp]
  rfl

theorem IpHdr.isIcmp_tcp {h : IpHdr} (htcp : h.protocol = ipprotoTcp) : h.isIcmp = false := by
  rw [IpHdr.isIcmp, htcp]
  rfl

theorem IpHdr.not_udp {h : IpHdr} (htcp : h.protocol = ipprotoTcp) : h.protocol ≠ ipprotoUdp := by
  rw [htcp]
  decide

def IpHdr.minLength (h : IpHdr) : UInt64 :=
  if h.isIcmp then 8
  else if h.protocol = ipprotoUdp then 8
  else if h.protocol = ipprotoTcp then 20
  else 0

def IpHdr.tooShort (h : IpHdr) (p : Packet) : Bool := p.sizeFrom h.payload < h.minLength

def IpHdr.ports (h : IpHdr) (p : Packet) : UInt16 × UInt16 :=
  if h.isIcmp then (p.be16 (h.payload + 4), p.be16 (h.payload + 4))
  else if h.protocol = ipprotoUdp ∨ h.protocol = ipprotoTcp then
    (p.be16 h.payload, p.be16 (h.payload + 2))
  else (0, 0)

def IpHdr.syn (h : IpHdr) (p : Packet) : Bool :=
  h.protocol = ipprotoTcp && (p.tcphdr h.payload).syn

def IpHdr.query (h : IpHdr) (p : Packet) : Query :=
  ⟨h.version, h.protocol, p.saddr h.version, (h.ports p).1, p.daddr h.version, (h.ports p).2⟩

end Headers

section Uid
variable (p : Packet) (version : IpVersion) (payload : Nat)

/-- The test of `get_uid_from_session` for one entry: an ICMP entry is compared by
its hosts, a TCP or UDP entry also by the first two words of the payload. -/
def NgSession.matchesUid : NgSession → Bool
  | .icmp s _ => !s.stop && s.toEndpoints = (p.flow payload version).toEndpoints
  | .tcp s _ _ => s.toFlow = p.flow payload version
  | .udp s _ => s.toFlow = p.flow payload version

def getUidFromSession : List NgSession → Int
  | [] => -1
  | cur :: rest =>
    if cur.matchesUid p version payload then cur.uid else getUidFromSession rest

end Uid

section Verdict
variable (env : Env) (args : Arguments) (p : Packet) (h : IpHdr)

def overLimit (sessions maxsessions : Int) (list : List NgSession) : Bool :=
  sessions ≥ maxsessions &&
    (h.isIcmp || (h.protocol = ipprotoUdp && !hasUdpSession p h.version h.payload list) ||
      (h.protocol = ipprotoTcp && h.syn p))

/-- The uid of the packet: its session's, the system's, or a remembered one. (`get_uid`
reads `/proc/net`, `get_uid_q` asks the service: either way the answer is outside.) -/
def packetUid (ctx : Context) : Int × Context :=
  let uid := getUidFromSession p h.version h.payload ctx.ngSession
  if uid < 0 then
    let q := h.query p
    let uid := env.getUid ctx.out q
    let ctx := ctx.emit (.upcall (.getUid q))
    if uid < 0 then (env.getUidCached ctx.out q, ctx.emit (.upcall (.getUidCached q)))
    else (uid, ctx.emit (.upcall (.cacheUid q uid)))
  else (uid, ctx)

def serverName (uid : Int) (ctx : Context) : List UInt8 × Context :=
  if h.protocol = ipprotoTcp then
    let data := p.tcpData h.payload
    match parseSni (fun i => p.mem (data + i)) (p.datalen data) with
    | some name =>
      (cString name, ctx.emit (.upcall (.sniResolved (cString name) (h.query p) uid)))
    | none => ([], ctx)
  else ([], ctx)

/-- `allowed` and `blockedQuic`, with the calls that decide them. -/
def checkAllowedPacket (uid : Int) (name : List UInt8) (ctx : Context) :
    Bool × Bool × Context :=
  let q := h.query p
  let quic := h.protocol = ipprotoUdp ∧ q.dport = 443 ∧ uid > 0
  let blockedQuic := quic && env.isQuicBlocked ctx.out uid
  let ctx := if quic then ctx.emit (.upcall (.isQuicBlocked uid)) else ctx
  if blockedQuic then (false, true, ctx)
  else
    let allowed := env.isAddressAllowed ctx.out q uid
    let ctx := ctx.emit (.upcall (.isAddressAllowed q uid))
    if allowed && !name.isEmpty then
      (!env.isDomainBlocked ctx.out uid name, false,
        ctx.emit (.upcall (.isDomainBlocked uid name)))
    else (allowed, false, ctx)

def handleAllowed (uid : Int) (ctx : Context) : Context :=
  if h.isIcmp then handleIcmp env args p h.version h.payload uid ctx
  else if h.protocol = ipprotoUdp then handleUdp env args p h.version h.payload uid ctx
  else if h.protocol = ipprotoTcp then handleTcp env args p h.version h.payload uid true ctx
  else ctx

def handleBlocked (uid : Int) (allowed : Bool) (ctx : Context) : Context :=
  if h.protocol = ipprotoUdp then blockUdp env p h.version h.payload uid ctx
  else if h.protocol = ipprotoTcp then handleTcp env args p h.version h.payload uid allowed ctx
  else ctx

def judgePacket (ctx : Context) : Int × Bool × Bool × Context :=
  let (uid, ctx) := packetUid env p h ctx
  let (name, ctx) := serverName p h uid ctx
  let (allowed, blockedQuic, ctx) := checkAllowedPacket env p h uid name ctx
  (uid, allowed, blockedQuic, ctx)

def dispatchPacket (uid : Int) (allowed blockedQuic : Bool) (ctx : Context) : Context :=
  if allowed || (args.observeOnly && !blockedQuic) then handleAllowed env args p h uid ctx
  else handleBlocked env args p h uid allowed ctx

def logOutgoing (uid : Int) (allowed : Bool) (ctx : Context) : Context :=
  if args.logTraffic then
    ctx.emit (.upcall (.logTraffic (h.query p) p.length uid allowed true))
  else ctx

end Verdict

def handleIp (env : Env) (args : Arguments) (p : Packet) (sessions maxsessions : Int)
    (ctx : Context) : Context :=
  match parseIp args p with
  | .drop => ctx
  | .hang => ctx.emit .hang
  | .ok h =>
    if h.tooShort p then ctx
    else if overLimit p h sessions maxsessions ctx.ngSession then ctx
    else
      let (uid, allowed, blockedQuic, ctx) := judgePacket env p h ctx
      logOutgoing args p h uid allowed (dispatchPacket env args p h uid allowed blockedQuic ctx)

end NetGuard.Engine
