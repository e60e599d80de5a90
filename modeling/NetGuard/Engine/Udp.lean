import NetGuard.Engine.TcpSocket

/-! # UDP sessions

`udp.c` and `check_dhcp`. A datagram to or from the DHCP ports may be answered by the
engine itself, which overwrites the source address of its session.
-/
namespace NetGuard.Engine

def getUdpTimeout (u : UdpSession) (sessions maxsessions : Int) : Int :=
  scaleTimeout (if u.dest = 53 then 15 else 300) sessions maxsessions

def udpKeepTimeout : Int := 60

section Entry

structure Datagram where
  udp : UdpSession
  socket : Int
  out : Trace

def Datagram.emit (d : Datagram) (o : Output) : Datagram := { d with out := d.out ++ [o] }

variable (env : Env) (args : Arguments)

/-- `check_udp_session`: the session afterwards and whether to delete it. -/
def checkUdpSession (sessions maxsessions : Int) (d : Datagram) : Datagram × Bool :=
  let now := env.time d.out
  let timeout := getUdpTimeout d.udp sessions maxsessions
  let d :=
    if d.udp.state = .active ∧ d.udp.time + timeout < now then
      { d with udp.state := .finishing }
    else d
  let d :=
    if d.udp.state = .finishing then
      let d := { d.emit (.close d.socket) with socket := -1 }
      { d with udp.time := env.time d.out, udp.state := .closed }
    else d
  let d :=
    if d.udp.state = .closed then { d with udp.sent := 0, udp.received := 0 } else d
  (d, (d.udp.state = .closed ∨ d.udp.state = .blocked) ∧ d.udp.time + udpKeepTimeout < now)

def writeUdp (data : List UInt8) (d : Datagram) : Datagram × Bool :=
  let written := env.tunWrite d.out
  (d.emit (.tun (.udp d.udp data) written), written)

def UdpSession.query (cur : UdpSession) : Query :=
  ⟨cur.version, ipprotoUdp, cur.saddr, cur.source, cur.daddr, cur.dest⟩

def readDatagram (buffer : List UInt8) (d : Datagram) : Datagram :=
  let d := { d with udp.received := d.udp.received + UInt64.ofNat buffer.length }
  let d :=
    if d.udp.dest = 53 then d.emit (.upcall (.dnsResponse buffer d.udp.uid)) else d
  let (d, written) := writeUdp env buffer d
  let d := if !written || d.udp.dest == 53 then { d with udp.state := .finishing } else d
  { d with out := logIncoming env args d.udp.query buffer.length d.udp.uid d.out }

def checkUdpSocket (ev : Events) (d : Datagram) : Datagram :=
  if ev.epollErr then { d with udp.time := env.time d.out, udp.state := .finishing }
  else if ev.epollIn then
    let d := { d with udp.time := env.time d.out }
    match env.recv d.out d.udp.mss.toNat with
    | .data bytes _ => readDatagram env args bytes (d.emit (.recv d.socket bytes))
    | .eof | .failed => { d.emit (.recv d.socket []) with udp.state := .finishing }
    | .retry => d.emit (.recv d.socket [])
  else d

def openUdpSocket (out : Trace) : Int × Trace :=
  let sock := env.socket out
  let out := out ++ [.socket sock]
  if sock < 0 then (-1, out)
  else
    let (isProtected, out) := protectSocket env args sock out
    (if isProtected then sock else -1, out)

theorem openUdpSocket_eq (out : Trace) : openUdpSocket env args out =
    (if env.socket out < 0 then -1 else env.socket out, out ++ [.socket (env.socket out)]) := by
  simp only [openUdpSocket, protectSocket_eq]
  split <;> rfl

theorem openUdpSocket_nonneg {out : Trace} :
    0 ≤ (openUdpSocket env args out).1 ↔ 0 ≤ env.socket out := by
  rw [openUdpSocket_eq]
  split <;> omega

end Entry

section Dhcp

def dhcpPacketSize : Nat := 240

def dhcpMagicNumber : List UInt8 := [0x63, 0x82, 0x53, 0x63]

def isDhcp (data : List UInt8) : Bool :=
  dhcpPacketSize ≤ data.length && (data.drop 236).take 4 == dhcpMagicNumber &&
    data.getD 1 0 == 1 && data.getD 2 0 == 6

/-- `inet_pton(AF_INET, "10.1.10.1", ..)` into the source address union. -/
def dhcpServer : Address := [10, 1, 10, 1]

def dhcpSiaddrZero (data : List UInt8) : Bool := (data.drop 20).take 4 == [0, 0, 0, 0]

def dhcpHeader (data : List UInt8) : List UInt8 :=
  [if dhcpSiaddrZero data then 2 else 4] ++ (data.take 8).drop 1 ++ [0, 0, 0, 0] ++
    [0, 0, 0, 0] ++ [10, 1, 10, 2] ++ [10, 1, 10, 1] ++ [0, 0, 0, 0] ++
    (data.take dhcpPacketSize).drop 28

/-- The 500 zeroed bytes with the fixed part at 0. `response + sizeof(...)` is pointer
arithmetic on the packet type, so the options go `240 * 240` bytes further on, behind
the 500 bytes that are sent. -/
def dhcpResponse (data : List UInt8) : List UInt8 :=
  dhcpHeader data ++ List.replicate (500 - dhcpPacketSize) 0

def checkDhcp (env : Env) (data : List UInt8) (d : Datagram) : Datagram × Bool :=
  if !isDhcp data then (d, false)
  else if data.getD 0 0 = 1 then
    let d := { d with udp.saddr := dhcpServer ++ d.udp.saddr.drop 4 }
    ((writeUdp env (dhcpResponse data) d).1, true)
  else (d, true)

end Dhcp

section Handle
variable (env : Env) (args : Arguments)

def NgSession.isUdp (flow : Flow) (s : NgSession) : Bool := s.udpFlow? = some flow

def hasUdpSession (p : Packet) (version : IpVersion) (payload : Nat) (sessions : List NgSession) :
    Bool :=
  let flow := p.flow payload version
  flow.dest = 53 || sessions.any (NgSession.isUdp flow)

def blockUdp (p : Packet) (version : IpVersion) (payload : Nat) (uid : Int) (ctx : Context) :
    Context :=
  let s : UdpSession := { p.flow payload version with
    time := env.time ctx.out
    uid := uid
    mss := 0
    sent := 0
    received := 0
    state := .blocked }
  { ctx with ngSession := .udp s (-1) :: ctx.ngSession }

def udpSession (flow : Flow) (uid : Int) (out : Trace) : UdpSession :=
  { flow with
    time := env.time out
    uid := uid
    mss := if flow.version = .v4 then 65535 - 20 - 8 else 65535 - 40 - 8
    sent := 0
    received := 0
    state := .active }

def newUdpSession (flow : Flow) (uid : Int) (out : Trace) : Option Datagram × Trace :=
  let s := udpSession env flow uid out
  let (sock, out) := openUdpSocket env args out
  if sock < 0 then (none, out)
  else
    let events : Events := ⟨true, false, true⟩
    let out := out ++ [.epollCtl sock events (env.epollCtl out)]
    (some ⟨s, sock, out⟩, out)

/-- `handle_udp` for an active session: DHCP is answered here, the rest is sent. -/
def forwardDatagram (flow : Flow) (data : List UInt8) (d : Datagram) : Datagram :=
  let (d, taken) :=
    if flow.source = 68 ∨ flow.dest = 67 then checkDhcp env data d else (d, false)
  if taken then d
  else
    let d := { d with udp.time := env.time d.out }
    let emitted (ok : Bool) := d.emit (.sendto d.socket d.udp.daddr d.udp.dest data ok)
    match env.sendto d.out with
    | .complete => { emitted true with udp.sent := d.udp.sent + UInt64.ofNat data.length }
    | .retry => emitted false
    | .failed => { emitted false with udp.state := .finishing }

def handleUdp (p : Packet) (version : IpVersion) (payload : Nat) (uid : Int) (ctx : Context) :
    Context :=
  let flow := p.flow payload version
  let data := p.slice (payload + 8) (p.sizeFrom (payload + 8)).toNat
  match ctx.ngSession.span (fun s => !s.isUdp flow) with
  | (before, .udp s sock :: rest) =>
    if s.state ≠ .active then ctx
    else
      let s := if s.uid = -1 ∧ uid > 0 then { s with uid := uid } else s
      let d := forwardDatagram (env.after ctx.out) flow data ⟨s, sock, []⟩
      ⟨before ++ .udp d.udp d.socket :: rest, ctx.out ++ d.out⟩
  | _ =>
    match newUdpSession (env.after ctx.out) args flow uid [] with
    | (none, out) => { ctx with out := ctx.out ++ out }
    | (some d, _) =>
      let d := forwardDatagram (env.after ctx.out) flow data d
      ⟨.udp d.udp d.socket :: ctx.ngSession, ctx.out ++ d.out⟩

end Handle

end NetGuard.Engine
