import NetGuard.Engine.TcpWrite

/-! # TCP segments from the app

`queue_tcp`, `open_tcp_socket` and `handle_tcp`. The part of `handle_tcp` for a
session that was found is `handleSegment`, on the session alone; the part for a
SYN without a session is `newTcpSession`. Return values nobody reads are dropped.
-/
namespace NetGuard.Engine

def placeSegment (seq : UInt32) (psh : Bool) (data : Payload) : List Segment → List Segment
  | [] => [⟨seq, 0, psh, data⟩]
  | s :: rest =>
    if compareU32 s.seq seq < 0 then s :: placeSegment seq psh data rest
    else if compareU32 s.seq seq > 0 then ⟨seq, 0, psh, data⟩ :: s :: rest
    else if s.seq = seq ∧ s.len.toNat ≠ data.val.length then { s with data := data } :: rest
    else s :: rest

def queueTcp (cur : TcpSession) (tcphdr : TcpHdr) (data : Payload) : TcpSession :=
  if compareU32 tcphdr.seq cur.remoteSeq < 0 then cur
  else { cur with forward := placeSegment tcphdr.seq tcphdr.psh data cur.forward }

/-- Queueing changes nothing but the forward list. -/
theorem queueTcp_eq (cur : TcpSession) (tcphdr : TcpHdr) (data : Payload) :
    queueTcp cur tcphdr data = { cur with
      forward := if compareU32 tcphdr.seq cur.remoteSeq < 0 then cur.forward
        else placeSegment tcphdr.seq tcphdr.psh data cur.forward } := by
  unfold queueTcp
  split <;> rfl

theorem placeSegment_idem (seq : UInt32) (psh : Bool) (data : Payload) (queue : List Segment) :
    placeSegment seq psh data (placeSegment seq psh data queue) = placeSegment seq psh data queue := by
  have hself : compareU32 seq seq = 0 := by simp [compareU32]
  induction queue with
  | nil => simp [placeSegment, hself]
  | cons s rest ih =>
    by_cases hlt : compareU32 s.seq seq < 0
    · simp [placeSegment, hlt, ih]
    by_cases hgt : compareU32 s.seq seq > 0
    · simp [placeSegment, hlt, hgt, hself]
    by_cases heq : s.seq = seq ∧ s.len.toNat ≠ data.val.length
    · have hlen : (s.data.val.length = data.val.length) = False := by simpa using heq.2
      simp [placeSegment, heq.1, hlen, hself]
    · simp only [placeSegment, hlt, hgt, heq, if_false]

theorem queueTcp_idem (cur : TcpSession) (tcphdr : TcpHdr) (data : Payload) :
    queueTcp (queueTcp cur tcphdr data) tcphdr data = queueTcp cur tcphdr data := by
  by_cases h : compareU32 tcphdr.seq cur.remoteSeq < 0 <;>
    simp [queueTcp_eq, h, placeSegment_idem]

section Known
variable (env : Env) (tcphdr : TcpHdr)

def handleFin (c : Conn) : Conn :=
  match c.tcp.state with
  | .established =>
    if c.tcp.forward.isEmpty then
      let (c, written) := writeAck env { c with tcp.remoteSeq := c.tcp.remoteSeq + 1 }
      if written then c.setState .closeWait else c
    else c.setState .closeWait
  | .finWait1 =>
    let (c, written) := writeAck env { c with tcp.remoteSeq := c.tcp.remoteSeq + 1 }
    if written then c.setState .close else c
  | _ => c

def handleAck (c : Conn) : Conn :=
  let c := { c with tcp.acked := tcphdr.ackSeq }
  match c.tcp.state with
  | .synRecv => c.setState .established
  | .lastAck => c.setState .closing
  | _ => c

def handleOtherAck (c : Conn) : Conn :=
  let ack := tcphdr.ackSeq
  if ack + 1 = c.tcp.localSeq then c
  else if compareU32 ack c.tcp.localSeq < 0 then
    if compareU32 ack c.tcp.acked ≤ 0 then c else { c with tcp.acked := ack }
  else writeRst env c

def handleFlags (c : Conn) : Conn :=
  if tcphdr.rst then c.setState .closing
  else if !tcphdr.ack || tcphdr.ackSeq == c.tcp.localSeq then
    if tcphdr.syn then c
    else if tcphdr.fin then handleFin env c
    else if tcphdr.ack then handleAck tcphdr c
    else c
  else handleOtherAck env tcphdr c

def handleOpen (data : Payload) (c : Conn) : Conn :=
  let c := if tcphdr.syn then c else { c with tcp.time := env.time c.out }
  let c := { c with
    tcp.sendWindow := tcphdr.window.toUInt32 <<< c.tcp.sendScale.toUInt32
    tcp.unconfirmed := 0 }
  if data.val.isEmpty then handleFlags env tcphdr c
  else if c.socket < 0 then writeRst env c
  else if c.tcp.state = .closeWait then writeRst env c
  else handleFlags env tcphdr { c with tcp := queueTcp c.tcp tcphdr data }

def handleSegment (data : Payload) (uid : Int) (allowed : Bool) (c : Conn) : Conn :=
  let c := if c.tcp.uid = -1 ∧ uid > 0 then { c with tcp.uid := uid } else c
  if !allowed then writeRst env c
  else if c.tcp.state = .closing ∨ c.tcp.state = .close then writeRst env c
  else handleOpen env tcphdr data c

end Known

section New

/-- The option loop. `none` is the loop that never ends: an option of length zero
leaves the pointer and the remaining length as they were. -/
def parseOptions (p : Packet) (options : Nat) (optlen : Int) (mss : UInt16) (ws : UInt8) :
    Option (UInt16 × UInt8) :=
  if optlen > 0 then
    let kind := p.mem options
    let len := (p.mem (options + 1)).toNat
    if kind = 0 then some (mss, ws)
    else
      let mss := if kind = 2 ∧ len = 4 then p.be16 (options + 2) else mss
      let ws := if kind = 3 ∧ len = 3 then p.mem (options + 2) else ws
      if kind = 1 then parseOptions p (options + 1) (optlen - 1) mss ws
      else if len = 0 then none
      else parseOptions p (options + len) (optlen - len) mss ws
  else some (mss, ws)
termination_by optlen.toNat

variable (env : Env) (args : Arguments)

/-- `open_tcp_socket`: the descriptor or -1, and the calls made. -/
def openTcpSocket (cur : TcpSession) (out : Trace) : Int × Trace :=
  let sock := env.socket out
  let out := out ++ [.socket sock]
  if sock < 0 then (-1, out)
  else
    let (isProtected, out) := protectSocket env args sock out
    if !isProtected then (-1, out)
    else
      let nonBlocking := env.nonBlocking out
      let out := out ++ [.nonBlocking sock nonBlocking]
      if !nonBlocking then (-1, out)
      else
        let connected := env.connect out
        let out := out ++ [if args.proxy
          then .connect sock args.socks5Addr (UInt16.ofNat args.socks5Port.toNat) connected
          else .connect sock cur.daddr cur.dest connected]
        if !connected then (-1, out) else (sock, out)

theorem openTcpSocket_eq (cur : TcpSession) (out : Trace) :
    openTcpSocket env args cur out =
      let sock := env.socket out
      let out := out ++ [.socket sock]
      if sock < 0 then (-1, out)
      else
        let nonBlocking := env.nonBlocking out
        let out := out ++ [.nonBlocking sock nonBlocking]
        if !nonBlocking then (-1, out)
        else
          let connected := env.connect out
          let out := out ++ [if args.proxy
            then .connect sock args.socks5Addr (UInt16.ofNat args.socks5Port.toNat) connected
            else .connect sock cur.daddr cur.dest connected]
          if !connected then (-1, out) else (sock, out) := by
  simp only [openTcpSocket, protectSocket_eq, Bool.not_true, Bool.false_eq_true, if_false]

def synSession (flow : Flow) (tcphdr : TcpHdr) (data : Payload) (mss : UInt16) (ws : UInt8)
    (uid : Int) (out : Trace) : TcpSession :=
  let isn := env.rand out
  { flow with
    uid := uid
    time := env.time out
    mss := mss
    recvScale := ws
    sendScale := ws
    recvWindow := 0
    sendWindow := tcphdr.window.toUInt32 <<< ws.toUInt32
    unconfirmed := 0
    remoteSeq := tcphdr.seq
    localSeq := isn
    remoteStart := tcphdr.seq
    localStart := isn
    acked := 0
    lastKeepAlive := 0
    sent := 0
    received := 0
    state := .listen
    socks5 := .none
    forward := if data.val.isEmpty then [] else [⟨tcphdr.seq, 0, tcphdr.psh, data⟩] }

/-- The session of a SYN with its socket, or `none` when no socket was opened. -/
def newTcpSession (flow : Flow) (tcphdr : TcpHdr) (data : Payload) (mss : UInt16) (ws : UInt8)
    (uid : Int) (allowed : Bool) (out : Trace) : Option Conn × Trace :=
  let s := synSession env flow tcphdr data mss ws uid out
  let (sock, out) := openTcpSocket env args s out
  if sock < 0 then (none, out)
  else
    let events : Events := ⟨false, true, true⟩
    let (buffer, c) := probeBuffer env ⟨s, sock, events, out⟩
    let c := { c with tcp.recvWindow := getReceiveWindow c.tcp buffer }
    let c := c.emit (.epollCtl sock events (env.epollCtl c.out))
    let c := if allowed then c else writeRst env c
    (some c, c.out)

def resetSession (flow : Flow) (tcphdr : TcpHdr) (datalen : UInt16) : TcpSession :=
  { flow with
    uid := 0
    time := 0
    mss := 0
    recvScale := 0
    sendScale := 0
    recvWindow := 0
    sendWindow := 0
    unconfirmed := 0
    remoteSeq := tcphdr.seq + datalen.toUInt32 + (if tcphdr.syn || tcphdr.fin then 1 else 0)
    localSeq := tcphdr.ackSeq
    remoteStart := 0
    localStart := 0
    acked := 0
    lastKeepAlive := 0
    sent := 0
    received := 0
    state := .unset
    socks5 := .failed
    forward := [] }

end New

def NgSession.isTcp (flow : Flow) : NgSession → Bool
  | .tcp s _ _ => s.toFlow = flow
  | _ => false

def handleTcp (env : Env) (args : Arguments) (p : Packet) (version : IpVersion) (payload : Nat)
    (uid : Int) (allowed : Bool) (ctx : Context) : Context :=
  let tcphdr := p.tcphdr payload
  let flow := p.flow payload version
  let data := p.payloadFrom (p.tcpData payload)
  if tcphdr.urg then ctx
  else
    match ctx.ngSession.span (fun s => !s.isTcp flow) with
    | (before, .tcp s sock events :: rest) =>
      let c := handleSegment (env.after ctx.out) tcphdr data uid allowed ⟨s, sock, events, []⟩
      ⟨before ++ .tcp c.tcp c.socket c.events :: rest, ctx.out ++ c.out⟩
    | _ =>
      if tcphdr.syn then
        match parseOptions p (payload + 20) tcphdr.tcpoptlen.toNat (getDefaultMss version) 0 with
        | none => ctx.emit .hang
        | some (mss, ws) =>
          match newTcpSession (env.after ctx.out) args flow tcphdr data mss ws uid allowed [] with
          | (none, out) => { ctx with out := ctx.out ++ out }
          | (some c, out) =>
            ⟨.tcp c.tcp c.socket c.events :: ctx.ngSession, ctx.out ++ out⟩
      else
        let rst := resetSession flow tcphdr (p.datalen (p.tcpData payload))
        let c := writeRst (env.after ctx.out) ⟨rst, -1, ⟨false, false, false⟩, []⟩
        { ctx with out := ctx.out ++ c.out }

end NetGuard.Engine
