import NetGuard.Engine.TcpWrite

/-! # TCP sockets: readiness, monitoring and timeouts

`check_tcp_socket`, `monitor_tcp_session` and `check_tcp_session`. The branches of
`check_tcp_socket` are one definition each, in the order the source runs them.
-/
namespace NetGuard.Engine

section Listen
variable (env : Env) (args : Arguments)

def socksFailed (c : Conn) : Conn := writeRst env { c with tcp.socks5 := .failed }

def socksReply (buffer : List UInt8) (c : Conn) : Conn :=
  let bytes := buffer.length
  let byte (i : Nat) : UInt8 := buffer.getD i 0
  if c.tcp.socks5 = .hello ∧ bytes = 2 ∧ byte 0 = 5 then
    if byte 1 = 0 then { c with tcp.socks5 := .connect }
    else if byte 1 = 2 then { c with tcp.socks5 := .auth }
    else socksFailed env c
  else if c.tcp.socks5 = .auth ∧ bytes = 2 ∧ (byte 0 = 1 ∨ byte 0 = 5) then
    if byte 1 = 0 then { c with tcp.socks5 := .connect } else socksFailed env c
  else if c.tcp.socks5 = .connect ∧ bytes = 6 + (if c.tcp.version = .v4 then 4 else 16) ∧
      byte 0 = 5 then
    if byte 1 = 0 then { c with tcp.socks5 := .connected } else socksFailed env c
  else socksFailed env c

/-- The `recv` of a SOCKS5 reply; end of file is a reply of no bytes. -/
def socksRecv (c : Conn) : Conn :=
  match env.recv c.out 32 with
  | .data bytes _ => socksReply env bytes (c.emit (.socksRecv c.socket bytes))
  | .eof => socksReply env [] (c.emit (.socksRecv c.socket []))
  | .retry | .failed => writeRst env (c.emit (.socksRecv c.socket []))

def socksSend (message : List UInt8) (c : Conn) : Conn :=
  match env.send c.out message.length with
  | .accepted n => c.emit (.socksSend c.socket message (some n))
  | .retry | .failed => writeRst env (c.emit (.socksSend c.socket message none))

def socksHello : List UInt8 := [5, 2, 0, 2]

def socksAuth : List UInt8 :=
  let user := args.socks5Username.val
  let pass := args.socks5Password.val
  [1, UInt8.ofNat user.length] ++ user ++ [UInt8.ofNat pass.length] ++ pass

def socksConnect (cur : TcpSession) : List UInt8 :=
  [5, 1, 0, if cur.version = .v4 then 1 else 4] ++ cur.daddr ++
    [UInt8.ofNat (cur.dest.toNat / 256), UInt8.ofNat cur.dest.toNat]

def confirmConnect (c : Conn) : Conn :=
  let (c, written) := writeSynAck env { c with tcp.remoteSeq := c.tcp.remoteSeq + 1 }
  if written then
    { c with
      tcp.time := env.time c.out
      tcp.localSeq := c.tcp.localSeq + 1
      tcp.state := .synRecv }
  else c

def socksNext (c : Conn) : Conn :=
  match c.tcp.socks5 with
  | .hello => socksSend env socksHello c
  | .auth => socksSend env (socksAuth args) c
  | .connect => socksSend env (socksConnect c.tcp) c
  | .connected => confirmConnect env c
  | _ => c

def checkListen (ev : Events) (c : Conn) : Conn :=
  let c :=
    if c.tcp.socks5 = .none then
      if ev.epollOut then
        { c with tcp.socks5 := if args.proxy then .hello else .connected }
      else c
    else if ev.epollIn then socksRecv env c
    else c
  socksNext env args c

end Listen

section Forward
variable (env : Env)

/-- The loop that forwards queued data. The first argument is the forward list; the
session's own field is written when the loop is left. The flag is `fwd`. -/
def forwardLoop : List Segment → Conn → UInt32 → Bool → Conn × Bool
  | [], c, _, fwd => ({ c with tcp.forward := [] }, fwd)
  | seg :: rest, c, bufferSize, fwd =>
    if seg.seq = c.tcp.remoteSeq ∧ seg.unsent < bufferSize then
      let offered := seg.data.val.drop seg.sent.toNat
      let seq := seg.seq + seg.sent.toUInt32
      match env.send c.out offered.length with
      | .retry =>
        ({ c.emit (.send c.socket seq offered none) with tcp.forward := seg :: rest }, fwd)
      | .failed =>
        (writeRst env { c.emit (.send c.socket seq offered none) with
          tcp.forward := seg :: rest }, fwd)
      | .accepted n =>
        let c := c.emit (.send c.socket seq offered (some n))
        let c := { c with tcp.sent := c.tcp.sent + UInt64.ofNat n }
        let seg := { seg with sent := seg.sent + UInt16.ofNat n }
        if seg.len = seg.sent then
          forwardLoop rest { c with tcp.remoteSeq := seg.seq + seg.sent.toUInt32 }
            (bufferSize - UInt32.ofNat n) true
        else ({ c with tcp.forward := seg :: rest }, true)
    else ({ c with tcp.forward := seg :: rest }, fwd)

def forwardData (ev : Events) (c : Conn) : Conn × Bool :=
  if ev.epollOut then
    let (bufferSize, c) := probeBuffer env c
    forwardLoop env c.tcp.forward c bufferSize false
  else (c, false)

def confirmForward (fwd : Bool) (c : Conn) : Conn :=
  let c :=
    if fwd ∧ c.tcp.forward.isEmpty ∧ c.tcp.state = .closeWait then
      { c with tcp.remoteSeq := c.tcp.remoteSeq + 1 }
    else c
  let (c, written) := writeAck env c
  if written then { c with tcp.time := env.time c.out } else c

def updateWindow (fwd : Bool) (c : Conn) : Conn :=
  let (buffer, c) := probeBuffer env c
  let window := getReceiveWindow c.tcp buffer
  let prev := c.tcp.recvWindow
  let c := { c with tcp.recvWindow := window }
  if fwd ∨ (prev = 0 ∧ window > 0) then confirmForward env fwd c else c

end Forward

section Read
variable (env : Env) (args : Arguments)

def readEof (c : Conn) : Conn :=
  let c :=
    if c.tcp.forward.isEmpty then
      let (c, written) := writeFinAck env c
      let c := if written then { c with tcp.localSeq := c.tcp.localSeq + 1 } else c
      match c.tcp.state with
      | .established => c.setState .finWait1
      | .closeWait => c.setState .lastAck
      | _ => c
    else writeRst env c
  { c.emit (.close c.socket) with socket := -1 }

def TcpSession.query (cur : TcpSession) : Query :=
  ⟨cur.version, ipprotoTcp, cur.saddr, cur.source, cur.daddr, cur.dest⟩

/-- `log_traffic` of `length` received bytes, under the verdict it asks for. (The source
passes `udp.version` of the union to `get_uid_cached`; the answer is the service's.) -/
def logIncoming (q : Query) (length : Nat) (uid : Int) (out : Trace) : Trace :=
  if args.logTraffic then
    let (uid, out) :=
      if uid < 0 then (env.getUidCached out q, out ++ [.upcall (.getUidCached q)]) else (uid, out)
    let allowed := env.isAddressAllowed out q uid
    out ++ [.upcall (.isAddressAllowed q uid), .upcall (.logTraffic q length uid allowed false)]
  else out

theorem logIncoming_upcalls (q : Query) (length : Nat) (uid : Int) (out : Trace) :
    ∃ os, logIncoming env args q length uid out = out ++ os ∧
      ∀ o ∈ os, ∃ u, o = .upcall u := by
  unfold logIncoming
  split
  · by_cases huid : uid < 0
    · simp only [if_pos huid, List.append_assoc]
      exact ⟨_, rfl, by simp⟩
    · simp only [if_neg huid]
      exact ⟨_, rfl, by simp⟩
  · exact ⟨[], by simp, by simp⟩

def inspectDns (buffer : List UInt8) (c : Conn) : Conn :=
  if c.tcp.dest = 53 ∧ buffer.length > 2 then
    c.emit (.upcall (.dnsResponse (buffer.drop 2) c.tcp.uid))
  else c

def forwardBytes (buffer : List UInt8) (c : Conn) : Conn :=
  let (c, written) := writeData env c buffer
  if written then
    { c with
      tcp.localSeq := c.tcp.localSeq + UInt32.ofNat buffer.length
      tcp.unconfirmed := c.tcp.unconfirmed + 1 }
  else c

def readData (buffer : List UInt8) (c : Conn) : Conn :=
  let c := { c with tcp.received := c.tcp.received + UInt64.ofNat buffer.length }
  let c := forwardBytes env buffer (inspectDns buffer c)
  { c with out := logIncoming env args c.tcp.query buffer.length c.tcp.uid c.out }

def readSize (cur : TcpSession) : UInt32 :=
  let sendWindow := getSendWindow cur
  if sendWindow > cur.mss.toUInt32 then cur.mss.toUInt32 else sendWindow

def readSocket (ev : Events) (c : Conn) : Conn :=
  if ev.epollIn ∧ getSendWindow c.tcp > 0 then
    let c := { c with tcp.time := env.time c.out }
    match env.recv c.out (readSize c.tcp).toNat with
    | .data bytes _ => readData env args bytes (c.emit (.recv c.socket bytes))
    | .eof => readEof env (c.emit (.recv c.socket []))
    | .retry => c.emit (.recv c.socket [])
    | .failed => writeRst env (c.emit (.recv c.socket []))
  else c

def checkOpen (ev : Events) (c : Conn) : Conn :=
  let (c, fwd) := forwardData env ev c
  let c := updateWindow env fwd c
  if c.tcp.state = .established ∨ c.tcp.state = .closeWait then readSocket env args ev c else c

end Read

def checkTcpSocket (env : Env) (args : Arguments) (ev : Events) (c : Conn) : Conn :=
  if ev.epollErr then writeRst env { c with tcp.time := env.time c.out }
  else if c.tcp.state = .listen then checkListen env args ev c
  else checkOpen env args ev c

section Monitor
variable (env : Env)

def epollMinCheck : Int := 100

def keepAlive (c : Conn) : Conn :=
  let ms := env.ms c.out
  if ms - c.tcp.lastKeepAlive > epollMinCheck then
    let c := { c with
      tcp.lastKeepAlive := ms
      tcp.remoteSeq := c.tcp.remoteSeq - 1 }
    let (c, _) := writeAck env c
    { c with tcp.remoteSeq := c.tcp.remoteSeq + 1 }
  else c

def monitorEvents (c : Conn) : Events × Bool × Conn :=
  if c.tcp.state = .listen then
    (⟨c.tcp.socks5 ≠ .none, c.tcp.socks5 = .none, true⟩, false, c)
  else if c.tcp.state = .established ∨ c.tcp.state = .closeWait then
    let epollIn := getSendWindow c.tcp > 0
    let c := if epollIn then c else keepAlive env c
    match c.tcp.forward with
    | [] => (⟨epollIn, false, true⟩, !epollIn, c)
    | seg :: _ =>
      let (bufferSize, c) := probeBuffer env c
      let epollOut := seg.seq = c.tcp.remoteSeq ∧ seg.unsent < bufferSize
      (⟨epollIn, epollOut, true⟩, !epollIn || !epollOut, c)
  else (⟨false, false, true⟩, false, c)

def monitorTcpSession (c : Conn) : Conn × Bool :=
  let (events, recheck, c) := monitorEvents env c
  if events ≠ c.events then
    let modified := env.epollCtl c.out
    let c := { c.emit (.epollCtl c.socket events modified) with events := events }
    (if modified then c else c.setState .closing, recheck)
  else (c, recheck)

/-- `100 - sessions * 100 / maxsessions` percent of a timeout, in `int`. A division by 0 gives 0,
as on ARM; on x86 it ends the process. -/
def scaleTimeout (timeout sessions maxsessions : Int) : Int :=
  (timeout * (100 - (sessions * 100).tdiv maxsessions)).tdiv 100

def getTcpTimeout (t : TcpSession) (sessions maxsessions : Int) : Int :=
  let timeout := match t.state with
    | .listen | .synRecv => 20
    | .established => 3600
    | _ => 20
  scaleTimeout timeout sessions maxsessions

def tcpKeepTimeout : Int := 300

def closeSession (c : Conn) : Conn :=
  if c.tcp.state = .closing then
    let c := if c.socket ≥ 0 then { c.emit (.close c.socket) with socket := -1 } else c
    { c with tcp.time := env.time c.out, tcp.state := .close }
  else c

def checkTcpSession (sessions maxsessions : Int) (c : Conn) : Conn × Bool :=
  let now := env.time c.out
  let timeout := getTcpTimeout c.tcp sessions maxsessions
  let c :=
    if c.tcp.state ≠ .closing ∧ c.tcp.state ≠ .close ∧ c.tcp.time + timeout < now then
      if c.tcp.state = .listen then c.setState .closing else writeRst env c
    else c
  let c := closeSession env c
  let c :=
    if c.tcp.state = .closing ∨ c.tcp.state = .close then
      { c with tcp.sent := 0, tcp.received := 0 }
    else c
  (c, c.tcp.state = .close ∧ c.tcp.time + tcpKeepTimeout < now)

def checkTcpAllowed (args : Arguments) (c : Conn) : Conn :=
  if c.tcp.state = .closing ∨ c.tcp.state = .close ∨ args.observeOnly then c
  else
    let allowed := env.isAddressAllowed c.out c.tcp.query c.tcp.uid
    let c := c.emit (.upcall (.isAddressAllowed c.tcp.query c.tcp.uid))
    if allowed then c else writeRst env c

end Monitor

end NetGuard.Engine
