import NetGuard.Engine.Environment
import NetGuard.Engine.Packet

/-! # Writing TCP segments to the tun

A TCP session is handled together with its socket, the events it is watched for
and the trace of the dispatch. The writers are those of `tcp.c`.
-/
namespace NetGuard.Engine

structure Conn where
  tcp : TcpSession
  socket : Int
  events : Events
  out : Trace

def Conn.emit (c : Conn) (o : Output) : Conn := { c with out := c.out ++ [o] }

def Conn.setState (c : Conn) (state : TcpState) : Conn := { c with tcp.state := state }

def writeTcp (env : Env) (c : Conn) (data : List UInt8) (syn ack fin rst : Bool) : Conn × Bool :=
  let written := env.tunWrite c.out
  (c.emit (.tun (.tcp c.tcp data syn ack fin rst) written), written)

def writeOrClose (env : Env) (c : Conn) (data : List UInt8) (syn fin : Bool) : Conn × Bool :=
  let (c, written) := writeTcp env c data syn true fin false
  if written then (c, true) else (c.setState .closing, false)

def writeSynAck (env : Env) (c : Conn) : Conn × Bool := writeOrClose env c [] true false
def writeAck (env : Env) (c : Conn) : Conn × Bool := writeOrClose env c [] false false
def writeData (env : Env) (c : Conn) (buffer : List UInt8) : Conn × Bool :=
  writeOrClose env c buffer false false
def writeFinAck (env : Env) (c : Conn) : Conn × Bool := writeOrClose env c [] false true

/-- The sequence number a reset of a session in `LISTEN` acknowledges. -/
def countSyn (c : Conn) : Conn :=
  if c.tcp.state = .listen then { c with tcp.remoteSeq := c.tcp.remoteSeq + 1 } else c

def writeRst (env : Env) (c : Conn) : Conn :=
  let ack := c.tcp.state == .listen
  let (c, _) := writeTcp env (countSyn c) [] false ack false true
  if c.tcp.state = .close then c else c.setState .closing

def getSendWindow (cur : TcpSession) : UInt32 :=
  let behind :=
    if cur.acked ≤ cur.localSeq then cur.localSeq - cur.acked
    else 0x10000 + cur.localSeq - cur.acked
  let behind := behind + (cur.unconfirmed.toUInt32 + 1) * 40
  if behind < cur.sendWindow then cur.sendWindow - behind else 0

/-- `get_receive_buffer` for a socket with the given `SO_SNDBUF` and `SIOCOUTQ`. -/
def getReceiveBuffer (socket : Int) (sendBuf unsent : Fin (2 ^ 31)) : UInt32 :=
  if socket < 0 then 0
  else
    let sendBuf := if sendBuf.val = 0 then 163840 else sendBuf.val
    if unsent.val < sendBuf then UInt32.ofNat (sendBuf - unsent.val) else 0

def probeBuffer (env : Env) (c : Conn) : UInt32 × Conn :=
  (getReceiveBuffer c.socket (env.sendBuf c.out) (env.unsent c.out), c.emit (.probe c.socket))

/-- `toforward` of `get_receive_window`, a `uint32_t` sum. -/
def toForward (queue : List Segment) : UInt32 := queue.foldl (fun sum q => sum + q.unsent) 0

def getReceiveWindow (cur : TcpSession) (window : UInt32) : UInt32 :=
  let max : UInt32 := 0xFFFF <<< cur.recvScale.toUInt32
  let window := if window > max then max else window
  if toForward cur.forward < window then window - toForward cur.forward else 0

end NetGuard.Engine
