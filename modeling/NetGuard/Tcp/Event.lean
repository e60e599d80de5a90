import NetGuard.Engine.TcpSegment
import NetGuard.Engine.TcpSocket
import NetGuard.Library.Run

/-! # The events of one TCP session

Everything the engine does to a TCP session after the SYN that opened it: a segment of
the app, a readiness event of the socket, the monitoring and the sweep of the event
loop, and the recheck when the rules change. Each comes with its own environment.
-/
namespace NetGuard.Engine

inductive TcpEvent
  | segment (tcphdr : TcpHdr) (data : Payload) (uid : Int) (allowed : Bool)
  | socket (ev : Events)
  | monitor
  | sweep (sessions maxsessions : Int)
  | recheck

def TcpEvent.handle (env : Env) (args : Arguments) : TcpEvent → Conn → Conn
  | .segment tcphdr data uid allowed, c =>
    if tcphdr.urg then c else handleSegment env tcphdr data uid allowed c
  | .socket ev, c => checkTcpSocket env args ev c
  | .monitor, c => if 0 ≤ c.socket then (monitorTcpSession env c).1 else c
  | .sweep sessions maxsessions, c => (checkTcpSession env sessions maxsessions c).1
  | .recheck, c => checkTcpAllowed env args c

/-- One dispatch: it starts with an empty trace, which is then put behind the history. -/
def Conn.step (args : Arguments) (c : Conn) (e : Env × TcpEvent) : Conn :=
  let d := e.2.handle e.1 args { c with out := [] }
  { d with out := c.out ++ d.out }

def Conn.run (args : Arguments) (c : Conn) (es : List (Env × TcpEvent)) : Conn :=
  es.foldl (Conn.step args) c

structure Syn where
  flow : Flow
  tcphdr : TcpHdr
  data : Payload
  mss : UInt16
  ws : UInt8
  uid : Int
  allowed : Bool

/-- The session right after its SYN was handled. -/
def Syn.Opens (args : Arguments) (syn : Syn) (c : Conn) : Prop :=
  ∃ env out, newTcpSession env args syn.flow syn.tcphdr syn.data syn.mss syn.ws syn.uid
    syn.allowed [] = (some c, out)

section Sample

def Syn.sample (seq : UInt32) (data : Payload) : Syn where
  flow := ⟨⟨.v4, [10, 0, 0, 2], [93, 184, 216, 34]⟩, 40000, 80⟩
  tcphdr := { TcpHdr.bare seq 0 1000 with syn := true }
  data := data
  mss := 1460
  ws := 0
  uid := 1000
  allowed := true

def Conn.sample (seq : UInt32) (data : Payload) : Conn where
  tcp := { synSession .calm (Syn.sample seq data).flow (Syn.sample seq data).tcphdr data 1460 0
      1000 [] with recvWindow := 65535 }
  socket := 7
  events := ⟨false, true, true⟩
  out := [.socket 7, .nonBlocking 7 true,
    .connect 7 [93, 184, 216, 34] 80 true, .probe 7, .epollCtl 7 ⟨false, true, true⟩ true]

theorem Syn.sample_opens (seq : UInt32) :
    (Syn.sample seq ⟨[], by decide⟩).Opens .direct (Conn.sample seq ⟨[], by decide⟩) := by
  have hbuffer : getReceiveBuffer 7 0 0 = 163840 := rfl
  refine ⟨.calm, (Conn.sample seq ⟨[], by decide⟩).out, ?_⟩
  simp [newTcpSession, openTcpSocket, probeBuffer, Env.calm, Arguments.proxy, Arguments.direct,
    Syn.sample, Conn.sample, Conn.emit, hbuffer, getReceiveWindow, synSession, toForward]

def TcpEvent.ready (epollIn epollOut : Bool) : TcpEvent := .socket ⟨epollIn, epollOut, false⟩

def TcpEvent.app (tcphdr : TcpHdr) (data : Payload) : TcpEvent := .segment tcphdr data 1000 true

def TcpHdr.acks (seq ackSeq : UInt32) (window : UInt16) : TcpHdr :=
  { TcpHdr.bare seq ackSeq window with ack := true }

theorem length_nil_lt : ([] : List UInt8).length < 2 ^ 16 := by decide

def connected (seq : UInt32) : List (Env × TcpEvent) :=
  [(.calm, .ready false true), (.calm, .app (.acks (seq + 1) 1 1000) ⟨[], length_nil_lt⟩)]

end Sample

end NetGuard.Engine
