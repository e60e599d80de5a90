import NetGuard.Tcp.Event

/-! # The moves a TCP session can make

Every handler of a TCP session is a chain of the moves below. A move says all that one
step of a handler can do to the session and under which guard, so that an invariant of
runs needs one case for each move and never looks into a handler.
-/
namespace NetGuard.Engine
open Relation (ReflTransGen)

/-- Calls that carry no byte of either stream and no packet to the tun. -/
def Output.quiet : Output → Bool
  | .probe _ | .epollCtl _ _ _ | .socksSend _ _ _ | .socksRecv _ _ | .upcall _ => true
  | .send _ _ _ accepted => accepted.isNone
  | .recv _ bytes => bytes.isEmpty
  | _ => false

def Conn.wrote (c : Conn) (data : List UInt8) (syn ack fin rst written : Bool)
    (state : TcpState) : Conn :=
  { c.emit (.tun (.tcp c.tcp data syn ack fin rst) written) with tcp.state := state }

section Fields
variable (c : Conn) (o : Output) (data : List UInt8) (syn ack fin rst written : Bool)
  (state : TcpState)

@[simp] theorem Conn.emit_tcp : (c.emit o).tcp = c.tcp := rfl
@[simp] theorem Conn.emit_socket : (c.emit o).socket = c.socket := rfl
@[simp] theorem Conn.emit_events : (c.emit o).events = c.events := rfl
@[simp] theorem Conn.emit_out : (c.emit o).out = c.out ++ [o] := rfl
@[simp] theorem Conn.wrote_tcp :
    (c.wrote data syn ack fin rst written state).tcp = { c.tcp with state := state } := rfl
@[simp] theorem Conn.wrote_socket :
    (c.wrote data syn ack fin rst written state).socket = c.socket := rfl
@[simp] theorem Conn.wrote_events :
    (c.wrote data syn ack fin rst written state).events = c.events := rfl
@[simp] theorem Conn.wrote_out : (c.wrote data syn ack fin rst written state).out =
    c.out ++ [.tun (.tcp c.tcp data syn ack fin rst) written] := rfl
@[simp] theorem Conn.setState_tcp : (c.setState state).tcp = { c.tcp with state := state } := rfl
@[simp] theorem Conn.setState_socket : (c.setState state).socket = c.socket := rfl
@[simp] theorem Conn.setState_out : (c.setState state).out = c.out := rfl

@[simp] theorem countSyn_tcp : (countSyn c).tcp = { c.tcp with
    remoteSeq := if c.tcp.state = .listen then c.tcp.remoteSeq + 1 else c.tcp.remoteSeq } := by
  unfold countSyn
  split <;> rfl

@[simp] theorem countSyn_socket : (countSyn c).socket = c.socket := by
  unfold countSyn
  split <;> rfl

@[simp] theorem countSyn_events : (countSyn c).events = c.events := by
  unfold countSyn
  split <;> rfl

@[simp] theorem countSyn_out : (countSyn c).out = c.out := by
  unfold countSyn
  split <;> rfl

end Fields

structure Arrival where
  tcphdr : TcpHdr
  data : Payload

/-- Why a handler runs: a segment to handle, a socket that can be written, or another
reason. -/
inductive Cause
  | segment (seg : Arrival)
  | writable
  | other

def Cause.isSegment : Cause → Bool
  | .segment _ => true
  | _ => false

/-- Which handlers make a call: the SOCKS5 dialogue belongs to the handshake, and data is
sent when the socket can be written. -/
def Output.Permitted (dial : Prop) (a : Cause) : Output → Prop
  | .socksSend _ _ _ | .socksRecv _ _ => dial
  | .send _ _ _ _ => a = .writable
  | _ => True

def Events.cause (ev : Events) : Cause := if ev.epollOut then .writable else .other

/-- What the segment carries was dealt with, so that its flags come next. -/
def Arrival.Admitted (seg : Arrival) (c : Conn) : Prop :=
  seg.data.val = [] ∨ (0 ≤ c.socket ∧ queueTcp c.tcp seg.tcphdr seg.data = c.tcp)

/-- The segment has a FIN that `handle_tcp` looks at. -/
def Arrival.FinTaken (seg : Arrival) (c : Conn) : Prop :=
  seg.tcphdr.fin = true ∧ seg.tcphdr.rst = false ∧ seg.tcphdr.syn = false ∧
    (seg.tcphdr.ack = false ∨ seg.tcphdr.ackSeq = c.tcp.localSeq)

/-- A session within a handler; `fwd` tells whether the handler forwarded data that it
has not acknowledged yet. -/
structure Stage where
  conn : Conn
  fwd : Bool

/-- One move of a handler; only a handler that may `dial` goes on with the handshake. -/
inductive Act (dial : Prop) (a : Cause) : Stage → Stage → Prop
  | tidy {c fwd} (uid time : Int) (recvWindow : UInt32) (sent received : UInt64)
      (lastKeepAlive : Int) (socks5 : Socks5) (events : Events)
      (hsocks : socks5 = .connected → c.tcp.socks5 = .connected)
      (hdial : dial ∨ socks5 = c.tcp.socks5) :
      Act dial a ⟨c, fwd⟩ ⟨{ c with
        tcp := { c.tcp with uid, time, recvWindow, sent, received, lastKeepAlive, socks5 }
        events }, fwd⟩
  | quiet {c fwd} (o : Output) (ho : o.quiet = true) (hpermitted : o.Permitted dial a) :
      Act dial a ⟨c, fwd⟩ ⟨c.emit o, fwd⟩
  | window {c fwd seg} (ha : a = .segment seg) :
      Act dial a ⟨c, fwd⟩ ⟨{ c with
        tcp.sendWindow := seg.tcphdr.window.toUInt32 <<< c.tcp.sendScale.toUInt32
        tcp.unconfirmed := 0 }, fwd⟩
  | queue {c fwd seg} (ha : a = .segment seg) (hdata : seg.data.val ≠ []) (hsocket : 0 ≤ c.socket)
      (hstate : c.tcp.state ≠ .closeWait ∧ c.tcp.state ≠ .closing ∧ c.tcp.state ≠ .close) :
      Act dial a ⟨c, fwd⟩ ⟨{ c with tcp := queueTcp c.tcp seg.tcphdr seg.data }, fwd⟩
  | abort {c fwd} : Act dial a ⟨c, fwd⟩ ⟨c.setState .closing, fwd⟩
  | reset {c fwd} (written : Bool) :
      Act dial a ⟨c, fwd⟩ ⟨(countSyn c).wrote [] false (c.tcp.state == .listen) false true written
        (if c.tcp.state = .close then .close else .closing), fwd⟩
  | countFin {c fwd seg} (ha : a = .segment seg) (hfin : seg.FinTaken c) (hadmitted : seg.Admitted c)
      (hstate : c.tcp.state = .established) (hforward : c.tcp.forward = []) (written : Bool) :
      Act dial a ⟨c, fwd⟩ ⟨{ c with tcp.remoteSeq := c.tcp.remoteSeq + 1 }.wrote [] false true false
        false written (if written then .closeWait else .closing), fwd⟩
  | holdFin {c fwd seg} (ha : a = .segment seg) (hfin : seg.FinTaken c) (hadmitted : seg.Admitted c)
      (hstate : c.tcp.state = .established) (hforward : c.tcp.forward ≠ []) :
      Act dial a ⟨c, fwd⟩ ⟨c.setState .closeWait, fwd⟩
  | lastFin {c fwd seg} (ha : a = .segment seg) (hfin : seg.FinTaken c) (hadmitted : seg.Admitted c)
      (hstate : c.tcp.state = .finWait1) (written : Bool) :
      Act dial a ⟨c, fwd⟩ ⟨{ c with tcp.remoteSeq := c.tcp.remoteSeq + 1 }.wrote [] false true false
        false written (if written then .close else .closing), fwd⟩
  | ackAll {c fwd seg} (ha : a = .segment seg) (hfin : seg.tcphdr.fin = false)
      (hack : seg.tcphdr.ackSeq = c.tcp.localSeq) (state : TcpState) (hstate : state = c.tcp.state ∨
        (c.tcp.state = .synRecv ∧ state = .established) ∨
        (c.tcp.state = .lastAck ∧ state = .closing)) :
      Act dial a ⟨c, fwd⟩ ⟨{ c with tcp.acked := seg.tcphdr.ackSeq, tcp.state := state }, fwd⟩
  | ackSome {c fwd seg} (ha : a = .segment seg)
      (hlocal : compareU32 seg.tcphdr.ackSeq c.tcp.localSeq < 0)
      (hacked : 0 < compareU32 seg.tcphdr.ackSeq c.tcp.acked) :
      Act dial a ⟨c, fwd⟩ ⟨{ c with tcp.acked := seg.tcphdr.ackSeq }, fwd⟩
  | synAck {c fwd} (ha : a.isSegment = false) (hstate : c.tcp.state = .listen) (time : Int)
      (written : Bool) (hdial : dial) :
      Act dial a ⟨c, fwd⟩ ⟨{ { c with
          tcp.socks5 := .connected
          tcp.remoteSeq := c.tcp.remoteSeq + 1 }.wrote [] true true false false written
            (if written then .synRecv else .closing) with
        tcp.time := time
        tcp.localSeq := if written then c.tcp.localSeq + 1 else c.tcp.localSeq }, fwd⟩
  | send {c fwd seg rest} (ha : a = .writable) (n : ℕ) (hforward : c.tcp.forward = seg :: rest)
      (hseq : seg.seq = c.tcp.remoteSeq) (hsent : seg.sent.toNat ≤ seg.data.val.length)
      (hn : seg.sent.toNat + n ≤ seg.data.val.length) (hlisten : c.tcp.state ≠ .listen)
      (sent : UInt64) :
      Act dial a ⟨c, fwd⟩ ⟨{ c.emit (.send c.socket (seg.seq + seg.sent.toUInt32)
          (seg.data.val.drop seg.sent.toNat) (some n)) with
        tcp.sent := sent
        tcp.remoteSeq := if seg.sent.toNat + n = seg.data.val.length
          then c.tcp.remoteSeq + seg.len.toUInt32 else c.tcp.remoteSeq
        tcp.forward := if seg.sent.toNat + n = seg.data.val.length
          then rest else { seg with sent := seg.sent + UInt16.ofNat n } :: rest }, true⟩
  | confirmFin {c} (ha : a.isSegment = false) (hstate : c.tcp.state = .closeWait)
      (hforward : c.tcp.forward = []) (written : Bool) :
      Act dial a ⟨c, true⟩ ⟨{ c with tcp.remoteSeq := c.tcp.remoteSeq + 1 }.wrote [] false true false
        false written (if written then c.tcp.state else .closing), false⟩
  | ack {c fwd} (ha : a.isSegment = false)
      (hforward : fwd = true → c.tcp.state = .closeWait → c.tcp.forward ≠ [])
      (hlisten : c.tcp.state ≠ .listen) (written : Bool) :
      Act dial a ⟨c, fwd⟩ ⟨c.wrote [] false true false false written
        (if written then c.tcp.state else .closing), false⟩
  | keepAlive {c fwd} (ha : a.isSegment = false)
      (hstate : c.tcp.state = .established ∨ c.tcp.state = .closeWait) (written : Bool) :
      Act dial a ⟨c, fwd⟩ ⟨{ { c with tcp.remoteSeq := c.tcp.remoteSeq - 1 }.wrote [] false true false
        false written (if written then c.tcp.state else .closing) with
          tcp.remoteSeq := c.tcp.remoteSeq }, fwd⟩
  | data {c fwd} (ha : a.isSegment = false)
      (hstate : c.tcp.state = .established ∨ c.tcp.state = .closeWait)
      (bytes : List UInt8) (hbytes : bytes ≠ []) (hsize : bytes.length ≤ (readSize c.tcp).toNat)
      (dns : List Output) (hdns : ∀ o ∈ dns, o.quiet = true) (written : Bool)
      (haside : ∀ o ∈ dns, ∃ u, o = .upcall u) :
      Act dial a ⟨c, fwd⟩ ⟨{ { c with out := c.out ++ Output.recv c.socket bytes :: dns }.wrote bytes false
        true false false written (if written then c.tcp.state else .closing) with
          tcp.localSeq := if written then c.tcp.localSeq + UInt32.ofNat bytes.length
            else c.tcp.localSeq
          tcp.unconfirmed := if written then c.tcp.unconfirmed + 1 else c.tcp.unconfirmed }, fwd⟩
  | fin {c fwd} (ha : a.isSegment = false)
      (hstate : c.tcp.state = .established ∨ c.tcp.state = .closeWait)
      (hforward : c.tcp.forward = []) (written : Bool) (state : TcpState)
      (hnext : (written = false ∧ state = .closing) ∨
        (written = true ∧ c.tcp.state = .established ∧ state = .finWait1) ∨
        (written = true ∧ c.tcp.state = .closeWait ∧ state = .lastAck)) :
      Act dial a ⟨c, fwd⟩ ⟨{ (c.wrote [] false true true false written state).emit (.close c.socket) with
        socket := -1
        tcp.localSeq := if written then c.tcp.localSeq + 1 else c.tcp.localSeq }, fwd⟩
  | close {c fwd} (ha : a.isSegment = false) (hstate : c.tcp.state = .closing) :
      Act dial a ⟨c, fwd⟩ ⟨{ c.emit (.close c.socket) with socket := -1 }, fwd⟩
  | closed {c fwd} (ha : a.isSegment = false) (hstate : c.tcp.state = .closing)
      (hsocket : c.socket < 0) :
      Act dial a ⟨c, fwd⟩ ⟨c.setState .close, fwd⟩

abbrev Acts (dial : Prop) (a : Cause) : Stage → Stage → Prop := ReflTransGen (Act dial a)
abbrev Move (a : Cause) : Stage → Stage → Prop := Act True a
abbrev Moves (a : Cause) : Stage → Stage → Prop := ReflTransGen (Move a)

section Frame
variable {dial : Prop} {a : Cause}

def Conn.after (pre : Trace) (c : Conn) : Conn := { c with out := pre ++ c.out }

def Stage.after (pre : Trace) (s : Stage) : Stage := ⟨s.conn.after pre, s.fwd⟩

@[simp] theorem Conn.after_tcp (pre : Trace) (c : Conn) : (c.after pre).tcp = c.tcp := rfl

theorem Conn.after_emit (pre : Trace) (c : Conn) (o : Output) :
    (c.emit o).after pre = (c.after pre).emit o := by
  simp [Conn.after, Conn.emit]

theorem Conn.after_wrote (pre : Trace) (c : Conn) (data : List UInt8)
    (syn ack fin rst written : Bool) (state : TcpState) :
    (c.wrote data syn ack fin rst written state).after pre =
      (c.after pre).wrote data syn ack fin rst written state := by
  simp [Conn.after, Conn.wrote, Conn.emit]

theorem countSyn_after (pre : Trace) (c : Conn) :
    (countSyn c).after pre = countSyn (c.after pre) := by
  by_cases h : c.tcp.state = .listen <;> simp [countSyn, Conn.after, h]

theorem Act.after {s t : Stage} (pre : Trace) (h : Act dial a s t) :
    Act dial a (s.after pre) (t.after pre) := by
  cases h with
  | tidy uid time recvWindow sent received lastKeepAlive socks5 events hsocks hdial =>
    exact .tidy uid time recvWindow sent received lastKeepAlive socks5 events hsocks hdial
  | @quiet c fwd o ho hpermitted =>
    simpa [Stage.after, Conn.after_emit] using Act.quiet (c := c.after pre) o ho hpermitted
  | window ha => exact .window ha
  | queue ha hdata hsocket hstate => exact .queue ha hdata hsocket hstate
  | abort => exact .abort
  | @reset c fwd written =>
    have h : Act dial a ⟨c.after pre, fwd⟩ _ := .reset written
    rwa [← countSyn_after, ← Conn.after_wrote] at h
  | @countFin c fwd seg ha hfin hadmitted hstate hforward written =>
    simpa [Stage.after, Conn.after, Conn.wrote, Conn.emit] using
      Act.countFin (c := c.after pre) ha hfin hadmitted hstate hforward written
  | holdFin ha hfin hadmitted hstate hforward => exact .holdFin ha hfin hadmitted hstate hforward
  | @lastFin c fwd seg ha hfin hadmitted hstate written =>
    simpa [Stage.after, Conn.after, Conn.wrote, Conn.emit] using
      Act.lastFin (c := c.after pre) ha hfin hadmitted hstate written
  | @ackAll c fwd seg ha hfin hack state hstate =>
    exact Act.ackAll (c := c.after pre) ha hfin hack state hstate
  | @ackSome c fwd seg ha hlocal hacked =>
    exact Act.ackSome (c := c.after pre) ha hlocal hacked
  | @synAck c fwd ha hstate time written hdial =>
    simpa [Stage.after, Conn.after, Conn.wrote, Conn.emit] using
      Act.synAck (c := c.after pre) ha hstate time written hdial
  | @send c fwd seg rest ha n hforward hseq hsent hn hlisten sent =>
    simpa [Stage.after, Conn.after, Conn.emit] using
      Act.send (c := c.after pre) ha n hforward hseq hsent hn hlisten sent
  | @confirmFin c ha hstate hforward written =>
    simpa [Stage.after, Conn.after, Conn.wrote, Conn.emit] using
      Act.confirmFin (c := c.after pre) ha hstate hforward written
  | @ack c fwd ha hforward hlisten written =>
    simpa [Stage.after, Conn.after_wrote] using
      Act.ack (c := c.after pre) ha hforward hlisten written
  | @keepAlive c fwd ha hstate written =>
    simpa [Stage.after, Conn.after, Conn.wrote, Conn.emit] using
      Act.keepAlive (c := c.after pre) ha hstate written
  | @data c fwd ha hstate bytes hbytes hsize dns hdns written haside =>
    simpa [Stage.after, Conn.after, Conn.wrote, Conn.emit] using
      Act.data (c := c.after pre) ha hstate bytes hbytes hsize dns hdns written haside
  | @fin c fwd ha hstate hforward written state hnext =>
    simpa [Stage.after, Conn.after, Conn.wrote, Conn.emit] using
      Act.fin (c := c.after pre) ha hstate hforward written state hnext
  | @close c fwd ha hstate =>
    simpa [Stage.after, Conn.after, Conn.emit] using Act.close (c := c.after pre) ha hstate
  | closed ha hstate hsocket => exact .closed ha hstate hsocket

theorem Output.Permitted.mono {dial' : Prop} {a' : Cause} {o : Output}
    (h : o.Permitted dial a) (hdials : dial → dial') (hwritable : a = .writable → a' = .writable) :
    o.Permitted dial' a' := by
  cases o with
  | socksSend => exact hdials h
  | socksRecv => exact hdials h
  | send => exact hwritable h
  | _ => trivial

theorem Act.mono {dial' : Prop} (hdials : dial → dial') {s t : Stage} (h : Act dial a s t) :
    Act dial' a s t := by
  cases h with
  | tidy uid time recvWindow sent received lastKeepAlive socks5 events hsocks hdial =>
    exact .tidy uid time recvWindow sent received lastKeepAlive socks5 events hsocks
      (hdial.imp_left hdials)
  | quiet o ho hpermitted => exact .quiet o ho (hpermitted.mono hdials id)
  | window ha => exact .window ha
  | queue ha hdata hsocket hstate => exact .queue ha hdata hsocket hstate
  | abort => exact .abort
  | reset written => exact .reset written
  | countFin ha hfin hadmitted hstate hforward written =>
    exact .countFin ha hfin hadmitted hstate hforward written
  | holdFin ha hfin hadmitted hstate hforward => exact .holdFin ha hfin hadmitted hstate hforward
  | lastFin ha hfin hadmitted hstate written => exact .lastFin ha hfin hadmitted hstate written
  | ackAll ha hfin hack state hstate => exact .ackAll ha hfin hack state hstate
  | ackSome ha hlocal hacked => exact .ackSome ha hlocal hacked
  | synAck ha hstate time written hdial => exact .synAck ha hstate time written (hdials hdial)
  | send ha n hforward hseq hsent hn hlisten sent =>
    exact .send ha n hforward hseq hsent hn hlisten sent
  | confirmFin ha hstate hforward written => exact .confirmFin ha hstate hforward written
  | ack ha hforward hlisten written => exact .ack ha hforward hlisten written
  | keepAlive ha hstate written => exact .keepAlive ha hstate written
  | data ha hstate bytes hbytes hsize dns hdns written haside =>
    exact .data ha hstate bytes hbytes hsize dns hdns written haside
  | fin ha hstate hforward written state hnext => exact .fin ha hstate hforward written state hnext
  | close ha hstate => exact .close ha hstate
  | closed ha hstate hsocket => exact .closed ha hstate hsocket

theorem Act.writable {s t : Stage} (h : Act dial .other s t) : Act dial .writable s t := by
  cases h with
  | tidy uid time recvWindow sent received lastKeepAlive socks5 events hsocks hdial =>
    exact .tidy uid time recvWindow sent received lastKeepAlive socks5 events hsocks hdial
  | quiet o ho hpermitted => exact .quiet o ho (hpermitted.mono id nofun)
  | abort => exact .abort
  | reset written => exact .reset written
  | synAck _ hstate time written hdial => exact .synAck rfl hstate time written hdial
  | confirmFin _ hstate hforward written => exact .confirmFin rfl hstate hforward written
  | ack _ hforward hlisten written => exact .ack rfl hforward hlisten written
  | keepAlive _ hstate written => exact .keepAlive rfl hstate written
  | data _ hstate bytes hbytes hsize dns hdns written haside =>
    exact .data rfl hstate bytes hbytes hsize dns hdns written haside
  | fin _ hstate hforward written state hnext => exact .fin rfl hstate hforward written state hnext
  | close _ hstate => exact .close rfl hstate
  | closed _ hstate hsocket => exact .closed rfl hstate hsocket
  | window ha => cases ha
  | queue ha => cases ha
  | countFin ha => cases ha
  | holdFin ha => cases ha
  | lastFin ha => cases ha
  | ackAll ha => cases ha
  | ackSome ha => cases ha
  | send ha => cases ha

theorem Acts.writable {s t : Stage} (h : Acts dial .other s t) : Acts dial .writable s t :=
  ReflTransGen.mono (fun _ _ => Act.writable) s t h

theorem Acts.after {s t : Stage} (pre : Trace) (h : Acts dial a s t) :
    Acts dial a (s.after pre) (t.after pre) :=
  ReflTransGen.lift (Stage.after pre) (fun _ _ => Act.after pre) s t h

end Frame

end NetGuard.Engine
