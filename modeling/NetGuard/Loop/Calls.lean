import NetGuard.Loop.Descriptors

/-! # The calls on an entry's socket

A call on an entry uses no descriptor but the one in its socket field, and none at all
once the field is cleared.
-/
namespace NetGuard.Engine
open Relation (ReflTransGen)

section Calls

/-- The descriptor a call is made on; `socket()` makes one. -/
def Output.target : Output → Option Int
  | .protect fd _ | .nonBlocking fd _ | .connect fd _ _ _ | .epollCtl fd _ _ | .probe fd
  | .send fd _ _ _ | .socksSend fd _ _ | .sendto fd _ _ _ _ | .recv fd _ | .socksRecv fd _
  | .close fd => some fd
  | .tun _ _ | .socket _ | .upcall _ | .hang => none

/-- A call that neither makes a descriptor nor closes one, and uses at most this one. -/
structure Output.On (sock : Int) (o : Output) : Prop where
  target : ∀ fd, o.target = some fd → fd = sock
  idle : o.Idle

inductive SocketCall : Int × Trace → Int × Trace → Prop
  | on {sock : Int} (out : Trace) {o : Output} (ho : o.On sock) :
      SocketCall (sock, out) (sock, out ++ [o])
  | close (sock : Int) (out : Trace) : SocketCall (sock, out) (-1, out ++ [.close sock])

abbrev SocketCalls : Int × Trace → Int × Trace → Prop := ReflTransGen SocketCall

variable {sock : Int} {out : Trace}

theorem Output.on_upcall (sock : Int) (u : Upcall) : (Output.upcall u).On sock :=
  ⟨by simp [Output.target], fun _ _ => ⟨rfl, rfl⟩⟩

theorem Output.on_tun (sock : Int) (packet : TunPacket) (written : Bool) :
    (Output.tun packet written).On sock :=
  ⟨by simp [Output.target], fun _ _ => ⟨rfl, rfl⟩⟩

theorem Output.on_self {o : Output} (htarget : o.target = some sock)
    (hclose : ∀ fd, o ≠ .close fd) : o.On sock where
  target fd hfd := (Option.some.inj (htarget.symm.trans hfd)).symm
  idle := by
    refine Output.idle_of_ne ?_ hclose
    rintro fd rfl
    simp [Output.target] at htarget

theorem SocketCalls.asides {os : Trace} (hos : ∀ o ∈ os, o.On sock) :
    SocketCalls (sock, out) (sock, out ++ os) := by
  induction os generalizing out with
  | nil => simpa using ReflTransGen.refl
  | cons o os ih =>
    have hrest : SocketCalls (sock, out ++ [o]) (sock, out ++ [o] ++ os) :=
      ih fun o' ho' => hos o' (List.mem_cons_of_mem _ ho')
    refine .head (.on out (hos o List.mem_cons_self)) ?_
    simpa using hrest

theorem SocketCalls.after {s t : Int × Trace} (pre : Trace) (h : SocketCalls s t) :
    SocketCalls (s.1, pre ++ s.2) (t.1, pre ++ t.2) := by
  induction h with
  | refl => exact .refl
  | tail _ hlast ih =>
    refine ih.tail ?_
    cases hlast with
    | on out ho => simpa using SocketCall.on (pre ++ out) ho
    | close sock out => simpa using SocketCall.close sock (pre ++ out)

theorem SocketCalls.extends {s t : Int × Trace} (h : SocketCalls s t) : ∃ os, t.2 = s.2 ++ os := by
  refine Run.chain_invariant (P := fun x : Int × Trace => ∃ os, x.2 = s.2 ++ os) ?_ h
    ⟨[], by simp⟩
  rintro _ _ hcall ⟨os, hos⟩
  cases hcall with
  | @on sock out o ho => exact ⟨os ++ [o], by rw [← List.append_assoc, ← hos]⟩
  | close sock out => exact ⟨os ++ [.close sock], by rw [← List.append_assoc, ← hos]⟩

end Calls

section Tcp
variable (env : Env) (args : Arguments)

/-- The session goes on with calls on its own socket. -/
def Conn.Drives (c c' : Conn) : Prop := SocketCalls (c.socket, c.out) (c'.socket, c'.out)

theorem Conn.Drives.refl (c : Conn) : c.Drives c := ReflTransGen.refl

theorem Conn.Drives.trans {c c' c'' : Conn} (h : c.Drives c') (h' : c'.Drives c'') : c.Drives c'' :=
  ReflTransGen.trans h h'

theorem Conn.drives_of_eq {c c' : Conn} (hsocket : c'.socket = c.socket) (hout : c'.out = c.out) :
    c.Drives c' := by
  rw [Conn.Drives, hsocket, hout]

theorem Conn.drives_emit {c : Conn} {o : Output} (ho : o.On c.socket) : c.Drives (c.emit o) :=
  .single (.on c.out ho)

theorem Conn.drives_socket {c : Conn} {o : Output} (htarget : o.target = some c.socket)
    (hclose : ∀ fd, o ≠ .close fd) : c.Drives (c.emit o) :=
  c.drives_emit (Output.on_self htarget hclose)

theorem Conn.drives_upcall (c : Conn) (u : Upcall) : c.Drives (c.emit (.upcall u)) :=
  c.drives_emit (Output.on_upcall _ u)

theorem Conn.drives_close (c : Conn) : c.Drives { c.emit (.close c.socket) with socket := -1 } :=
  .single (.close c.socket c.out)

theorem writeOrClose_drives (c : Conn) (data : List UInt8) (syn fin : Bool) :
    c.Drives (writeOrClose env c data syn fin).1 := by
  have hwritten : c.Drives (writeTcp env c data syn true fin false).1 :=
    c.drives_emit (Output.on_tun _ _ _)
  simp only [writeOrClose]
  split <;> exact hwritten

theorem countSyn_drives (c : Conn) : c.Drives (countSyn c) := c.drives_of_eq (by simp) (by simp)

theorem writeRst_drives (c : Conn) : c.Drives (writeRst env c) := by
  have hwritten : c.Drives
      (writeTcp env (countSyn c) [] false (c.tcp.state == .listen) false true).1 :=
    (countSyn_drives c).trans ((countSyn c).drives_emit (Output.on_tun _ _ _))
  simp only [writeRst]
  split <;> exact hwritten

theorem probeBuffer_drives (c : Conn) : c.Drives (probeBuffer env c).2 :=
  c.drives_socket rfl fun _ h => by cases h

variable {env args}

theorem writeRst_drives_of {c c' : Conn} (h : c.Drives c') : c.Drives (writeRst env c') :=
  h.trans (writeRst_drives env c')

theorem handleFin_drives (c : Conn) : c.Drives (handleFin env c) := by
  have hack (c' : Conn) (hc : c.Drives c') : c.Drives (writeAck env c').1 :=
    hc.trans (writeOrClose_drives env c' [] false false)
  have hcounted := hack { c with tcp.remoteSeq := c.tcp.remoteSeq + 1 } (.refl c)
  simp only [handleFin]
  split
  · split
    · split <;> exact hcounted
    · exact .refl c
  · split <;> exact hcounted
  · exact .refl c

theorem handleFlags_drives (tcphdr : TcpHdr) (c : Conn) : c.Drives (handleFlags env tcphdr c) := by
  simp only [handleFlags, handleAck, handleOtherAck]
  split
  · exact .refl c
  split
  · split
    · exact .refl c
    split
    · exact handleFin_drives c
    split
    · split <;> exact .refl c
    · exact .refl c
  · split
    · exact .refl c
    split
    · split <;> exact .refl c
    · exact writeRst_drives env c

theorem handleOpen_drives (tcphdr : TcpHdr) (data : Payload) (c : Conn) :
    c.Drives (handleOpen env tcphdr data c) := by
  have hstamped : c.Drives (if tcphdr.syn then c else { c with tcp.time := env.time c.out }) := by
    split <;> exact .refl c
  simp only [handleOpen]
  generalize (if tcphdr.syn then c else { c with tcp.time := env.time c.out }) = c' at hstamped ⊢
  have hwindow : c.Drives { c' with
      tcp.sendWindow := tcphdr.window.toUInt32 <<< c'.tcp.sendScale.toUInt32
      tcp.unconfirmed := 0 } := hstamped
  split
  · exact hwindow.trans (handleFlags_drives tcphdr _)
  split
  · exact writeRst_drives_of hwindow
  split
  · exact writeRst_drives_of hwindow
  · refine Conn.Drives.trans ?_ (handleFlags_drives tcphdr _)
    exact hwindow

theorem handleSegment_drives (tcphdr : TcpHdr) (data : Payload) (uid : Int) (allowed : Bool)
    (c : Conn) : c.Drives (handleSegment env tcphdr data uid allowed c) := by
  have hnamed : c.Drives
      (if c.tcp.uid = -1 ∧ uid > 0 then { c with tcp.uid := uid } else c) := by
    split <;> exact .refl c
  simp only [handleSegment]
  generalize (if c.tcp.uid = -1 ∧ uid > 0 then { c with tcp.uid := uid } else c) = c' at hnamed ⊢
  split
  · exact writeRst_drives_of hnamed
  split
  · exact writeRst_drives_of hnamed
  · exact hnamed.trans (handleOpen_drives tcphdr data _)

theorem socksReply_drives (buffer : List UInt8) (c : Conn) : c.Drives (socksReply env buffer c) := by
  have hfailed : c.Drives (socksFailed env c) :=
    writeRst_drives_of (c.drives_of_eq rfl rfl)
  simp only [socksReply]
  generalize (if c.tcp.version = .v4 then 4 else 16) = size
  split
  · split
    · exact .refl c
    split
    · exact .refl c
    · exact hfailed
  split
  · split
    · exact .refl c
    · exact hfailed
  split
  · split
    · exact .refl c
    · exact hfailed
  · exact hfailed

theorem socksRecv_drives (c : Conn) : c.Drives (socksRecv env c) := by
  have hread (bytes : List UInt8) : c.Drives (c.emit (.socksRecv c.socket bytes)) :=
    c.drives_socket rfl fun _ h => by cases h
  simp only [socksRecv]
  split
  · exact (hread _).trans (socksReply_drives _ _)
  · exact (hread _).trans (socksReply_drives _ _)
  · exact writeRst_drives_of (hread [])
  · exact writeRst_drives_of (hread [])

theorem socksSend_drives (message : List UInt8) (c : Conn) : c.Drives (socksSend env message c) := by
  have hsent (n : Option Nat) : c.Drives (c.emit (.socksSend c.socket message n)) :=
    c.drives_socket rfl fun _ h => by cases h
  simp only [socksSend]
  split
  · exact hsent _
  · exact writeRst_drives_of (hsent none)
  · exact writeRst_drives_of (hsent none)

theorem checkListen_drives (ev : Events) (c : Conn) : c.Drives (checkListen env args ev c) := by
  have hnext (c' : Conn) : c'.Drives (socksNext env args c') := by
    simp only [socksNext]
    split
    · exact socksSend_drives _ c'
    · exact socksSend_drives _ c'
    · exact socksSend_drives _ c'
    · have hconfirmed : c'.Drives
          (writeSynAck env { c' with tcp.remoteSeq := c'.tcp.remoteSeq + 1 }).1 :=
        writeOrClose_drives env { c' with tcp.remoteSeq := c'.tcp.remoteSeq + 1 } [] true false
      simp only [confirmConnect]
      split <;> exact hconfirmed
    · exact .refl c'
  refine Conn.Drives.trans ?_ (hnext _)
  split
  · split <;> exact .refl c
  split
  · exact socksRecv_drives c
  · exact .refl c

theorem forwardLoop_drives (queue : List Segment) (c : Conn) (bufferSize : UInt32) (fwd : Bool) :
    c.Drives (forwardLoop env queue c bufferSize fwd).1 := by
  induction queue generalizing c bufferSize fwd with
  | nil => exact .refl c
  | cons seg rest ih =>
    have hsent (n : Option Nat) : c.Drives (c.emit (.send c.socket (seg.seq + seg.sent.toUInt32)
        (seg.data.val.drop seg.sent.toNat) n)) := c.drives_socket rfl fun _ h => by cases h
    simp only [forwardLoop]
    split
    · split
      · exact hsent none
      · exact writeRst_drives_of (hsent none)
      next n _ =>
        split
        · refine Conn.Drives.trans ?_ (ih _ _ _)
          exact hsent (some n)
        · exact hsent (some n)
    · exact .refl c

theorem confirmForward_drives (fwd : Bool) (c : Conn) : c.Drives (confirmForward env fwd c) := by
  have hcounted : c.Drives (if fwd ∧ c.tcp.forward.isEmpty ∧ c.tcp.state = .closeWait then
      { c with tcp.remoteSeq := c.tcp.remoteSeq + 1 } else c) := by
    split <;> exact .refl c
  simp only [confirmForward]
  generalize (if fwd = true ∧ c.tcp.forward.isEmpty = true ∧ c.tcp.state = .closeWait then
    { c with tcp.remoteSeq := c.tcp.remoteSeq + 1 } else c) = c' at hcounted ⊢
  have hwritten : c.Drives (writeAck env c').1 :=
    hcounted.trans (writeOrClose_drives env c' [] false false)
  split <;> exact hwritten

theorem readEof_drives (c : Conn) : c.Drives (readEof env c) := by
  have hfin : c.Drives (writeFinAck env c).1 := writeOrClose_drives env c [] false true
  simp only [readEof]
  refine Conn.Drives.trans ?_ (Conn.drives_close _)
  split
  · have hcounted : c.Drives (if (writeFinAck env c).2 then
        { (writeFinAck env c).1 with tcp.localSeq := (writeFinAck env c).1.tcp.localSeq + 1 }
        else (writeFinAck env c).1) := by
      split <;> exact hfin
    split <;> exact hcounted
  · exact writeRst_drives env c

theorem readData_drives (buffer : List UInt8) (c : Conn) : c.Drives (readData env args buffer c) := by
  have hinspected : c.Drives (inspectDns buffer
      { c with tcp.received := c.tcp.received + UInt64.ofNat buffer.length }) := by
    unfold inspectDns
    split
    · exact Conn.drives_upcall { c with
        tcp.received := c.tcp.received + UInt64.ofNat buffer.length } _
    · exact .refl c
  have hforwarded (c' : Conn) : c'.Drives (forwardBytes env buffer c') := by
    have hwritten : c'.Drives (writeData env c' buffer).1 :=
      writeOrClose_drives env c' buffer false false
    simp only [forwardBytes]
    split <;> exact hwritten
  have hread := hinspected.trans (hforwarded _)
  simp only [readData]
  generalize forwardBytes env buffer (inspectDns buffer
    { c with tcp.received := c.tcp.received + UInt64.ofNat buffer.length }) = c' at hread ⊢
  obtain ⟨os, hlog, hos⟩ :=
    logIncoming_upcalls env args c'.tcp.query buffer.length c'.tcp.uid c'.out
  rw [Conn.Drives, hlog]
  refine ReflTransGen.trans hread (SocketCalls.asides ?_)
  intro o ho
  obtain ⟨u, rfl⟩ := hos o ho
  exact Output.on_upcall _ u

theorem readSocket_drives (ev : Events) (c : Conn) : c.Drives (readSocket env args ev c) := by
  have hread (bytes : List UInt8) : c.Drives ({ c with tcp.time := env.time c.out }.emit
      (.recv c.socket bytes)) := c.drives_socket rfl fun _ h => by cases h
  simp only [readSocket]
  split
  · split
    next bytes _ _ => exact (hread bytes).trans (readData_drives bytes _)
    · exact (hread []).trans (readEof_drives _)
    · exact hread []
    · exact writeRst_drives_of (hread [])
  · exact .refl c

theorem forwardData_drives (ev : Events) (c : Conn) : c.Drives (forwardData env ev c).1 := by
  simp only [forwardData]
  split
  · exact (probeBuffer_drives env c).trans (forwardLoop_drives _ _ _ _)
  · exact .refl c

theorem updateWindow_drives (fwd : Bool) (c : Conn) : c.Drives (updateWindow env fwd c) := by
  have hprobed := probeBuffer_drives env c
  simp only [updateWindow]
  split
  · refine Conn.Drives.trans ?_ (confirmForward_drives fwd _)
    exact hprobed
  · exact hprobed

/-- What comes after the queued data was forwarded. -/
theorem checkOpen_forwarded (ev : Events) (c : Conn) :
    (forwardData env ev c).1.Drives (checkOpen env args ev c) := by
  have hupdated := @updateWindow_drives env (forwardData env ev c).2 (forwardData env ev c).1
  simp only [checkOpen]
  split
  · exact hupdated.trans (readSocket_drives ev _)
  · exact hupdated

theorem checkOpen_drives (ev : Events) (c : Conn) : c.Drives (checkOpen env args ev c) :=
  (forwardData_drives ev c).trans (checkOpen_forwarded ev c)

theorem checkTcpSocket_drives (ev : Events) (c : Conn) :
    c.Drives (checkTcpSocket env args ev c) := by
  simp only [checkTcpSocket]
  split
  · exact writeRst_drives_of (c.drives_of_eq rfl rfl)
  split
  · exact checkListen_drives ev c
  · exact checkOpen_drives ev c

theorem monitorEvents_drives (c : Conn) : c.Drives (monitorEvents env c).2.2 := by
  have halive : c.Drives (keepAlive env c) := by
    have hacked : c.Drives (writeAck env { c with
        tcp.lastKeepAlive := env.ms c.out
        tcp.remoteSeq := c.tcp.remoteSeq - 1 }).1 :=
      writeOrClose_drives env { c with
        tcp.lastKeepAlive := env.ms c.out
        tcp.remoteSeq := c.tcp.remoteSeq - 1 } [] false false
    simp only [keepAlive]
    split
    · exact hacked
    · exact .refl c
  have hasked : c.Drives (if getSendWindow c.tcp > 0 then c else keepAlive env c) := by
    split
    · exact .refl c
    · exact halive
  simp only [monitorEvents]
  split
  · exact .refl c
  split
  · split
    · exact hasked
    · exact hasked.trans (probeBuffer_drives env _)
  · exact .refl c

theorem monitorTcpSession_drives (c : Conn) : c.Drives (monitorTcpSession env c).1 := by
  have hevents : c.Drives (monitorEvents env c).2.2 := monitorEvents_drives c
  simp only [monitorTcpSession]
  generalize monitorEvents env c = r at hevents ⊢
  obtain ⟨events, recheck, c'⟩ := r
  have hcontrolled : c.Drives (c'.emit (.epollCtl c'.socket events (env.epollCtl c'.out))) :=
    hevents.trans (c'.drives_socket rfl fun _ h => by cases h)
  dsimp only
  split
  · split <;> exact hcontrolled
  · exact hevents

theorem checkTcpSession_drives (sessions maxsessions : Int) (c : Conn) :
    c.Drives (checkTcpSession env sessions maxsessions c).1 := by
  have hclosed (c : Conn) : c.Drives (closeSession env c) := by
    simp only [closeSession]
    split
    · split
      · exact Conn.drives_close c
      · exact .refl c
    · exact .refl c
  have hexpired (p : Prop) [Decidable p] : c.Drives (if p then
      if c.tcp.state = .listen then c.setState .closing else writeRst env c else c) := by
    split
    · split
      · exact .refl c
      · exact writeRst_drives env c
    · exact .refl c
  have hswept := (hexpired (c.tcp.state ≠ .closing ∧ c.tcp.state ≠ .close ∧
    c.tcp.time + getTcpTimeout c.tcp sessions maxsessions < env.time c.out)).trans (hclosed _)
  simp only [checkTcpSession]
  generalize closeSession env _ = c' at hswept ⊢
  split <;> exact hswept

theorem checkTcpAllowed_drives (c : Conn) : c.Drives (checkTcpAllowed env args c) := by
  have hasked : c.Drives (c.emit (.upcall (.isAddressAllowed c.tcp.query c.tcp.uid))) :=
    c.drives_upcall _
  simp only [checkTcpAllowed]
  split
  · exact .refl c
  split
  · exact hasked
  · exact writeRst_drives_of hasked

end Tcp

section Udp
variable {env : Env} {args : Arguments}

def Datagram.Drives (d d' : Datagram) : Prop := SocketCalls (d.socket, d.out) (d'.socket, d'.out)

theorem Datagram.Drives.refl (d : Datagram) : d.Drives d := ReflTransGen.refl

theorem Datagram.Drives.trans {d d' d'' : Datagram} (h : d.Drives d') (h' : d'.Drives d'') :
    d.Drives d'' :=
  ReflTransGen.trans h h'

theorem Datagram.drives_emit {d : Datagram} {o : Output} (ho : o.On d.socket) : d.Drives (d.emit o) :=
  .single (.on d.out ho)

theorem Datagram.drives_socket {d : Datagram} {o : Output} (htarget : o.target = some d.socket)
    (hclose : ∀ fd, o ≠ .close fd) : d.Drives (d.emit o) :=
  d.drives_emit (Output.on_self htarget hclose)

theorem checkUdpSession_drives (sessions maxsessions : Int) (d : Datagram) :
    d.Drives (checkUdpSession env sessions maxsessions d).1 := by
  let idle : Datagram := if d.udp.state = .active ∧
      d.udp.time + getUdpTimeout d.udp sessions maxsessions < env.time d.out then
    { d with udp.state := .finishing } else d
  let freed : Datagram := { idle.emit (.close idle.socket) with socket := -1 }
  let closed : Datagram := if idle.udp.state = .finishing then
    { freed with udp.time := env.time freed.out, udp.state := .closed } else idle
  have hidle : d.Drives idle := by
    simp only [idle]
    split <;> exact .refl d
  have hclosed : idle.Drives closed := by
    simp only [closed]
    split
    · exact .single (.close idle.socket idle.out)
    · exact .refl idle
  have hcleared : closed.Drives (if closed.udp.state = .closed then
      { closed with udp.sent := 0, udp.received := 0 } else closed) := by
    split <;> exact .refl closed
  exact (hidle.trans hclosed).trans hcleared

theorem readDatagram_drives (buffer : List UInt8) (d : Datagram) :
    d.Drives (readDatagram env args buffer d) := by
  have hinspected : d.Drives (if d.udp.dest = 53 then
      { d with udp.received := d.udp.received + UInt64.ofNat buffer.length }.emit
        (.upcall (.dnsResponse buffer d.udp.uid))
      else { d with udp.received := d.udp.received + UInt64.ofNat buffer.length }) := by
    split
    · exact Datagram.drives_emit (d := { d with
        udp.received := d.udp.received + UInt64.ofNat buffer.length }) (Output.on_upcall _ _)
    · exact .refl d
  simp only [readDatagram, writeUdp]
  generalize (if d.udp.dest = 53 then
    { d with udp.received := d.udp.received + UInt64.ofNat buffer.length }.emit
      (.upcall (.dnsResponse buffer d.udp.uid))
    else { d with udp.received := d.udp.received + UInt64.ofNat buffer.length }) = d' at hinspected ⊢
  have hanswered : d.Drives (d'.emit (.tun (.udp d'.udp buffer) (env.tunWrite d'.out))) :=
    hinspected.trans (d'.drives_emit (Output.on_tun _ _ _))
  have hended (p : Prop) [Decidable p] : d.Drives (if p then
      { d'.emit (.tun (.udp d'.udp buffer) (env.tunWrite d'.out)) with udp.state := .finishing }
      else d'.emit (.tun (.udp d'.udp buffer) (env.tunWrite d'.out))) := by
    split <;> exact hanswered
  have hread := hended ((!env.tunWrite d'.out ||
    (d'.emit (.tun (.udp d'.udp buffer) (env.tunWrite d'.out))).udp.dest == 53) = true)
  generalize (if (!env.tunWrite d'.out ||
    (d'.emit (.tun (.udp d'.udp buffer) (env.tunWrite d'.out))).udp.dest == 53) = true then
      { d'.emit (.tun (.udp d'.udp buffer) (env.tunWrite d'.out)) with udp.state := .finishing }
      else d'.emit (.tun (.udp d'.udp buffer) (env.tunWrite d'.out))) = d'' at hread ⊢
  obtain ⟨os, hlog, hos⟩ :=
    logIncoming_upcalls env args d''.udp.query buffer.length d''.udp.uid d''.out
  rw [Datagram.Drives, hlog]
  refine ReflTransGen.trans hread (SocketCalls.asides ?_)
  intro o ho
  obtain ⟨u, rfl⟩ := hos o ho
  exact Output.on_upcall _ u

theorem checkUdpSocket_drives (ev : Events) (d : Datagram) :
    d.Drives (checkUdpSocket env args ev d) := by
  have hread (bytes : List UInt8) : d.Drives ({ d with udp.time := env.time d.out }.emit
      (.recv d.socket bytes)) := d.drives_socket rfl fun _ h => by cases h
  simp only [checkUdpSocket]
  split
  · exact .refl d
  split
  · split
    next bytes _ _ => exact (hread bytes).trans (readDatagram_drives bytes _)
    · exact hread []
    · exact hread []
    · exact hread []
  · exact .refl d

theorem forwardDatagram_drives (flow : Flow) (data : List UInt8) (d : Datagram) :
    d.Drives (forwardDatagram env flow data d) := by
  have hdhcp : d.Drives (if flow.source = 68 ∨ flow.dest = 67 then checkDhcp env data d
      else (d, false)).1 := by
    split
    · simp only [checkDhcp]
      split
      · exact .refl d
      split
      · exact d.drives_emit (Output.on_tun _ _ _)
      · exact .refl d
    · exact .refl d
  simp only [forwardDatagram]
  generalize (if flow.source = 68 ∨ flow.dest = 67 then checkDhcp env data d
    else (d, false)) = r at hdhcp ⊢
  obtain ⟨d', taken⟩ := r
  have hsent (ok : Bool) : d.Drives ({ d' with udp.time := env.time d'.out }.emit
      (.sendto d'.socket d'.udp.daddr d'.udp.dest data ok)) :=
    Datagram.Drives.trans hdhcp (d'.drives_socket rfl fun _ h => by cases h)
  dsimp only
  split
  · exact hdhcp
  · split
    · exact hsent true
    · exact hsent false
    · exact hsent false

end Udp

section Icmp
variable {env : Env} {args : Arguments}

def Echo.Drives (e e' : Echo) : Prop := SocketCalls (e.socket, e.out) (e'.socket, e'.out)

theorem Echo.Drives.refl (e : Echo) : e.Drives e := ReflTransGen.refl

theorem Echo.drives_emit {e : Echo} {o : Output} (ho : o.On e.socket) : e.Drives (e.emit o) :=
  .single (.on e.out ho)

theorem Echo.drives_socket {e : Echo} {o : Output} (htarget : o.target = some e.socket)
    (hclose : ∀ fd, o ≠ .close fd) : e.Drives (e.emit o) :=
  e.drives_emit (Output.on_self htarget hclose)

theorem checkIcmpSession_drives (sessions maxsessions : Int) (e : Echo) :
    e.Drives (checkIcmpSession env sessions maxsessions e).1 := by
  simp only [checkIcmpSession]
  split
  · exact .single (.close e.socket e.out)
  · exact .refl e

theorem readReply_drives (buffer : List UInt8) (e : Echo) :
    e.Drives (readReply env args buffer e) := by
  let message := rewriteIcmp (replyChecksum e.icmp buffer.length) e.icmp.id buffer
  have hanswered : e.Drives (writeIcmp env message e).1 := e.drives_emit (Output.on_tun _ _ _)
  have hended : e.Drives (if (writeIcmp env message e).2 then (writeIcmp env message e).1
      else { (writeIcmp env message e).1 with icmp.stop := true }) := by
    split <;> exact hanswered
  simp only [readReply]
  generalize (if (writeIcmp env message e).2 then (writeIcmp env message e).1
    else { (writeIcmp env message e).1 with icmp.stop := true }) = e' at hended ⊢
  obtain ⟨os, hlog, hos⟩ :=
    logIncoming_upcalls env args e'.icmp.query buffer.length e'.icmp.uid e'.out
  rw [Echo.Drives, hlog]
  refine ReflTransGen.trans hended (SocketCalls.asides ?_)
  intro o ho
  obtain ⟨u, rfl⟩ := hos o ho
  exact Output.on_upcall _ u

theorem checkIcmpSocket_drives (ev : Events) (e : Echo) :
    e.Drives (checkIcmpSocket env args ev e) := by
  have hread (bytes : List UInt8) : e.Drives ({ e with icmp.time := env.time e.out }.emit
      (.recv e.socket bytes)) := e.drives_socket rfl fun _ h => by cases h
  simp only [checkIcmpSocket]
  split
  · exact .refl e
  split
  · split
    next bytes _ _ => exact ReflTransGen.trans (hread bytes) (readReply_drives bytes _)
    · exact hread []
    · exact hread []
    · exact hread []
  · exact .refl e

theorem sendRequest_drives (daddr : Address) (message : List UInt8) (e : Echo) :
    e.Drives (sendRequest env daddr message e) := by
  have hsent (ok : Bool) : e.Drives ({ e with icmp.time := env.time e.out }.emit
      (.sendto e.socket daddr 0 message ok)) := e.drives_socket rfl fun _ h => by cases h
  simp only [sendRequest]
  split
  · exact hsent true
  · exact hsent false
  · exact hsent false

end Icmp

section Entries
variable (env : Env) (args : Arguments) (s : NgSession) (out : Trace)

/-- A loop over the entries makes calls on the socket of the entry, and a kept entry has
what is left in the field. -/
def NgSession.Drives (r : Option NgSession × Trace) : Prop :=
  ∃ sock, SocketCalls (s.descriptor, out) (sock, r.2) ∧ ∀ t ∈ r.1, t.descriptor = sock

variable {s out}

theorem NgSession.drives_kept {t : NgSession} {out' : Trace}
    (h : SocketCalls (s.descriptor, out) (t.descriptor, out')) : s.Drives out (some t, out') :=
  ⟨t.descriptor, h, by simp⟩

theorem NgSession.drives_call {t : NgSession} {os : Trace} (del : Bool)
    (h : SocketCalls (s.descriptor, []) (t.descriptor, os)) :
    s.Drives out (if del then none else some t, out ++ os) := by
  have hcalls : SocketCalls (s.descriptor, out) (t.descriptor, out ++ os) := by
    simpa using h.after out
  cases del with
  | true => exact ⟨t.descriptor, hcalls, by simp⟩
  | false => exact drives_kept hcalls

theorem checkAllowedEntry_drives : s.Drives out (checkAllowedEntry env args s out) := by
  cases s with
  | icmp s sock =>
    simp only [checkAllowedEntry]
    split
    · exact NgSession.drives_kept .refl
    · exact NgSession.drives_kept (.single (.on out (Output.on_upcall sock _)))
  | udp s sock =>
    simp only [checkAllowedEntry]
    split
    · split
      · exact NgSession.drives_kept .refl
      · exact NgSession.drives_kept (.single (.on out (Output.on_upcall sock _)))
    · exact ⟨sock, .refl, by simp⟩
    · exact NgSession.drives_kept .refl
  | tcp s sock events =>
    have hchecked : Conn.Drives ⟨s, sock, events, []⟩
        (checkTcpAllowed (env.after out) args ⟨s, sock, events, []⟩) := checkTcpAllowed_drives _
    have hcalls := hchecked.after out
    rw [List.append_nil] at hcalls
    exact NgSession.drives_kept hcalls

theorem monitorEntry_drives : s.Drives out (monitorEntry env s out) := by
  cases s with
  | icmp s sock => exact NgSession.drives_kept .refl
  | udp s sock => exact NgSession.drives_kept .refl
  | tcp s sock events =>
    simp only [monitorEntry]
    split
    · have hmonitored : Conn.Drives ⟨s, sock, events, []⟩
          (monitorTcpSession (env.after out) ⟨s, sock, events, []⟩).1 := monitorTcpSession_drives _
      have hcalls := hmonitored.after out
      rw [List.append_nil] at hcalls
      exact NgSession.drives_kept hcalls
    · exact NgSession.drives_kept .refl

theorem checkEntry_drives (sessions maxsessions : Int) :
    s.Drives out (checkEntry env sessions maxsessions s out) := by
  cases s with
  | icmp s sock =>
    have hchecked : Echo.Drives ⟨s, sock, []⟩
        (checkIcmpSession (env.after out) sessions maxsessions ⟨s, sock, []⟩).1 :=
      checkIcmpSession_drives sessions maxsessions _
    simp only [checkEntry]
    generalize checkIcmpSession (env.after out) sessions maxsessions ⟨s, sock, []⟩ = r
      at hchecked ⊢
    exact NgSession.drives_call r.2 hchecked
  | udp s sock =>
    have hchecked : Datagram.Drives ⟨s, sock, []⟩
        (checkUdpSession (env.after out) sessions maxsessions ⟨s, sock, []⟩).1 :=
      checkUdpSession_drives sessions maxsessions _
    simp only [checkEntry]
    generalize checkUdpSession (env.after out) sessions maxsessions ⟨s, sock, []⟩ = r
      at hchecked ⊢
    exact NgSession.drives_call r.2 hchecked
  | tcp s sock events =>
    have hchecked : Conn.Drives ⟨s, sock, events, []⟩
        (checkTcpSession (env.after out) sessions maxsessions ⟨s, sock, events, []⟩).1 :=
      checkTcpSession_drives sessions maxsessions _
    simp only [checkEntry]
    generalize checkTcpSession (env.after out) sessions maxsessions ⟨s, sock, events, []⟩ = r
      at hchecked ⊢
    exact NgSession.drives_call r.2 hchecked

theorem clearEntry_drives : s.Drives out (clearEntry s out) := by
  rw [clearEntry_eq]
  refine ⟨if 0 ≤ s.descriptor then -1 else s.descriptor, ?_, by simp⟩
  split
  · exact .single (.close s.descriptor out)
  · exact .refl

theorem checkSocket_drives (ev : Events) : SocketCalls (s.descriptor, [])
    ((checkSocket env args ev s).1.descriptor, (checkSocket env args ev s).2) := by
  cases s with
  | icmp s sock => exact checkIcmpSocket_drives ev ⟨s, sock, []⟩
  | udp s sock =>
    simp only [checkSocket]
    split
    · exact checkUdpSocket_drives ev ⟨s, sock, []⟩
    · exact .refl
  | tcp s sock events => exact checkTcpSocket_drives ev ⟨s, sock, events, []⟩

end Entries

end NetGuard.Engine
