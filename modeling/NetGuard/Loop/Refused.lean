import NetGuard.Firewall.Recheck
import NetGuard.Loop.Limit

/-! # Apps that are refused

Where whatever is asked about some apps is answered with no, none of their sessions stays live.
The recheck of a start ends those that are there. Afterwards a session keeps its uid, except
that a packet that is let through tells it, and none is opened for a packet that is not.
-/
namespace NetGuard.Engine

section Uid
variable {env : Env} {args : Arguments}

@[simp] theorem writeRst_uid (c : Conn) : (writeRst env c).tcp.uid = c.tcp.uid := by
  simp [writeRst_eq]

@[simp] theorem writeOrClose_uid (c : Conn) (data : List UInt8) (syn fin : Bool) :
    (writeOrClose env c data syn fin).1.tcp.uid = c.tcp.uid := by
  simp [writeOrClose_eq]

theorem socksReply_uid (buffer : List UInt8) (c : Conn) :
    (socksReply env buffer c).tcp.uid = c.tcp.uid := by
  simp only [socksReply, socksFailed]
  repeat' split
  all_goals simp

theorem socksRecv_uid (c : Conn) : (socksRecv env c).tcp.uid = c.tcp.uid := by
  unfold socksRecv
  split <;> simp [socksReply_uid]

theorem socksSend_uid (message : List UInt8) (c : Conn) :
    (socksSend env message c).tcp.uid = c.tcp.uid := by
  unfold socksSend
  split <;> simp

theorem socksNext_uid (c : Conn) : (socksNext env args c).tcp.uid = c.tcp.uid := by
  unfold socksNext
  split
  · exact socksSend_uid _ c
  · exact socksSend_uid _ c
  · exact socksSend_uid _ c
  · simp only [confirmConnect, writeSynAck, writeOrClose_eq]
    cases env.tunWrite c.out <;> rfl
  · rfl

theorem checkListen_uid (ev : Events) (c : Conn) :
    (checkListen env args ev c).tcp.uid = c.tcp.uid := by
  simp only [checkListen, socksNext_uid]
  split
  · split <;> rfl
  · split
    · exact socksRecv_uid c
    · rfl

theorem forwardLoop_uid (queue : List Segment) (c : Conn) (bufferSize : UInt32) (fwd : Bool) :
    (forwardLoop env queue c bufferSize fwd).1.tcp.uid = c.tcp.uid := by
  induction queue generalizing c bufferSize fwd with
  | nil => rfl
  | cons seg rest ih =>
    rw [forwardLoop]
    split
    · dsimp only
      split
      · rfl
      · exact writeRst_uid _
      · split
        · exact ih _ _ _
        · rfl
    · rfl

theorem forwardData_uid (ev : Events) (c : Conn) :
    (forwardData env ev c).1.tcp.uid = c.tcp.uid := by
  unfold forwardData
  split
  · exact forwardLoop_uid _ _ _ _
  · rfl

theorem confirmForward_uid (fwd : Bool) (c : Conn) :
    (confirmForward env fwd c).tcp.uid = c.tcp.uid := by
  simp only [confirmForward, writeAck, writeOrClose_eq]
  generalize hcounted : (if fwd ∧ c.tcp.forward.isEmpty ∧ c.tcp.state = .closeWait then
    { c with tcp.remoteSeq := c.tcp.remoteSeq + 1 } else c) = counted
  have huid : counted.tcp.uid = c.tcp.uid := by
    rw [← hcounted]
    split <;> rfl
  cases env.tunWrite counted.out <;> exact huid

theorem updateWindow_uid (fwd : Bool) (c : Conn) :
    (updateWindow env fwd c).tcp.uid = c.tcp.uid := by
  simp only [updateWindow]
  split
  · rw [confirmForward_uid]
    rfl
  · rfl

theorem readEof_uid (c : Conn) : (readEof env c).tcp.uid = c.tcp.uid := by
  have hfin : (if (writeFinAck env c).2 = true then { (writeFinAck env c).1 with
      tcp.localSeq := (writeFinAck env c).1.tcp.localSeq + 1 }
      else (writeFinAck env c).1).tcp.uid = c.tcp.uid := by
    split <;> simp [writeFinAck]
  simp only [readEof]
  split
  · split <;> simp [hfin]
  · simp

theorem inspectDns_uid (buffer : List UInt8) (c : Conn) :
    (inspectDns buffer c).tcp.uid = c.tcp.uid := by
  unfold inspectDns
  split <;> rfl

theorem readData_uid (buffer : List UInt8) (c : Conn) :
    (readData env args buffer c).tcp.uid = c.tcp.uid := by
  simp [readData, forwardBytes_eq, inspectDns_uid]

theorem readSocket_uid (ev : Events) (c : Conn) :
    (readSocket env args ev c).tcp.uid = c.tcp.uid := by
  unfold readSocket
  split
  · dsimp only
    split <;> simp [readData_uid, readEof_uid]
  · rfl

theorem checkOpen_uid (ev : Events) (c : Conn) :
    (checkOpen env args ev c).tcp.uid = c.tcp.uid := by
  simp only [checkOpen]
  split <;> simp [readSocket_uid, updateWindow_uid, forwardData_uid]

theorem checkTcpSocket_uid (ev : Events) (c : Conn) :
    (checkTcpSocket env args ev c).tcp.uid = c.tcp.uid := by
  unfold checkTcpSocket
  split
  · simp
  · split
    · exact checkListen_uid ev c
    · exact checkOpen_uid ev c

theorem monitorEvents_uid (c : Conn) : (monitorEvents env c).2.2.tcp.uid = c.tcp.uid := by
  have hkept : (keepAlive env c).tcp.uid = c.tcp.uid := by
    simp only [keepAlive, writeAck]
    split <;> simp
  have hsent : (if getSendWindow c.tcp > 0 then c else keepAlive env c).tcp.uid = c.tcp.uid := by
    split
    · rfl
    · exact hkept
  simp only [monitorEvents]
  split
  · rfl
  · split
    · split <;> simpa [probeBuffer] using hsent
    · rfl

theorem monitorTcpSession_uid (c : Conn) : (monitorTcpSession env c).1.tcp.uid = c.tcp.uid := by
  simp only [monitorTcpSession]
  split
  · split <;> simp [monitorEvents_uid]
  · exact monitorEvents_uid c

theorem closeSession_uid (c : Conn) : (closeSession env c).tcp.uid = c.tcp.uid := by
  simp only [closeSession]
  split
  · split <;> rfl
  · rfl

theorem checkTcpSession_uid (sessions maxsessions : Int) (c : Conn) :
    (checkTcpSession env sessions maxsessions c).1.tcp.uid = c.tcp.uid := by
  simp only [checkTcpSession]
  generalize htimed : (if c.tcp.state ≠ .closing ∧ c.tcp.state ≠ .close ∧
    c.tcp.time + getTcpTimeout c.tcp sessions maxsessions < env.time c.out then
      if c.tcp.state = .listen then c.setState .closing else writeRst env c
    else c) = timed
  have huid : timed.tcp.uid = c.tcp.uid := by
    rw [← htimed]
    split
    · split <;> simp
    · rfl
  split <;> exact (closeSession_uid timed).trans huid

theorem checkUdpSession_uid (sessions maxsessions : Int) (d : Datagram) :
    (checkUdpSession env sessions maxsessions d).1.udp.uid = d.udp.uid := by
  simp only [checkUdpSession]
  repeat' split
  all_goals rfl

theorem checkUdpSocket_uid (ev : Events) (d : Datagram) :
    (checkUdpSocket env args ev d).udp.uid = d.udp.uid := by
  simp only [checkUdpSocket, readDatagram, writeUdp]
  repeat' split
  all_goals rfl

theorem checkDhcp_uid (data : List UInt8) (d : Datagram) :
    (checkDhcp env data d).1.udp.uid = d.udp.uid := by
  simp only [checkDhcp, writeUdp]
  repeat' split
  all_goals rfl

theorem forwardDatagram_uid (flow : Flow) (data : List UInt8) (d : Datagram) :
    (forwardDatagram env flow data d).udp.uid = d.udp.uid := by
  simp only [forwardDatagram]
  generalize hdhcp : (if flow.source = 68 ∨ flow.dest = 67 then checkDhcp env data d
    else (d, false)) = r
  have huid : r.1.udp.uid = d.udp.uid := by
    rw [← hdhcp]
    split
    · exact checkDhcp_uid data d
    · rfl
  split
  · exact huid
  · split <;> exact huid

theorem readReply_uid (buffer : List UInt8) (e : Echo) :
    (readReply env args buffer e).icmp.uid = e.icmp.uid := by
  cases hwritten : env.tunWrite e.out <;> simp [readReply, writeIcmp, Echo.emit, hwritten]

theorem checkIcmpSocket_uid (ev : Events) (e : Echo) :
    (checkIcmpSocket env args ev e).icmp.uid = e.icmp.uid := by
  simp only [checkIcmpSocket]
  split
  · rfl
  · split
    · split
      · exact readReply_uid _ _
      · rfl
      · rfl
      · rfl
    · rfl

theorem sendRequest_uid (daddr : Address) (message : List UInt8) (e : Echo) :
    (sendRequest env daddr message e).icmp.uid = e.icmp.uid := by
  simp only [sendRequest]
  split <;> rfl

end Uid

section Ages
variable {args : Arguments} {s t : NgSession} {out : Trace}

/-- The second entry is of the same app as the first, and live at most if the first is. -/
structure NgSession.Ages (s t : NgSession) : Prop where
  uid : t.uid = s.uid
  live : t.live = true → s.live = true

theorem NgSession.Ages.refl (s : NgSession) : s.Ages s := ⟨rfl, id⟩

theorem NgSession.Ages.of_swept {out' : Trace} (hswept : Swept args s out (some t, out'))
    (huid : t.uid = s.uid) : s.Ages t := by
  refine ⟨huid, fun ht => ?_⟩
  cases hswept with
  | untouched => exact ht
  | kept htouched => exact htouched.live ht

theorem NgSession.Ages.of_entry {r : Option NgSession × Trace} (hswept : Swept args s out r)
    (hkept : r.1 = some t) (huid : t.uid = s.uid) : s.Ages t := by
  obtain ⟨kept, out'⟩ := r
  obtain rfl : kept = some t := hkept
  exact .of_swept hswept huid

theorem monitorEntry_ages (env : Env) (args : Arguments)
    (h : (monitorEntry env s out).1 = some t) : s.Ages t := by
  refine .of_entry (monitorEntry_swept env args s out) h ?_
  cases s with
  | icmp s sock =>
    obtain rfl := Option.some.inj h
    rfl
  | udp s sock =>
    obtain rfl := Option.some.inj h
    rfl
  | tcp s sock events =>
    simp only [monitorEntry] at h
    split at h
    · obtain rfl := Option.some.inj h
      exact monitorTcpSession_uid _
    · obtain rfl := Option.some.inj h
      rfl

theorem checkEntry_ages (env : Env) (args : Arguments) {sessions maxsessions : Int}
    (h : (checkEntry env sessions maxsessions s out).1 = some t) : s.Ages t := by
  refine .of_entry (checkEntry_swept env args s out sessions maxsessions) h ?_
  cases s with
  | icmp s sock =>
    have huid : (checkIcmpSession (env.after out) sessions maxsessions ⟨s, sock, []⟩).1.icmp.uid =
        s.uid := by
      simp only [checkIcmpSession]
      split <;> rfl
    obtain ⟨-, ht⟩ := Option.ite_none_left_eq_some.mp h
    rw [← Option.some.inj ht]
    exact huid
  | udp s sock =>
    obtain ⟨-, ht⟩ := Option.ite_none_left_eq_some.mp h
    rw [← Option.some.inj ht]
    exact checkUdpSession_uid sessions maxsessions _
  | tcp s sock events =>
    obtain ⟨-, ht⟩ := Option.ite_none_left_eq_some.mp h
    rw [← Option.some.inj ht]
    exact checkTcpSession_uid sessions maxsessions _

theorem checkSocket_ages (env : Env) (args : Arguments) (ev : Events) (s : NgSession) :
    s.Ages (checkSocket env args ev s).1 := by
  refine ⟨?_, (checkSocket_touched env args s ev).live⟩
  cases s with
  | icmp s sock => exact checkIcmpSocket_uid ev _
  | udp s sock =>
    simp only [checkSocket]
    split
    · exact checkUdpSocket_uid ev _
    · rfl
  | tcp s sock events => exact checkTcpSocket_uid ev _

end Ages

section Barred
variable {V : Int → Prop} {env : Env} {args : Arguments} {p : Packet} {h : IpHdr} {uid : Int}
  {s t : NgSession} {out : Trace} {ctx ctx' : Context}

/-- Whatever is asked about the apps is answered with no. -/
def Env.Refuses (V : Int → Prop) (env : Env) : Prop :=
  ∀ out q uid, V uid → env.isAddressAllowed out q uid = false

/-- The entry is not a live one of these apps. -/
def NgSession.Barred (V : Int → Prop) (s : NgSession) : Prop := s.live = true → ¬ V s.uid

theorem NgSession.Barred.ages (h : s.Barred V) (hages : s.Ages t) : t.Barred V := by
  intro ht
  rw [hages.uid]
  exact h (hages.live ht)

theorem NgSession.barred_of_over (h : s.live = false) : s.Barred V := by
  intro hlive
  rw [h] at hlive
  exact absurd hlive Bool.false_ne_true

theorem Env.Refuses.after (h : env.Refuses V) (pre : Trace) : (env.after pre).Refuses V :=
  fun out q uid hV => h (pre ++ out) q uid hV

/-- The recheck ends the sessions of these apps. -/
theorem checkAllowedEntry_barred (hrefuses : env.Refuses V) (hobserve : args.observeOnly = false)
    (h : (checkAllowedEntry env args s out).1 = some t) : t.Barred V := by
  intro hlive hV
  cases s with
  | icmp s sock =>
    simp only [checkAllowedEntry, hobserve, Bool.false_eq_true, or_false] at h
    split at h
    next hstop =>
      obtain rfl := Option.some.inj h
      simp [NgSession.live, hstop] at hlive
    next =>
      obtain rfl := Option.some.inj h
      split at hlive
      next hallowed =>
        rw [if_pos hallowed] at hV
        have hrefused := hrefuses out (NgSession.verdictQuery (.icmp s sock)) s.uid hV
        exact absurd (hallowed.symm.trans hrefused) Bool.noConfusion
      next => simp [NgSession.live] at hlive
  | udp s sock =>
    simp only [checkAllowedEntry, hobserve, Bool.false_eq_true, if_false] at h
    split at h
    · obtain rfl := Option.some.inj h
      split at hlive
      next hallowed =>
        rw [if_pos hallowed] at hV
        have hrefused := hrefuses out (NgSession.verdictQuery (.udp s sock)) s.uid hV
        exact absurd (hallowed.symm.trans hrefused) Bool.noConfusion
      next => simp [NgSession.live] at hlive
    · exact absurd h.symm (Option.some_ne_none _)
    next hactive hblocked =>
      obtain rfl := Option.some.inj h
      exact hactive (by simpa [NgSession.live] using hlive)
  | tcp s sock events =>
    obtain rfl := Option.some.inj h
    simp only [Conn.entry, NgSession.live_tcp] at hlive
    simp only [checkTcpAllowed, hobserve, Bool.false_eq_true, or_false] at hlive hV
    split at hlive
    next hover => exact hlive hover
    next hover =>
      rw [if_neg hover] at hV
      split at hlive
      next hallowed =>
        rw [if_pos hallowed] at hV
        have hrefused := hrefuses.after out [] s.query s.uid hV
        exact absurd (hallowed.symm.trans hrefused) Bool.noConfusion
      next => exact hlive (writeRst_over _ _)

/-- A packet that is let through is not one of these apps. -/
theorem letThrough_uid (hrefuses : env.Refuses V) (hobserve : args.observeOnly = false)
    (hthrough : letThrough env args p h ctx = true) : ¬ V (judgePacket env p h ctx).1 := by
  intro hV
  have hallowed : (judgePacket env p h ctx).2.1 = true := by
    simpa [letThrough, hobserve] using hthrough
  simp only [judgePacket] at hallowed hV
  simp only [checkAllowedPacket, hrefuses _ _ _ hV] at hallowed
  split at hallowed
  · exact absurd hallowed Bool.false_ne_true
  · exact absurd hallowed Bool.false_ne_true

/-- A session that takes the uid of a packet or keeps its own. -/
theorem NgSession.Barred.told {found : Int} (huid : ¬ V uid) (h : ¬ V found) :
    ¬ V (if found = -1 ∧ uid > 0 then uid else found) := by
  split
  · exact huid
  · exact h

theorem barred_replace {before rest : List NgSession}
    (hall : ∀ a ∈ before ++ s :: rest, NgSession.Barred V a) (ht : s.Barred V → t.Barred V) :
    ∀ a ∈ before ++ t :: rest, NgSession.Barred V a := by
  rw [List.forall_mem_append, List.forall_mem_cons] at hall ⊢
  exact ⟨hall.1, ht hall.2.1, hall.2.2⟩

theorem IcmpHandled.barred
    (hhandled : IcmpHandled env args p h.version h.payload uid ctx ctx') (huid : ¬ V uid)
    (hall : ∀ s ∈ ctx.ngSession, s.Barred V) : ∀ s ∈ ctx'.ngSession, s.Barred V := by
  cases hhandled with
  | ignored => exact hall
  | @found before rest s s' sock e hecho hlist hends hstop hs' he =>
    rw [hlist] at hall
    refine barred_replace hall fun hbarred _ => ?_
    have hsame : e.icmp.uid = if s.uid = -1 ∧ uid > 0 then uid else s.uid := by
      rw [he, sendRequest_uid, hs']
      split <;> rfl
    rw [NgSession.uid, hsame]
    exact NgSession.Barred.told huid (hbarred (by simp [NgSession.live, hstop]))
  | refused => exact hall
  | @opened e₀ e out hecho hnone hopened he =>
    obtain ⟨-, rfl⟩ := newIcmpSession_some hopened
    refine List.forall_mem_cons.mpr ⟨fun _ => ?_, hall⟩
    rw [NgSession.uid, he, sendRequest_uid]
    exact huid

theorem UdpHandled.barred
    (hhandled : UdpHandled env args p h.version h.payload uid ctx ctx') (huid : ¬ V uid)
    (hall : ∀ s ∈ ctx.ngSession, s.Barred V) : ∀ s ∈ ctx'.ngSession, s.Barred V := by
  cases hhandled with
  | ignored => exact hall
  | @found before rest s s' sock d hlist hflow hstate hs' hd =>
    rw [hlist] at hall
    refine barred_replace hall fun hbarred _ => ?_
    have hsame : d.udp.uid = if s.uid = -1 ∧ uid > 0 then uid else s.uid := by
      rw [hd, forwardDatagram_uid, hs']
      split <;> rfl
    rw [NgSession.uid, hsame]
    exact NgSession.Barred.told huid (hbarred (by simp [NgSession.live, hstate]))
  | refused => exact hall
  | @opened d₀ d out hnone hopened hd =>
    obtain ⟨-, rfl⟩ := newUdpSession_some hopened
    refine List.forall_mem_cons.mpr ⟨fun _ => ?_, hall⟩
    rw [NgSession.uid, hd, forwardDatagram_uid]
    exact huid

end Barred

section Segment
variable {env : Env}

theorem handleFin_uid (c : Conn) : (handleFin env c).tcp.uid = c.tcp.uid := by
  simp only [handleFin, writeAck, writeOrClose_eq]
  split
  · split
    · cases env.tunWrite c.out <;> rfl
    · rfl
  · cases env.tunWrite c.out <;> rfl
  · rfl

theorem handleFlags_uid (tcphdr : TcpHdr) (c : Conn) :
    (handleFlags env tcphdr c).tcp.uid = c.tcp.uid := by
  unfold handleFlags
  split
  · rfl
  · split
    · split
      · rfl
      · split
        · exact handleFin_uid c
        · split
          · simp only [handleAck]
            split <;> rfl
          · rfl
    · simp only [handleOtherAck]
      split
      · rfl
      · split
        · split <;> rfl
        · exact writeRst_uid c

theorem handleOpen_uid (tcphdr : TcpHdr) (data : Payload) (c : Conn) :
    (handleOpen env tcphdr data c).tcp.uid = c.tcp.uid := by
  simp only [handleOpen]
  generalize hstamped : (if tcphdr.syn then c else { c with tcp.time := env.time c.out }) = stamped
  have huid : stamped.tcp.uid = c.tcp.uid := by
    rw [← hstamped]
    split <;> rfl
  split
  · rw [handleFlags_uid]
    exact huid
  · split
    · rw [writeRst_uid]
      exact huid
    · split
      · rw [writeRst_uid]
        exact huid
      · rw [handleFlags_uid, queueTcp_eq]
        exact huid

/-- A session that does not know its uid takes that of a segment. -/
theorem handleSegment_uid (tcphdr : TcpHdr) (data : Payload) (uid : Int) (allowed : Bool)
    (c : Conn) : (handleSegment env tcphdr data uid allowed c).tcp.uid =
      if c.tcp.uid = -1 ∧ uid > 0 then uid else c.tcp.uid := by
  simp only [handleSegment]
  generalize htold : (if c.tcp.uid = -1 ∧ uid > 0 then { c with tcp.uid := uid } else c) = told
  have huid : told.tcp.uid = if c.tcp.uid = -1 ∧ uid > 0 then uid else c.tcp.uid := by
    rw [← htold]
    split <;> rfl
  split
  · rw [writeRst_uid, huid]
  · split
    · rw [writeRst_uid, huid]
    · rw [handleOpen_uid, huid]

end Segment

section Bars
variable {V : Int → Prop} {env : Env} {args : Arguments} {p : Packet} {h : IpHdr} {uid : Int}
  {through : Bool} {ctx ctx' : Context}

theorem TcpHandled.barred
    (hhandled : TcpHandled env args p h.version h.payload uid through ctx ctx')
    (huid : through = true → ¬ V uid) (hall : ∀ s ∈ ctx.ngSession, s.Barred V) :
    ∀ s ∈ ctx'.ngSession, s.Barred V := by
  cases hhandled with
  | urgent => exact hall
  | @found before rest s sock events c hurg hlist hflow hc =>
    rw [hlist] at hall
    refine barred_replace hall fun hbarred hlive => ?_
    cases through with
    | true =>
      have hwas : ¬ s.state.Over := by
        intro hover
        have hended : ((TcpEvent.segment (p.tcphdr h.payload)
            (p.payloadFrom (p.tcpData h.payload)) uid true).handle (env.after ctx.out) args
            ⟨s, sock, events, []⟩).tcp.state.Over := handle_over _ _ hover
        simp only [TcpEvent.handle, hurg, Bool.false_eq_true, if_false, ← hc] at hended
        exact NgSession.live_tcp.mp hlive hended
      have hsame : c.tcp.uid = if s.uid = -1 ∧ uid > 0 then uid else s.uid := by
        rw [hc, handleSegment_uid]
      have hnot := NgSession.Barred.told (huid rfl) (hbarred (NgSession.live_tcp.mpr hwas))
      exact fun hV => hnot (hsame ▸ hV)
    | false =>
      have hended : c.tcp.state.Over := by
        rw [hc]
        simp only [handleSegment, Bool.not_false, if_true]
        exact writeRst_over _ _
      exact (NgSession.live_tcp.mp hlive hended).elim
  | endless => exact hall
  | @syn mss ws opened out hurg hnone hsyn hoptions hopened =>
    cases opened with
    | none => exact hall
    | some c =>
      obtain ⟨-, window, ok, d, hd, hc, -⟩ := newTcpSession_some hopened
      refine List.forall_mem_cons.mpr ⟨fun hlive => ?_, hall⟩
      cases through with
      | true =>
        have hsame : c.tcp.uid = uid := by
          rw [hc, if_pos rfl, hd]
          rfl
        exact fun hV => huid rfl (hsame ▸ hV)
      | false =>
        have hended : c.tcp.state.Over := by
          rw [hc]
          exact writeRst_over _ _
        exact (NgSession.live_tcp.mp hlive hended).elim
  | unknown => exact hall

/-- No live session is one of these apps, unless nothing is enforced at all. -/
def EventLoop.Bars (V : Int → Prop) (l : EventLoop) : Prop :=
  l.args.observeOnly = false → ∀ s ∈ l.ngSession, s.Barred V

variable {l : EventLoop}

theorem handlePacket_barred (hrefuses : env.Refuses V) (hobserve : args.observeOnly = false)
    (hall : ∀ s ∈ ctx.ngSession, s.Barred V) :
    ∀ s ∈ (handlePacket env args p h ctx).ngSession, s.Barred V := by
  have hhandled : PacketHandled env args p h (letThrough env args p h ctx) (judgePacket env p h ctx).1
      (judgePacket env p h ctx).2.2.2 (handlePacket env args p h ctx) := handlePacket_handled
  have huid : letThrough env args p h ctx = true → ¬ V (judgePacket env p h ctx).1 :=
    letThrough_uid hrefuses hobserve
  have hjudged : ∀ s ∈ (judgePacket env p h ctx).2.2.2.ngSession, s.Barred V := by
    rw [(judgePacket_asks env p h ctx).ngSession]
    exact hall
  generalize letThrough env args p h ctx = through at hhandled huid
  generalize handlePacket env args p h ctx = ctx' at hhandled ⊢
  cases hhandled with
  | icmp hthrough hicmp hhandled => exact hhandled.barred (huid hthrough) hjudged
  | udp hthrough hudp hhandled => exact hhandled.barred (huid hthrough) hjudged
  | tcp htcp hhandled => exact hhandled.barred huid hjudged
  | blocked =>
    exact List.forall_mem_cons.mpr ⟨NgSession.barred_of_over rfl, hjudged⟩
  | other => exact hjudged

/-- A start bars the apps, whatever sessions it finds. -/
theorem EventLoop.bars_start (hrefuses : env.Refuses V) (args : Arguments) (soft : Option UInt64) :
    (l.step (env, .start args soft)).Bars V := by
  intro hobserve t ht
  obtain ⟨s, out, -, hkept, -⟩ := Table.mem_sweep (R := fun _ _ => True) (fun _ => trivial)
    (fun _ _ _ _ _ => trivial) (fun _ _ => trivial) ht
  exact checkAllowedEntry_barred hrefuses hobserve hkept

theorem EventLoop.Bars.step (hbars : l.Bars V) (e : Env × LoopEvent) (hrefuses : e.1.Refuses V) :
    (l.step e).Bars V := by
  obtain ⟨env, event⟩ := e
  have hages : ∀ t s : NgSession, s.Ages t → s.Barred V → t.Barred V := fun _ _ h hs => hs.ages h
  cases event with
  | start args soft => exact EventLoop.bars_start hrefuses args soft
  | head =>
    have hmonitor : ∀ s out t, (monitorEntry env s out).1 = some t → s.Ages t :=
      fun _ _ _ h => monitorEntry_ages env l.args h
    have hcheck : ∀ s out t, (checkEntry env (countSessions l.ngSession) l.maxsessions s out).1 =
        some t → s.Ages t := fun _ _ _ h => checkEntry_ages env l.args h
    have hmonitored (hall : ∀ s ∈ l.ngSession, s.Barred V) :
        ∀ t ∈ (Table.sweep (monitorEntry env) l.ngSession []).1, t.Barred V :=
      Table.forall_later hages (Table.sweep_later hmonitor l.ngSession []) hall
    simp only [EventLoop.step, LoopEvent.handle, EventLoop.head]
    split
    · intro hobserve
      exact Table.forall_later hages (Table.sweep_later hcheck _ _) (hmonitored (hbars hobserve))
    · exact fun hobserve => hmonitored (hbars hobserve)
  | tun p =>
    intro hobserve
    simp only [EventLoop.step, LoopEvent.handle, EventLoop.tun] at hobserve ⊢
    exact handleIp_sessions (P := fun list => ∀ s ∈ list, s.Barred V) (hbars hobserve)
      fun h _ => handlePacket_barred hrefuses hobserve (hbars hobserve)
  | socket i ev =>
    simp only [EventLoop.step, LoopEvent.handle, EventLoop.socket]
    split
    next before s rest heq =>
      intro hobserve
      have hall := hbars hobserve
      rw [Table.eq_append_of_splitAt heq] at hall
      exact barred_replace hall fun hs => hs.ages (checkSocket_ages _ _ ev s)
    next => exact hbars
  | clear =>
    intro _ t ht
    obtain ⟨s, out, -, hkept, -⟩ := Table.mem_sweep (R := fun _ _ => True) (fun _ => trivial)
      (fun _ _ _ _ _ => trivial) (fun _ _ => trivial) ht
    exact absurd hkept.symm (Option.some_ne_none _)

end Bars

end NetGuard.Engine
