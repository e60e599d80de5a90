import NetGuard.Loop.Entry
import NetGuard.Loop.Packet

/-! # Observation

With `observeOnly` a verdict of the service reaches nothing but the log: two runs that differ
in their verdicts only have the same sessions and make the same calls. The verdict on QUIC is
not one of these.
-/
namespace NetGuard.Engine

section Visible

/-- A call as it looks without verdicts: no question about a name, which is asked only about
an allowed address, and no flag in the log. -/
def Output.visible : Output → Option Output
  | .upcall (.isDomainBlocked _ _) => none
  | .upcall (.logTraffic q length uid _ outgoing) =>
    some (.upcall (.logTraffic q length uid true outgoing))
  | o => some o

def Trace.visible (out : Trace) : Trace := out.filterMap Output.visible

@[simp] theorem Trace.visible_append (out out' : Trace) :
    Trace.visible (out ++ out') = Trace.visible out ++ Trace.visible out' :=
  List.filterMap_append

def Env.judging (env : Env) (isAddressAllowed : Trace → Query → Int → Bool)
    (isDomainBlocked : Trace → Int → List UInt8 → Bool) : Env :=
  { env with isAddressAllowed, isDomainBlocked }

/-- After the same visible calls the second environment is the first one with other verdicts
on addresses and names. -/
def Env.SameOutside (env env' : Env) : Prop :=
  ∀ pre pre' : Trace, Trace.visible pre = Trace.visible pre' →
    ∃ allowed blocked, env'.after pre' = (env.after pre).judging allowed blocked

@[simp] theorem Env.after_nil (env : Env) : env.after [] = env := rfl

end Visible

section Sockets
variable (env : Env) (args : Arguments) (allowed : Trace → Query → Int → Bool)
  (blocked : Trace → Int → List UInt8 → Bool)

theorem logIncoming_judging (q : Query) (length : Nat) (uid : Int) (out : Trace) :
    Trace.visible (logIncoming (env.judging allowed blocked) args q length uid out) =
      Trace.visible (logIncoming env args q length uid out) := by
  simp only [logIncoming, Env.judging]
  split
  · rw [Trace.visible_append, Trace.visible_append]
    rfl
  · rfl

/-- Two results of a call that differ in the verdicts of the log only. -/
def Conn.Same (c d : Conn) : Prop :=
  c.entry = d.entry ∧ Trace.visible c.out = Trace.visible d.out

def Datagram.Same (d d' : Datagram) : Prop :=
  NgSession.udp d.udp d.socket = .udp d'.udp d'.socket ∧ Trace.visible d.out = Trace.visible d'.out

def Echo.Same (e e' : Echo) : Prop :=
  NgSession.icmp e.icmp e.socket = .icmp e'.icmp e'.socket ∧
    Trace.visible e.out = Trace.visible e'.out

theorem Conn.Same.refl (c : Conn) : c.Same c := ⟨rfl, rfl⟩

theorem forwardLoop_judging (queue : List Segment) (c : Conn) (bufferSize : UInt32) (fwd : Bool) :
    forwardLoop (env.judging allowed blocked) queue c bufferSize fwd =
      forwardLoop env queue c bufferSize fwd := by
  induction queue generalizing c bufferSize fwd with
  | nil => rfl
  | cons seg rest ih =>
    simp only [forwardLoop, ih]
    rfl

theorem readData_judging (buffer : List UInt8) (c : Conn) :
    (readData (env.judging allowed blocked) args buffer c).Same (readData env args buffer c) :=
  ⟨rfl, logIncoming_judging env args allowed blocked _ _ _ _⟩

theorem readSocket_judging (ev : Events) (c : Conn) :
    (readSocket (env.judging allowed blocked) args ev c).Same (readSocket env args ev c) := by
  simp only [readSocket, Env.judging]
  split
  · split
    · exact readData_judging env args allowed blocked _ _
    · exact .refl _
    · exact .refl _
    · exact .refl _
  · exact .refl _

theorem checkOpen_judging (ev : Events) (c : Conn) :
    (checkOpen (env.judging allowed blocked) args ev c).Same (checkOpen env args ev c) := by
  have hforward : forwardData (env.judging allowed blocked) ev c = forwardData env ev c := by
    simp only [forwardData, forwardLoop_judging]
    rfl
  have hwindow (fwd : Bool) (c : Conn) :
      updateWindow (env.judging allowed blocked) fwd c = updateWindow env fwd c := rfl
  simp only [checkOpen, hforward, hwindow]
  split
  · exact readSocket_judging env args allowed blocked ev _
  · exact .refl _

theorem checkTcpSocket_judging (ev : Events) (c : Conn) :
    (checkTcpSocket (env.judging allowed blocked) args ev c).Same
      (checkTcpSocket env args ev c) := by
  simp only [checkTcpSocket]
  split
  · exact .refl _
  split
  · exact .refl _
  · exact checkOpen_judging env args allowed blocked ev c

theorem checkUdpSocket_judging (ev : Events) (d : Datagram) :
    (checkUdpSocket (env.judging allowed blocked) args ev d).Same
      (checkUdpSocket env args ev d) := by
  simp only [checkUdpSocket, Env.judging]
  split
  · exact ⟨rfl, rfl⟩
  split
  · split
    · exact ⟨rfl, logIncoming_judging env args allowed blocked _ _ _ _⟩
    · exact ⟨rfl, rfl⟩
    · exact ⟨rfl, rfl⟩
    · exact ⟨rfl, rfl⟩
  · exact ⟨rfl, rfl⟩

theorem checkIcmpSocket_judging (ev : Events) (e : Echo) :
    (checkIcmpSocket (env.judging allowed blocked) args ev e).Same
      (checkIcmpSocket env args ev e) := by
  simp only [checkIcmpSocket, Env.judging]
  split
  · exact ⟨rfl, rfl⟩
  split
  · generalize env.recv e.out (if e.icmp.version = .v4 then 65535 - 20 - 8 else 65535 - 40 - 8) =
      result
    split
    · exact ⟨rfl, logIncoming_judging env args allowed blocked _ _ _ _⟩
    · exact ⟨rfl, rfl⟩
    · exact ⟨rfl, rfl⟩
    · exact ⟨rfl, rfl⟩
  · exact ⟨rfl, rfl⟩

theorem checkSocket_judging (ev : Events) (s : NgSession) :
    (checkSocket (env.judging allowed blocked) args ev s).1 = (checkSocket env args ev s).1 ∧
      Trace.visible (checkSocket (env.judging allowed blocked) args ev s).2 =
        Trace.visible (checkSocket env args ev s).2 := by
  cases s with
  | icmp s sock => exact checkIcmpSocket_judging env args allowed blocked ev ⟨s, sock, []⟩
  | udp s sock =>
    simp only [checkSocket]
    split
    · exact checkUdpSocket_judging env args allowed blocked ev ⟨s, sock, []⟩
    · exact ⟨rfl, rfl⟩
  | tcp s sock events =>
    exact checkTcpSocket_judging env args allowed blocked ev ⟨s, sock, events, []⟩

end Sockets

section Packets
variable {env env' : Env} {args : Arguments} {p : Packet} {h : IpHdr} {uid : Int}
  {ctx ctx' : Context} {allowed : Trace → Query → Int → Bool}
  {blocked : Trace → Int → List UInt8 → Bool}

/-- Two states of a dispatch that differ in the verdicts it asked for only. -/
structure Context.Same (ctx ctx' : Context) : Prop where
  ngSession : ctx'.ngSession = ctx.ngSession
  out : Trace.visible ctx'.out = Trace.visible ctx.out

def Context.behind (pre : Trace) (ctx : Context) : Context := ⟨ctx.ngSession, pre ++ ctx.out⟩

theorem handleTcp_behind (env : Env) (args : Arguments) (p : Packet) (version : IpVersion)
    (payload : Nat) (uid : Int) (allowed : Bool) (ctx : Context) :
    handleTcp env args p version payload uid allowed ctx =
      (handleTcp (env.after ctx.out) args p version payload uid allowed
        ⟨ctx.ngSession, []⟩).behind ctx.out := by
  simp only [handleTcp, Env.after_nil]
  split
  · simp [Context.behind]
  split
  · simp [Context.behind]
  split
  · split
    · rfl
    split
    · rfl
    · rfl
  · rfl

theorem handleUdp_behind (env : Env) (p : Packet) (version : IpVersion) (payload : Nat)
    (uid : Int) (ctx : Context) : handleUdp env args p version payload uid ctx =
      (handleUdp (env.after ctx.out) args p version payload uid ⟨ctx.ngSession, []⟩).behind ctx.out := by
  simp only [handleUdp, Env.after_nil]
  split
  · split
    · simp [Context.behind]
    · rfl
  split
  · rfl
  · rfl

theorem handleIcmp_behind (env : Env) (p : Packet) (version : IpVersion) (payload : Nat)
    (uid : Int) (ctx : Context) : handleIcmp env args p version payload uid ctx =
      (handleIcmp (env.after ctx.out) args p version payload uid ⟨ctx.ngSession, []⟩).behind ctx.out := by
  simp only [handleIcmp, Env.after_nil]
  split
  · simp [Context.behind]
  split
  · rfl
  split
  · rfl
  · rfl

theorem handleAllowed_behind (env : Env) (args : Arguments) (p : Packet) (h : IpHdr) (uid : Int)
    (ctx : Context) : handleAllowed env args p h uid ctx =
      (handleAllowed (env.after ctx.out) args p h uid ⟨ctx.ngSession, []⟩).behind ctx.out := by
  simp only [handleAllowed]
  split
  · exact handleIcmp_behind ..
  split
  · exact handleUdp_behind ..
  split
  · exact handleTcp_behind ..
  · simp [Context.behind]

theorem handleBlocked_behind (env : Env) (args : Arguments) (p : Packet) (h : IpHdr) (uid : Int)
    (allowed : Bool) (ctx : Context) : handleBlocked env args p h uid allowed ctx =
      (handleBlocked (env.after ctx.out) args p h uid allowed
        ⟨ctx.ngSession, []⟩).behind ctx.out := by
  simp only [handleBlocked]
  split
  · simp [blockUdp, Context.behind, Env.after]
  split
  · exact handleTcp_behind ..
  · simp [Context.behind]

theorem Context.Same.behind {pre pre' : Trace} (hpre : Trace.visible pre' = Trace.visible pre)
    (ctx : Context) : (ctx.behind pre).Same (ctx.behind pre') := by
  refine ⟨rfl, ?_⟩
  simp only [Context.behind, Trace.visible_append, hpre]

theorem Env.judging_after (env : Env) (pre : Trace) : (env.judging allowed blocked).after pre =
    (env.after pre).judging (fun out => allowed (pre ++ out)) (fun out => blocked (pre ++ out)) :=
  rfl

theorem handleTcp_judging (version : IpVersion) (payload : Nat) (verdict : Bool) :
    handleTcp (env.judging allowed blocked) args p version payload uid verdict ctx =
      handleTcp env args p version payload uid verdict ctx := by
  have hsegment {allowed blocked} (env : Env) (tcphdr : TcpHdr) (data : Payload) (c : Conn) :
      handleSegment (env.judging allowed blocked) tcphdr data uid verdict c =
        handleSegment env tcphdr data uid verdict c := rfl
  have hopen {allowed blocked} (env : Env) (flow : Flow) (tcphdr : TcpHdr) (data : Payload)
      (mss : UInt16) (ws : UInt8) (out : Trace) :
      newTcpSession (env.judging allowed blocked) args flow tcphdr data mss ws uid verdict out =
        newTcpSession env args flow tcphdr data mss ws uid verdict out := rfl
  have hreset {allowed blocked} (env : Env) (c : Conn) :
      writeRst (env.judging allowed blocked) c = writeRst env c := rfl
  simp only [handleTcp, Env.judging_after, hsegment, hopen, hreset]

theorem handleUdp_judging (version : IpVersion) (payload : Nat) :
    handleUdp (env.judging allowed blocked) args p version payload uid ctx =
      handleUdp env args p version payload uid ctx := by
  have hforward {allowed blocked} (env : Env) (flow : Flow) (data : List UInt8) (d : Datagram) :
      forwardDatagram (env.judging allowed blocked) flow data d = forwardDatagram env flow data d :=
    rfl
  have hopen {allowed blocked} (env : Env) (flow : Flow) (out : Trace) :
      newUdpSession (env.judging allowed blocked) args flow uid out = newUdpSession env args flow uid out := rfl
  simp only [handleUdp, Env.judging_after, hforward, hopen]

theorem handleIcmp_judging (version : IpVersion) (payload : Nat) :
    handleIcmp (env.judging allowed blocked) args p version payload uid ctx =
      handleIcmp env args p version payload uid ctx := by
  have hsend {allowed blocked} (env : Env) (daddr : Address) (message : List UInt8) (e : Echo) :
      sendRequest (env.judging allowed blocked) daddr message e = sendRequest env daddr message e :=
    rfl
  have hopen {allowed blocked} (env : Env) (ends : Endpoints) (id : UInt16) (out : Trace) :
      newIcmpSession (env.judging allowed blocked) args ends id uid out =
        newIcmpSession env args ends id uid out := rfl
  simp only [handleIcmp, Env.judging_after, hsend, hopen]

theorem handleAllowed_same (hctx : ctx.Same ctx')
    (henv : env'.after ctx'.out = (env.after ctx.out).judging allowed blocked) :
    (handleAllowed env args p h uid ctx).Same (handleAllowed env' args p h uid ctx') := by
  rw [handleAllowed_behind env, handleAllowed_behind env', henv, hctx.ngSession]
  simp only [handleAllowed, handleIcmp_judging, handleUdp_judging, handleTcp_judging]
  exact .behind hctx.out _

theorem handleBlocked_same {verdict : Bool} (hctx : ctx.Same ctx')
    (henv : env'.after ctx'.out = (env.after ctx.out).judging allowed blocked) :
    (handleBlocked env args p h uid verdict ctx).Same
      (handleBlocked env' args p h uid verdict ctx') := by
  rw [handleBlocked_behind env, handleBlocked_behind env', henv, hctx.ngSession]
  have hblock : blockUdp ((env.after ctx.out).judging allowed blocked) = blockUdp (env.after ctx.out) :=
    rfl
  simp only [handleBlocked, hblock, handleTcp_judging]
  exact .behind hctx.out _

theorem logOutgoing_same {verdict verdict' : Bool} (hctx : ctx.Same ctx') :
    (logOutgoing args p h uid verdict ctx).Same (logOutgoing args p h uid verdict' ctx') := by
  unfold logOutgoing
  split
  · refine ⟨hctx.ngSession, ?_⟩
    simp only [Context.emit, Trace.visible_append, hctx.out]
    rfl
  · exact hctx

section Quic
variable (env : Env) (p : Packet) (h : IpHdr) (uid : Int) (name : List UInt8) (ctx : Context)

def quicBlocked : Bool :=
  decide (h.protocol = ipprotoUdp ∧ (h.query p).dport = 443 ∧ uid > 0) &&
    env.isQuicBlocked ctx.out uid

/-- The verdict of `handle_ip`: that on QUIC, or else one on the address and the name. -/
theorem checkAllowedPacket_verdict : ∃ asked : Context,
    asked = (if h.protocol = ipprotoUdp ∧ (h.query p).dport = 443 ∧ uid > 0 then
      ctx.emit (.upcall (.isQuicBlocked uid)) else ctx) ∧
    ((quicBlocked env p h uid ctx = true ∧
      checkAllowedPacket env p h uid name ctx = (false, true, asked)) ∨
    (quicBlocked env p h uid ctx = false ∧ ∃ allowed os,
      checkAllowedPacket env p h uid name ctx =
        (allowed, false, ⟨asked.ngSession, asked.out ++ os⟩) ∧
      Trace.visible os = [.upcall (.isAddressAllowed (h.query p) uid)])) := by
  refine ⟨_, rfl, ?_⟩
  simp only [checkAllowedPacket]
  generalize (if h.protocol = ipprotoUdp ∧ (h.query p).dport = 443 ∧ uid > 0 then
    ctx.emit (.upcall (.isQuicBlocked uid)) else ctx) = asked
  by_cases hquic : quicBlocked env p h uid ctx = true
  · refine .inl ⟨hquic, ?_⟩
    rw [quicBlocked] at hquic
    rw [if_pos hquic]
  · refine .inr ⟨by simpa using hquic, ?_⟩
    rw [quicBlocked] at hquic
    rw [if_neg hquic]
    split
    · refine ⟨_, [.upcall (.isAddressAllowed (h.query p) uid),
        .upcall (.isDomainBlocked uid name)], Prod.ext rfl (Prod.ext rfl ?_), rfl⟩
      simp [Context.emit]
    · exact ⟨_, [.upcall (.isAddressAllowed (h.query p) uid)], rfl, rfl⟩

end Quic

/-- The verdicts on QUIC agree, and one on QUIC leaves no other verdict to differ. -/
theorem checkAllowedPacket_judging (env : Env) (p : Packet) (h : IpHdr) (uid : Int)
    (name : List UInt8) (ctx : Context) :
    (checkAllowedPacket env p h uid name ctx).2.2.Same
        (checkAllowedPacket (env.judging allowed blocked) p h uid name ctx).2.2 ∧
      (checkAllowedPacket (env.judging allowed blocked) p h uid name ctx).2.1 =
        (checkAllowedPacket env p h uid name ctx).2.1 ∧
      ((checkAllowedPacket env p h uid name ctx).2.1 = true →
        (checkAllowedPacket env p h uid name ctx).1 = false ∧
          (checkAllowedPacket (env.judging allowed blocked) p h uid name ctx).1 = false) := by
  have hsame : quicBlocked (env.judging allowed blocked) p h uid ctx =
      quicBlocked env p h uid ctx := rfl
  obtain ⟨asked, hasked, hverdict⟩ := checkAllowedPacket_verdict env p h uid name ctx
  obtain ⟨_, hasked', hverdict'⟩ :=
    checkAllowedPacket_verdict (env.judging allowed blocked) p h uid name ctx
  rw [← hasked] at hasked'
  subst hasked'
  rw [hsame] at hverdict'
  rcases hverdict with ⟨hquic, hresult⟩ | ⟨hquic, verdict, os, hresult, hos⟩
  · rcases hverdict' with ⟨-, hresult'⟩ | ⟨hquic', -⟩
    · rw [hresult, hresult']
      exact ⟨⟨rfl, rfl⟩, rfl, fun _ => ⟨rfl, rfl⟩⟩
    · exact absurd (hquic.symm.trans hquic') (by decide)
  · rcases hverdict' with ⟨hquic', -⟩ | ⟨-, verdict', os', hresult', hos'⟩
    · exact absurd (hquic.symm.trans hquic') (by decide)
    · rw [hresult, hresult']
      refine ⟨⟨rfl, ?_⟩, rfl, fun hblocked => absurd hblocked Bool.false_ne_true⟩
      simp only [Trace.visible_append, hos, hos']

theorem judgePacket_judging (allowed : Trace → Query → Int → Bool)
    (blocked : Trace → Int → List UInt8 → Bool) (env : Env) (p : Packet) (h : IpHdr) (ctx : Context) :
    (judgePacket (env.judging allowed blocked) p h ctx).1 = (judgePacket env p h ctx).1 ∧
      (judgePacket env p h ctx).2.2.2.Same
        (judgePacket (env.judging allowed blocked) p h ctx).2.2.2 ∧
      (judgePacket (env.judging allowed blocked) p h ctx).2.2.1 =
        (judgePacket env p h ctx).2.2.1 ∧
      ((judgePacket env p h ctx).2.2.1 = true → (judgePacket env p h ctx).2.1 = false ∧
        (judgePacket (env.judging allowed blocked) p h ctx).2.1 = false) :=
  ⟨rfl, checkAllowedPacket_judging env p h _ _ _⟩

theorem handleIp_judging (p : Packet) (sessions maxsessions : Int)
    (hobserve : args.observeOnly = true)
    (henv : env.SameOutside (env.judging allowed blocked)) (list : List NgSession) :
    (handleIp env args p sessions maxsessions ⟨list, []⟩).Same
      (handleIp (env.judging allowed blocked) args p sessions maxsessions ⟨list, []⟩) := by
  simp only [handleIp]
  split
  · exact ⟨rfl, rfl⟩
  · exact ⟨rfl, rfl⟩
  next h hparsed =>
    split
    · exact ⟨rfl, rfl⟩
    split
    · exact ⟨rfl, rfl⟩
    obtain ⟨huid, hctx, hquic, hblocked⟩ := judgePacket_judging allowed blocked env p h
      ⟨list, []⟩
    obtain ⟨_, _, hafter⟩ := henv _ _ hctx.out.symm
    apply logOutgoing_same
    rw [huid, hquic]
    simp only [dispatchPacket, hobserve, Bool.true_and]
    cases hbq : (judgePacket env p h ⟨list, []⟩).2.2.1 with
    | true =>
      obtain ⟨hdenied, hdenied'⟩ := hblocked hbq
      simp only [hdenied, hdenied', Bool.not_true, Bool.or_false, Bool.false_eq_true, if_false]
      exact handleBlocked_same hctx hafter
    | false =>
      simp only [Bool.not_false, Bool.or_true, if_true]
      exact handleAllowed_same hctx hafter

end Packets

section Loop

/-- Two states of the loop that differ in the verdicts of their calls only. -/
structure EventLoop.Same (l l' : EventLoop) : Prop where
  args : l'.args = l.args
  ngSession : l'.ngSession = l.ngSession
  out : Trace.visible l'.out = Trace.visible l.out
  sessions : l'.sessions = l.sessions
  maxsessions : l'.maxsessions = l.maxsessions
  lastCheck : l'.lastCheck = l.lastCheck

variable {env : Env} {args : Arguments} {allowed : Trace → Query → Int → Bool}
  {blocked : Trace → Int → List UInt8 → Bool} {l l' : EventLoop}

theorem EventLoop.Same.refl (l : EventLoop) : l.Same l := ⟨rfl, rfl, rfl, rfl, rfl, rfl⟩

theorem checkAllowedEntry_judging (hobserve : args.observeOnly = true) :
    checkAllowedEntry (env.judging allowed blocked) args = checkAllowedEntry env args := by
  funext s out
  cases s with
  | icmp s sock => simp [checkAllowedEntry, hobserve]
  | udp s sock => simp [checkAllowedEntry, hobserve]
  | tcp s sock events => simp [checkAllowedEntry, checkTcpAllowed, hobserve]

/-- The new events of a run observe only. -/
def LoopEvent.Observes : LoopEvent → Prop
  | .start args _ => args.observeOnly = true
  | _ => True

theorem LoopEvent.handle_judging (event : LoopEvent) (hevent : event.Observes)
    (henv : env.SameOutside (env.judging allowed blocked)) (hobserve : l.args.observeOnly = true)
    (hout : l.out = []) :
    (event.handle env l).Same (event.handle (env.judging allowed blocked) l) := by
  cases event with
  | start args soft =>
    simp only [LoopEvent.handle, EventLoop.start, checkAllowedEntry_judging hevent]
    exact .refl _
  | head => exact .refl _
  | tun p =>
    have hhandled := handleIp_judging p l.sessions l.maxsessions hobserve henv l.ngSession
    simp only [LoopEvent.handle, EventLoop.tun, hout]
    exact ⟨rfl, hhandled.ngSession, hhandled.out, rfl, rfl, rfl⟩
  | socket i ev =>
    simp only [LoopEvent.handle, EventLoop.socket, hout, Env.after_nil]
    split
    next before s rest heq =>
      obtain ⟨hentry, hsame⟩ := checkSocket_judging env l.args allowed blocked ev s
      refine ⟨rfl, ?_, ?_, rfl, rfl, rfl⟩
      · simp only [hentry]
      · simpa using hsame
    next => exact .refl _
  | clear => exact .refl _

theorem EventLoop.step_same {e e' : Env × LoopEvent} (hsame : l.Same l')
    (hobserve : l.args.observeOnly = true) (hevent : e'.2 = e.2) (hobserves : e.2.Observes)
    (henv : e.1.SameOutside e'.1) :
    (l.step e).Same (l'.step e') ∧ (l.step e).args.observeOnly = true := by
  obtain ⟨env, event⟩ := e
  obtain ⟨env', event'⟩ := e'
  obtain rfl : event' = event := hevent
  obtain ⟨allowed, blocked, hjudging⟩ := henv [] [] rfl
  obtain rfl : env' = env.judging allowed blocked := hjudging
  have hstart : { l' with out := [] } = { l with out := [] } := by
    obtain ⟨hargs, hlist, -, hsessions, hmax, hlast⟩ := hsame
    rw [hargs, hlist, hsessions, hmax, hlast]
  obtain ⟨hargs, hlist, hout, hsessions, hmax, hlast⟩ : (event'.handle env { l with out := [] }).Same
      (event'.handle (env.judging allowed blocked) { l with out := [] }) :=
    LoopEvent.handle_judging event' hobserves henv hobserve rfl
  simp only [EventLoop.step, hstart]
  constructor
  · refine ⟨hargs, hlist, ?_, hsessions, hmax, hlast⟩
    simp only [Trace.visible_append, hsame.out, hout]
  · cases event' with
    | start args soft => exact hobserves
    | head =>
      simp only [LoopEvent.handle, EventLoop.head]
      split
      · exact hobserve
      · exact hobserve
    | tun p => exact hobserve
    | socket i ev =>
      simp only [LoopEvent.handle, EventLoop.socket]
      split
      · exact hobserve
      · exact hobserve
    | clear => exact hobserve

theorem Trace.visible_filter (out : Trace) :
    (Trace.visible out).filter (fun o => !o.isUpcall) = out.filter fun o => !o.isUpcall := by
  have hvisible (o : Output) : (o.visible.toList).filter (fun o => !o.isUpcall) =
      [o].filter fun o => !o.isUpcall := by
    cases o with
    | upcall u => cases u <;> rfl
    | _ => rfl
  induction out with
  | nil => rfl
  | cons o out ih =>
    have hcons : Trace.visible (o :: out) = o.visible.toList ++ Trace.visible out := by
      rw [Trace.visible, Trace.visible, List.filterMap_cons]
      cases o.visible <;> rfl
    rw [hcons, List.filter_append, ih, hvisible, ← List.filter_append, List.singleton_append]

/-- Two runs that observe only, with the same events and environments that differ in their
verdicts on addresses and names only: they have the same sessions and make the same calls, but
for the flags in the log and the questions about names. -/
theorem EventLoop.observe_transparent {es es' : List (Env × LoopEvent)} (hsame : l.Same l')
    (hobserve : l.args.observeOnly = true)
    (hes : List.Forall₂ (fun e e' => e'.2 = e.2 ∧ e.2.Observes ∧ e.1.SameOutside e'.1) es es') :
    (l'.run es').ngSession = (l.run es).ngSession ∧
      Trace.visible (l'.run es').out = Trace.visible (l.run es).out ∧
      (l'.run es').out.filter (fun o => !o.isUpcall) =
        (l.run es).out.filter fun o => !o.isUpcall := by
  have hruns : (l.run es).Same (l'.run es') := by
    induction hes generalizing l l' with
    | nil => exact hsame
    | cons hfirst _ ih =>
      obtain ⟨hevent, hobserves, henv⟩ := hfirst
      obtain ⟨hstep, hstill⟩ := EventLoop.step_same hsame hobserve hevent hobserves henv
      exact ih hstep hstill
  refine ⟨hruns.ngSession, hruns.out, ?_⟩
  rw [← Trace.visible_filter, hruns.out, Trace.visible_filter]

def Arguments.observing : Arguments := { Arguments.direct with observeOnly := true, logTraffic := true }

theorem EventLoop.observe_transparent_sample :
    ((EventLoop.init .observing).run [(.strict, .tun .sampleSyn)]).ngSession =
        ((EventLoop.init .observing).run [(.calm, .tun .sampleSyn)]).ngSession ∧
      Trace.visible ((EventLoop.init .observing).run [(.strict, .tun .sampleSyn)]).out =
        Trace.visible ((EventLoop.init .observing).run [(.calm, .tun .sampleSyn)]).out ∧
      ((EventLoop.init .observing).run [(.strict, .tun .sampleSyn)]).out.filter
          (fun o => !o.isUpcall) =
        ((EventLoop.init .observing).run [(.calm, .tun .sampleSyn)]).out.filter
          fun o => !o.isUpcall :=
  observe_transparent (.refl _) rfl
    (.cons ⟨rfl, trivial, fun _ _ _ => ⟨fun _ _ _ => false, fun _ _ _ => false, rfl⟩⟩ .nil)

end Loop

end NetGuard.Engine
