import NetGuard.Loop.Openers

/-! # The relay of datagrams

Seen from outside, the loop is a relay of datagrams and echo messages: what it sends to the
servers and what it writes back to the apps is, message by message, what the packets of the
tun and the sockets brought, each once, in order and with the bytes that are due.
-/
namespace NetGuard.Engine
open Relation (ReflTransGen)

section Messages

/-- One message of the relay: to a server, or to the app that a key is addressed by. -/
inductive Message
  | toServer (daddr : Address) (dest : UInt16) (bytes : List UInt8)
  | toApp (key : SessionKey) (bytes : List UInt8)
  deriving DecidableEq, Repr

def Output.message : Output → Option Message
  | .sendto _ daddr dest message _ => some (.toServer daddr dest message)
  | .tun (.udp cur data) _ => some (.toApp (.udp cur.toFlow) data)
  | .tun (.icmp cur data) _ => some (.toApp (.icmp cur.toEndpoints) data)
  | _ => none

def Trace.messages (out : Trace) : List Message := out.filterMap Output.message

/-- The calls carry no message. -/
def Trace.Mute (out : Trace) : Prop := ∀ o ∈ out, o.message = none

variable {os os' out : Trace}

theorem Trace.messages_append (out os : Trace) :
    Trace.messages (out ++ os) = Trace.messages out ++ Trace.messages os :=
  List.filterMap_append

theorem Trace.Mute.messages (h : Trace.Mute os) : Trace.messages os = [] :=
  List.filterMap_eq_nil_iff.mpr h

theorem Trace.Mute.nil : Trace.Mute [] := fun _ ho => absurd ho List.not_mem_nil

theorem Trace.Mute.append (h : Trace.Mute os) (h' : Trace.Mute os') : Trace.Mute (os ++ os') := by
  intro o ho
  rcases List.mem_append.mp ho with ho | ho
  · exact h o ho
  · exact h' o ho

theorem Trace.Mute.emit {o : Output} (h : Trace.Mute os) (ho : o.message = none) :
    Trace.Mute (os ++ [o]) :=
  h.append fun o' ho' => by rwa [List.mem_singleton.mp ho']

theorem Output.message_of_quiet {o : Output} (h : o.quiet = true) : o.message = none := by
  cases o with
  | tun packet written => exact absurd h Bool.false_ne_true
  | sendto fd daddr dest message ok => exact absurd h Bool.false_ne_true
  | _ => rfl

theorem Context.Asks.mute {ctx ctx' : Context} (hasks : ctx.Asks ctx') :
    ∃ us, ctx'.out = ctx.out ++ us ∧ Trace.Mute us := by
  obtain ⟨us, rfl, hus⟩ := hasks
  refine ⟨us, rfl, fun o ho => ?_⟩
  have hupcall := hus o ho
  cases o with
  | upcall u => rfl
  | _ => exact absurd hupcall Bool.false_ne_true

end Messages

section Tcp
variable {a : Cause} {s t : Stage} {env : Env} {args : Arguments}

theorem Move.mute (h : Move a s t) (hs : Trace.Mute s.conn.out) : Trace.Mute t.conn.out := by
  cases h with
  | tidy => exact hs
  | quiet o ho => exact hs.emit (Output.message_of_quiet ho)
  | window => exact hs
  | queue => exact hs
  | abort => exact hs
  | reset => simpa using hs.emit rfl
  | countFin => exact hs.emit rfl
  | holdFin => exact hs
  | lastFin => exact hs.emit rfl
  | ackAll => exact hs
  | ackSome => exact hs
  | synAck => exact hs.emit rfl
  | send => exact hs.emit rfl
  | confirmFin => exact hs.emit rfl
  | ack => exact hs.emit rfl
  | keepAlive => exact hs.emit rfl
  | @data c fwd ha hstate bytes hbytes hsize dns hdns =>
    have hread : Trace.Mute (c.out ++ Output.recv c.socket bytes :: dns) := by
      refine hs.append fun o ho => ?_
      rcases List.mem_cons.mp ho with rfl | ho
      · rfl
      · exact Output.message_of_quiet (hdns o ho)
    exact hread.emit rfl
  | fin => exact (hs.emit rfl).emit rfl
  | close => exact hs.emit rfl
  | closed => exact hs

/-- A TCP entry takes no part in the relay. -/
theorem TcpEvent.handle_mute (e : TcpEvent) {cur : TcpSession} {sock : Int} {events : Events}
    (hdialing : Conn.Dialing ⟨cur, sock, events, []⟩) :
    Trace.Mute (e.handle env args ⟨cur, sock, events, []⟩).out := by
  have hmoves : Moves e.cause ⟨⟨cur, sock, events, []⟩, false⟩
      ⟨e.handle env args ⟨cur, sock, events, []⟩, false⟩ :=
    Acts.handle e (fun _ => trivial) hdialing
  exact Run.chain_invariant (P := fun s : Stage => Trace.Mute s.conn.out) (fun _ _ => Move.mute)
    hmoves .nil

end Tcp

section Requests
variable (env : Env) (p : Packet) (h : IpHdr) (list : List NgSession)

/-- The first session that passes the test is live, or a socket for a new one can be had. -/
def reaches (test : NgSession → Bool) : Bool :=
  match list.find? test with
  | some s => s.live
  | none => 0 ≤ env.socket []

/-- What is due for a packet that is let through: an echo request goes out with another
identifier, DHCP is answered or ignored, any other datagram goes out as it is. -/
def IpHdr.exchange : List Message :=
  if h.isIcmp then
    let ends : Endpoints := ⟨h.version, p.saddr h.version, p.daddr h.version⟩
    if p.mem h.payload = icmpEcho ∧ reaches env list (NgSession.isIcmp ends) then
      [.toServer ends.daddr 0 (p.icmpMessage h.version h.payload)]
    else []
  else if h.protocol = ipprotoUdp then
    let flow := p.flow h.payload h.version
    let data := p.udpData h.payload
    if reaches env list (NgSession.isUdp flow) then
      if answersDhcp flow data then [.toApp (.udp flow.answered) (dhcpResponse data)]
      else if takesDhcp flow data then []
      else [.toServer flow.daddr flow.dest data]
    else []
  else []

variable {env p h list} {uid : Int} {ctx ctx' : Context} {before rest : List NgSession}
  {s : NgSession} {test : NgSession → Bool}

theorem reaches_found (hlist : list = before ++ s :: rest) (hs : test s = true)
    (hfirst : ∀ b ∈ before, test b = false) : reaches env list test = s.live := by
  have hfind : list.find? test = some s := by
    rw [hlist, List.find?_append, List.find?_eq_none.mpr (by simpa using hfirst)]
    simp [hs]
  rw [reaches, hfind]

theorem reaches_none (hnone : ∀ s ∈ list, test s = false) :
    reaches env list test = decide (0 ≤ env.socket []) := by
  rw [reaches, List.find?_eq_none.mpr (by simpa using hnone)]

/-- A session that takes echo requests is live. -/
theorem reaches_echo {ends : Endpoints} (hmem : s ∈ list) (hs : s.isIcmp ends = true) :
    reaches env list (NgSession.isIcmp ends) = true := by
  rw [reaches]
  cases hfind : list.find? (NgSession.isIcmp ends) with
  | none => exact absurd hs (List.find?_eq_none.mp hfind s hmem)
  | some t =>
    have ht := List.find?_some hfind
    cases t with
    | icmp t sock =>
      have hkey : t.stop = false ∧ t.toEndpoints = ends := by simpa [NgSession.isIcmp] using ht
      simp [NgSession.live, hkey.1]
    | _ => exact absurd ht Bool.false_ne_true

theorem openUdpSocket_mute (env : Env) (args : Arguments) :
    Trace.Mute (openUdpSocket env args []).2 := by
  simp [openUdpSocket_eq, Trace.Mute, Output.message]

theorem openIcmpSocket_mute (env : Env) (args : Arguments) :
    Trace.Mute (openIcmpSocket env args []).2 :=
  openUdpSocket_mute env args

theorem sendRequest_messages (daddr : Address) (message : List UInt8) (e : Echo) :
    ∃ os, (sendRequest env daddr message e).out = e.out ++ os ∧
      Trace.messages os = [.toServer daddr 0 message] := by
  simp only [sendRequest]
  split <;> exact ⟨[_], rfl, rfl⟩

theorem IcmpHandled.messages (hhandled : IcmpHandled env args p h.version h.payload uid ctx ctx')
    (hicmp : h.isIcmp = true) : ∃ os, ctx'.out = ctx.out ++ os ∧
      Trace.messages os = h.exchange (env.after ctx.out) p ctx.ngSession := by
  have hsent (e : Echo) := @sendRequest_messages (env.after ctx.out) (p.daddr h.version)
    (p.icmpMessage h.version h.payload) e
  simp only [IpHdr.exchange, hicmp, if_true]
  cases hhandled with
  | ignored hecho => exact ⟨[], by simp, by simp [hecho, Trace.messages]⟩
  | @found before rest s s' sock e hecho hlist hends hstop hs' he =>
    obtain ⟨os, hout, hos⟩ := hsent ⟨s', sock, []⟩
    have hfound : (NgSession.icmp s sock).isIcmp
        ⟨h.version, p.saddr h.version, p.daddr h.version⟩ = true := by
      simp [NgSession.isIcmp, hends, hstop]
    refine ⟨e.out, rfl, ?_⟩
    rw [he, hout, List.nil_append, hos, if_pos ⟨hecho, reaches_echo (by simp [hlist]) hfound⟩]
  | @refused out hecho hnone hopened =>
    obtain ⟨hsock, rfl⟩ := newIcmpSession_none hopened
    refine ⟨_, rfl, ?_⟩
    rw [(openIcmpSocket_mute _ _).messages, reaches_none hnone, if_neg]
    rintro ⟨-, hopen⟩
    exact absurd ((openIcmpSocket_nonneg ..).mpr (of_decide_eq_true hopen)) (Int.not_le.mpr hsock)
  | @opened e₀ e out hecho hnone hopened he =>
    obtain ⟨hsock, he₀⟩ := newIcmpSession_some hopened
    obtain ⟨os, hout, hos⟩ := hsent e₀
    have hmute : Trace.Mute e₀.out := by
      rw [he₀]
      exact (openIcmpSocket_mute _ _).emit rfl
    refine ⟨_, rfl, ?_⟩
    rw [he, hout, Trace.messages_append, hmute.messages, hos, List.nil_append, reaches_none hnone,
      if_pos ⟨hecho, decide_eq_true ((openIcmpSocket_nonneg ..).mp hsock)⟩]

theorem Forwarded.messages {flow : Flow} {data : List UInt8} {d d' : Datagram}
    (h : Forwarded flow data d d') (hflow : d.udp.toFlow = flow) :
    ∃ os, d'.out = d.out ++ os ∧ Trace.messages os =
      if answersDhcp flow data then [.toApp (.udp flow.answered) (dhcpResponse data)]
      else if takesDhcp flow data then [] else [.toServer flow.daddr flow.dest data] := by
  cases h with
  | answered hanswers written =>
    refine ⟨[.tun (.udp { d.udp with saddr := dhcpServer ++ d.udp.saddr.drop 4 }
      (dhcpResponse data)) written], rfl, ?_⟩
    rw [if_pos hanswers, ← hflow]
    rfl
  | ignored htakes hanswers =>
    refine ⟨[], by simp, ?_⟩
    rw [hanswers, htakes, if_neg Bool.false_ne_true, if_pos rfl]
    rfl
  | sent htakes hmoves ok hout =>
    refine ⟨_, hout, ?_⟩
    have hanswers : answersDhcp flow data = false := by simp [answersDhcp, htakes]
    rw [hanswers, htakes, if_neg Bool.false_ne_true, if_neg Bool.false_ne_true, ← hflow]
    rfl

theorem UdpHandled.messages (hhandled : UdpHandled env args p h.version h.payload uid ctx ctx')
    (hudp : h.protocol = ipprotoUdp) : ∃ os, ctx'.out = ctx.out ++ os ∧
      Trace.messages os = h.exchange (env.after ctx.out) p ctx.ngSession := by
  have hsent (d : Datagram) := (forwardDatagram_forwarded (env.after ctx.out)
    (p.flow h.payload h.version) (p.udpData h.payload) d).messages
  simp only [IpHdr.exchange, IpHdr.isIcmp_udp hudp, hudp, if_true, Bool.false_eq_true, if_false]
  have hisUdp {s : UdpSession} {sock : Int} (hflow : s.toFlow = p.flow h.payload h.version) :
      (NgSession.udp s sock).isUdp (p.flow h.payload h.version) = true := by
    simp [NgSession.isUdp, NgSession.udpFlow?, hflow]
  cases hhandled with
  | @ignored before rest s sock hlist hflow hstate hfirst =>
    refine ⟨[], by simp, ?_⟩
    rw [reaches_found hlist (hisUdp hflow) hfirst, if_neg (by simp [NgSession.live, hstate])]
    rfl
  | @found before rest s s' sock d hlist hflow hstate hs' hd hfirst =>
    have hsame : s'.toFlow = p.flow h.payload h.version := by
      rw [← hflow, hs']
      split <;> rfl
    obtain ⟨os, hout, hos⟩ := hsent ⟨s', sock, []⟩ hsame
    have hreached : reaches (env.after ctx.out) ctx.ngSession
        (NgSession.isUdp (p.flow h.payload h.version)) = true := by
      rw [reaches_found hlist (hisUdp hflow) hfirst]
      simp [NgSession.live, hstate]
    refine ⟨d.out, rfl, ?_⟩
    rw [hd, hout, List.nil_append, hos, if_pos hreached]
  | @refused out hnone hopened =>
    obtain ⟨hsock, rfl⟩ := newUdpSession_none hopened
    refine ⟨_, rfl, ?_⟩
    rw [(openUdpSocket_mute _ _).messages, reaches_none hnone, if_neg]
    intro hopen
    exact absurd ((openUdpSocket_nonneg ..).mpr (of_decide_eq_true hopen)) (Int.not_le.mpr hsock)
  | @opened d₀ d out hnone hopened hd =>
    obtain ⟨hsock, hd₀⟩ := newUdpSession_some hopened
    obtain ⟨os, hout, hos⟩ := hsent d₀ (by rw [hd₀]; rfl)
    have hmute : Trace.Mute d₀.out := by
      rw [hd₀]
      exact (openUdpSocket_mute _ _).emit rfl
    have hreached : reaches (env.after ctx.out) ctx.ngSession
        (NgSession.isUdp (p.flow h.payload h.version)) = true := by
      rw [reaches_none hnone]
      exact decide_eq_true ((openUdpSocket_nonneg ..).mp hsock)
    refine ⟨_, rfl, ?_⟩
    rw [hd, hout, Trace.messages_append, hmute.messages, hos, List.nil_append, if_pos hreached]

theorem TcpHandled.mute {args : Arguments} {version : IpVersion} {payload : Nat} {allowed : Bool}
    (hhandled : TcpHandled env args p version payload uid allowed ctx ctx')
    (hdialing : AllTcp Conn.Dialing ctx.ngSession) :
    ∃ os, ctx'.out = ctx.out ++ os ∧ Trace.Mute os := by
  cases hhandled with
  | urgent => exact ⟨[], by simp, .nil⟩
  | @found before rest s sock events c hurg hlist hflow hc =>
    have hmute := @TcpEvent.handle_mute (env.after ctx.out) args
      (.segment (p.tcphdr payload) (p.payloadFrom (p.tcpData payload)) uid allowed)
      s sock events (hdialing (.tcp s sock events) (by simp [hlist]))
    simp only [TcpEvent.handle, hurg, Bool.false_eq_true, if_false, ← hc] at hmute
    exact ⟨c.out, rfl, hmute⟩
  | endless => exact ⟨[.hang], rfl, by simp [Trace.Mute, Output.message]⟩
  | @syn mss ws opened out hurg hnone hsyn hoptions hopened =>
    have hopen (cur : TcpSession) : Trace.Mute (openTcpSocket (env.after ctx.out) args cur []).2 := by
      obtain ⟨os, hout, hos⟩ := openTcpSocket_opening args (env.after ctx.out) cur []
      intro o ho
      rw [hout] at ho
      have hopening := hos o (by simpa using ho)
      cases o with
      | tun packet written => exact absurd hopening Bool.false_ne_true
      | sendto fd daddr dest message ok => exact absurd hopening Bool.false_ne_true
      | _ => rfl
    refine ⟨out, rfl, ?_⟩
    cases opened with
    | none =>
      obtain ⟨-, rfl⟩ := newTcpSession_none hopened
      exact hopen _
    | some c =>
      obtain ⟨hsock, window, ok, d, hd, hc, rfl⟩ := newTcpSession_some hopened
      have hwatched : Trace.Mute d.out := by
        rw [hd]
        exact (hopen _).append (by simp [Trace.Mute, Output.message])
      rw [hc]
      split
      · exact hwatched
      · rw [writeRst_eq, Conn.wrote_out, countSyn_out]
        exact hwatched.emit rfl
  | unknown =>
    refine ⟨_, rfl, ?_⟩
    rw [writeRst_eq]
    simp [Trace.Mute, Output.message]

end Requests

section Replies
variable (env : Env) (args : Arguments)

/-- What is due for a readiness event of the entry's socket: what can be read is written
back, a reply to an echo request under the identifier of the session. -/
def NgSession.reply (ev : Events) : NgSession → List Message
  | .icmp s _ =>
    if !ev.epollErr && ev.epollIn then
      match env.recv [] (if s.version = .v4 then 65535 - 20 - 8 else 65535 - 40 - 8) with
      | .data bytes _ =>
        [.toApp (.icmp s.toEndpoints) (rewriteIcmp (replyChecksum s bytes.length) s.id bytes)]
      | _ => []
    else []
  | .udp s _ =>
    if !ev.epollErr && ev.epollIn then
      match env.recv [] s.mss.toNat with
      | .data bytes _ => [.toApp (.udp s.toFlow) bytes]
      | _ => []
    else []
  | .tcp _ _ _ => []

variable {env args} {s : NgSession} {out : Trace}

end Replies

section Sweeps
variable {env : Env} {args : Arguments} {f : NgSession → Trace → Option NgSession × Trace}

/-- A loop over the entries that carries no message. -/
def Muting (f : NgSession → Trace → Option NgSession × Trace) : Prop :=
  ∀ (s : NgSession) (out : Trace), s.Tcp Conn.Dialing →
    ∃ os, (f s out).2 = out ++ os ∧ Trace.Mute os

theorem Muting.sweep (hmuting : Muting f) (hswept : ∀ s out, Swept args s out (f s out))
    {list : List NgSession} {out : Trace} (hlist : AllTcp Conn.Dialing list)
    (hout : Trace.Mute out) :
    AllTcp Conn.Dialing (Table.sweep f list out).1 ∧ Trace.Mute (Table.sweep f list out).2 := by
  refine Table.sweep_invariant (I := fun list out => AllTcp Conn.Dialing list ∧ Trace.Mute out)
    ?_ [] list out ⟨hlist, hout⟩
  rintro before s rest out ⟨hall, hmute⟩
  have hs : s.Tcp Conn.Dialing := hall s (by simp)
  obtain ⟨hkept, -⟩ := (hswept s out).for hs
  obtain ⟨os, hos, hnone⟩ := hmuting s out hs
  refine ⟨?_, by rw [hos]; exact hmute.append hnone⟩
  cases hr : (f s out).1 with
  | none =>
    intro a ha
    refine hall a ?_
    rcases List.mem_append.mp ha with ha | ha
    · exact List.mem_append_left _ ha
    · exact List.mem_append_right _ (List.mem_cons_of_mem _ ha)
  | some t => exact hall.replace (hkept t hr).2

end Sweeps

section Loop

variable {env : Env} {args : Arguments} {p : Packet} {h : IpHdr} {ctx : Context} {l : EventLoop}

end Loop

end NetGuard.Engine
