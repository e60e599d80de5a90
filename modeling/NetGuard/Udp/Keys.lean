import NetGuard.Loop.Entry
import NetGuard.Loop.Packet

/-! # One session for each UDP flow

The searches of the engine take the first entry of a flow. The sweeps, the recheck and
the sockets keep the flow of every entry; `handle_udp` searches before it registers.
A blocked datagram does not search, and an answer to DHCP changes the flow of its entry.
-/
namespace NetGuard.Engine

abbrev udpKeys (list : List NgSession) : List Flow := Table.keys NgSession.udpFlow? list

theorem udpKeys_replace {s t : NgSession} (h : t.udpFlow? = s.udpFlow?)
    (before rest : List NgSession) :
    udpKeys (before ++ t :: rest) = udpKeys (before ++ s :: rest) :=
  Table.keys_replace h before rest

theorem Later.udpFlow {args : Arguments} {s t : NgSession} (h : Later args t s) :
    t.udpFlow? = s.udpFlow? := by
  refine Run.chain_invariant (P := fun x : NgSession => x.udpFlow? = s.udpFlow?) ?_ h rfl
  rintro x y ⟨os, htouched⟩ hx
  rw [← hx]
  cases htouched with
  | icmp => rfl
  | udp hmoves => exact congrArg some hmoves.toFlow
  | tcp => rfl

section Handlers
variable {env : Env} {args : Arguments} {p : Packet} {h : IpHdr} {ctx ctx' : Context}

theorem TcpHandled.udpKeys {version : IpVersion} {payload : Nat} {uid : Int} {allowed : Bool}
    (hhandled : TcpHandled env args p version payload uid allowed ctx ctx') :
    udpKeys ctx'.ngSession = udpKeys ctx.ngSession := by
  cases hhandled with
  | urgent => rfl
  | found hurg hlist =>
    rw [hlist]
    exact udpKeys_replace (by rfl) _ _
  | endless => rfl
  | @syn mss ws opened out =>
    cases opened with
    | none => rfl
    | some c => exact Table.keys_cons_none rfl _
  | unknown => rfl

theorem IcmpHandled.udpKeys {version : IpVersion} {payload : Nat} {uid : Int}
    (hhandled : IcmpHandled env args p version payload uid ctx ctx') :
    udpKeys ctx'.ngSession = udpKeys ctx.ngSession := by
  cases hhandled with
  | ignored => rfl
  | found hecho hlist =>
    rw [hlist]
    exact udpKeys_replace (by rfl) _ _
  | refused => rfl
  | opened => exact Table.keys_cons_none rfl _

theorem mem_udpKeys {flow : Flow} {list : List NgSession} :
    flow ∈ udpKeys list ↔ ∃ s ∈ list, s.isUdp flow = true := by
  simp [udpKeys, Table.mem_keys, NgSession.isUdp]

/-- `handle_udp` has an active session for the flow, or gets a socket for a new one. -/
def Serves (env : Env) (flow : Flow) (ctx : Context) : Prop :=
  (∃ s sock, .udp s sock ∈ ctx.ngSession ∧ s.toFlow = flow ∧ s.state = .active) ∨
    (flow ∉ udpKeys ctx.ngSession ∧ 0 ≤ (env.after ctx.out).socket [])

theorem handleUdp_udpKeys {version : IpVersion} {payload : Nat} {uid : Int}
    (hhandled : UdpHandled env args p version payload uid ctx ctx')
    (hdhcp : answersDhcp (p.flow payload version) (p.udpData payload) = true →
      Serves env (p.flow payload version) ctx →
      (p.flow payload version).answered = p.flow payload version ∨
        (p.flow payload version).answered ∉ udpKeys ctx.ngSession)
    (hkeys : (udpKeys ctx.ngSession).Nodup) : (udpKeys ctx'.ngSession).Nodup := by
  cases hhandled with
  | ignored => exact hkeys
  | refused => exact hkeys
  | @found before rest s s' sock d hlist hflow hstate hs' hd =>
    have hsame : s'.toFlow = p.flow payload version := by
      rw [← hflow, hs']
      split <;> rfl
    have hnew : d.udp.toFlow = if answersDhcp (p.flow payload version) (p.udpData payload)
        then (p.flow payload version).answered else p.flow payload version := by
      rw [hd, (forwardDatagram_forwarded ..).toFlow, hsame]
    have hold : NgSession.udpFlow? (.udp s sock) = some (p.flow payload version) :=
      congrArg some hflow
    have hreplaced : d.udp.toFlow = p.flow payload version ∨
        d.udp.toFlow ∉ udpKeys ctx.ngSession := by
      split at hnew
      next hanswers =>
        rw [hnew]
        exact hdhcp hanswers (.inl ⟨s, sock, by simp [hlist], hflow, hstate⟩)
      next => exact .inl hnew
    rw [hlist] at hkeys hreplaced
    rcases hreplaced with hsame | hfree
    · have hkept : NgSession.udpFlow? (.udp d.udp d.socket) = NgSession.udpFlow? (.udp s sock) :=
        (congrArg some hsame).trans hold.symm
      exact (udpKeys_replace hkept before rest).symm ▸ hkeys
    · exact Table.nodup_replace hold rfl hfree hkeys
  | @opened d₀ d out hnone hopened hd =>
    obtain ⟨hsock, rfl⟩ := newUdpSession_some hopened
    have hfree : p.flow payload version ∉ udpKeys ctx.ngSession := by
      rw [mem_udpKeys]
      rintro ⟨s, hs, hflow⟩
      simp [hnone s hs] at hflow
    have hnew : d.udp.toFlow = if answersDhcp (p.flow payload version) (p.udpData payload)
        then (p.flow payload version).answered else p.flow payload version := by
      rw [hd, (forwardDatagram_forwarded ..).toFlow]
      rfl
    have hfresh : d.udp.toFlow ∉ udpKeys ctx.ngSession := by
      rw [hnew]
      split
      next hanswers =>
        rcases hdhcp hanswers (.inr ⟨hfree, (openUdpSocket_nonneg ..).mp hsock⟩) with hsame | hfree'
        · rwa [hsame]
        · exact hfree'
      next => exact hfree
    exact List.nodup_cons.mpr ⟨hfresh, hkeys⟩

/-- A datagram after which every flow still has one session: when it is blocked its flow
has none yet, and when DHCP is answered on its session the new flow has none. -/
structure KeepsKeys (env : Env) (args : Arguments) (p : Packet) (h : IpHdr) (ctx : Context) :
    Prop where
  blocked : letThrough env args p h ctx = false →
    p.flow h.payload h.version ∉ udpKeys ctx.ngSession
  dhcp : letThrough env args p h ctx = true →
    answersDhcp (p.flow h.payload h.version) (p.udpData h.payload) = true →
    Serves env (p.flow h.payload h.version) (judgePacket env p h ctx).2.2.2 →
    (p.flow h.payload h.version).answered = p.flow h.payload h.version ∨
      (p.flow h.payload h.version).answered ∉ udpKeys ctx.ngSession

theorem handlePacket_udpKeys (hkeeps : h.protocol = ipprotoUdp → KeepsKeys env args p h ctx)
    (hkeys : (udpKeys ctx.ngSession).Nodup) :
    (udpKeys (handlePacket env args p h ctx).ngSession).Nodup := by
  have hsame := (judgePacket_asks env p h ctx).ngSession
  have hhandled : PacketHandled env args p h _ _ _ (handlePacket env args p h ctx) :=
    handlePacket_handled
  generalize handlePacket env args p h ctx = ctx' at hhandled
  cases hhandled with
  | icmp hthrough hicmp hhandled => rwa [hhandled.udpKeys, hsame]
  | udp hthrough hudp hhandled =>
    have hdhcp := (hkeeps hudp).dhcp hthrough
    rw [← hsame] at hdhcp hkeys
    exact handleUdp_udpKeys hhandled hdhcp hkeys
  | tcp htcp hhandled => rwa [hhandled.udpKeys, hsame]
  | blocked hthrough hudp =>
    have hfree := (hkeeps hudp).blocked hthrough
    rw [← hsame] at hfree hkeys
    exact List.nodup_cons.mpr ⟨hfree, hkeys⟩
  | other => rwa [hsame]

end Handlers

section Loop

/-- The condition on an event: only packets of the tun can add a session. -/
def EventLoop.KeepsKeys (l : EventLoop) (e : Env × LoopEvent) : Prop :=
  ∀ p h, e.2 = .tun p → Judged l.args p l.sessions l.maxsessions l.ngSession h →
    h.protocol = ipprotoUdp → Engine.KeepsKeys e.1 l.args p h ⟨l.ngSession, []⟩

theorem EventLoop.step_udpKeys (l : EventLoop) (e : Env × LoopEvent) (hkeeps : l.KeepsKeys e)
    (hkeys : (udpKeys l.ngSession).Nodup) : (udpKeys (l.step e).ngSession).Nodup := by
  by_cases htun : ∃ p, e.2 = .tun p
  · obtain ⟨env, event⟩ := e
    obtain ⟨p, rfl⟩ := htun
    exact handleIp_sessions (P := fun list => (udpKeys list).Nodup) hkeys
      (fun h hjudged => handlePacket_udpKeys (hkeeps p h rfl hjudged) hkeys)
  · have hlater := l.step_later e (not_exists.mp htun)
    have hsublist : (udpKeys (l.step e).ngSession).Sublist (udpKeys l.ngSession) := by
      apply Table.keys_later _ hlater
      intro t s h
      exact h.udpFlow
    exact hsublist.nodup hkeys

/-- Every datagram that is let through and not DHCP's is sent on the active session of its
flow. -/
def EventLoop.Serves (l : EventLoop) : Prop :=
  ∀ env p h s sock, Judged l.args p l.sessions l.maxsessions l.ngSession h →
    h.protocol = ipprotoUdp → letThrough env l.args p h ⟨l.ngSession, []⟩ = true →
    takesDhcp (p.flow h.payload h.version) (p.udpData h.payload) = false →
    .udp s sock ∈ l.ngSession → s.toFlow = p.flow h.payload h.version → s.state = .active →
    ∃ ok, .sendto sock s.daddr s.dest (p.udpData h.payload) ok ∈
      (handleIp env l.args p l.sessions l.maxsessions ⟨l.ngSession, []⟩).out

theorem udp_unique {list : List NgSession} (hkeys : (udpKeys list).Nodup) {s t : UdpSession}
    {sock sock' : Int} (hs : .udp s sock ∈ list) (ht : .udp t sock' ∈ list)
    (hflow : s.toFlow = t.toFlow) : s = t ∧ sock = sock' := by
  have hkey : NgSession.udpFlow? (.udp t sock') = some s.toFlow := congrArg some hflow.symm
  exact NgSession.udp.inj (Table.eq_of_key hkeys hs ht rfl hkey)

theorem EventLoop.serves_of_nodup {l : EventLoop} (hkeys : (udpKeys l.ngSession).Nodup) :
    l.Serves := by
  intro env p h s sock hjudged hudp hthrough hdhcp hmem hflow hactive
  obtain ⟨us, hasked, -⟩ := judgePacket_asks env p h ⟨l.ngSession, []⟩
  obtain ⟨vs, hlogged, -⟩ : (handlePacket env l.args p h ⟨l.ngSession, []⟩).Asks _ :=
    hjudged.handleIp_asks env
  have hicmp := IpHdr.isIcmp_udp hudp
  have hhandle : handlePacket env l.args p h ⟨l.ngSession, []⟩ =
      handleUdp env l.args p h.version h.payload (judgePacket env p h ⟨l.ngSession, []⟩).1
        ⟨l.ngSession, us⟩ := by
    rw [handlePacket_letThrough hthrough, hasked]
    simp [handleAllowed, hicmp, hudp]
  have hsent : ∃ ok, .sendto sock s.daddr s.dest (p.udpData h.payload) ok ∈
      (handlePacket env l.args p h ⟨l.ngSession, []⟩).out := by
    rw [hhandle]
    have hhandled := handleUdp_handled env l.args p h.version h.payload
      (judgePacket env p h ⟨l.ngSession, []⟩).1 ⟨l.ngSession, us⟩
    generalize handleUdp env l.args p h.version h.payload _ _ = ctx' at hhandled
    cases hhandled with
    | @ignored before rest s₀ sock₀ hlist hflow₀ hstate =>
      have hmem₀ : .udp s₀ sock₀ ∈ l.ngSession := by
        rw [show l.ngSession = _ from hlist]
        exact List.mem_append_right _ List.mem_cons_self
      obtain ⟨rfl, rfl⟩ := udp_unique hkeys hmem hmem₀ (hflow.trans hflow₀.symm)
      exact (hstate hactive).elim
    | @found before rest s₀ s' sock₀ d hlist hflow₀ hstate hs' hd =>
      have hmem₀ : .udp s₀ sock₀ ∈ l.ngSession := by
        rw [show l.ngSession = _ from hlist]
        exact List.mem_append_right _ List.mem_cons_self
      obtain ⟨rfl, rfl⟩ := udp_unique hkeys hmem hmem₀ (hflow.trans hflow₀.symm)
      have hforwarded := forwardDatagram_forwarded (env.after us) (p.flow h.payload h.version)
        (p.udpData h.payload) ⟨s', sock, []⟩
      have hdest : s'.daddr = s.daddr ∧ s'.dest = s.dest := by
        rw [hs']
        split <;> exact ⟨rfl, rfl⟩
      rw [← hd] at hforwarded
      obtain ⟨ok, hok⟩ := hforwarded.sendto hdhcp
      rw [hdest.1, hdest.2] at hok
      exact ⟨ok, List.mem_append_right _ hok⟩
    | refused hnone =>
      have hnot := hnone _ hmem
      simp [NgSession.isUdp, NgSession.udpFlow?, hflow] at hnot
    | opened hnone =>
      have hnot := hnone _ hmem
      simp [NgSession.isUdp, NgSession.udpFlow?, hflow] at hnot
  obtain ⟨ok, hok⟩ := hsent
  refine ⟨ok, ?_⟩
  rw [hlogged]
  exact List.mem_append_left vs hok

/-- In every run without such datagrams each flow has at most one UDP session, and that
session serves it while it is active. -/
theorem EventLoop.one_session_per_flow (args : Arguments) {es : List (Env × LoopEvent)}
    (hrun : Run.Along EventLoop.step EventLoop.KeepsKeys (.init args) es) :
    (udpKeys ((EventLoop.init args).run es).ngSession).Nodup ∧
      ((EventLoop.init args).run es).Serves := by
  have hempty : (udpKeys (EventLoop.init args).ngSession).Nodup := List.nodup_nil
  have hkeys : (udpKeys ((EventLoop.init args).run es).ngSession).Nodup :=
    hrun.invariant (P := fun l => (udpKeys l.ngSession).Nodup) EventLoop.step_udpKeys hempty
  exact ⟨hkeys, EventLoop.serves_of_nodup hkeys⟩

def Packet.sampleDatagram : Packet := .sample 17 [156, 64, 19, 136, 0, 9, 0, 0, 7]

theorem EventLoop.one_session_per_flow_sample :
    (udpKeys ((EventLoop.init .direct).run
      [(.calm, .tun .sampleDatagram), (.calm, .tun .sampleDatagram)]).ngSession).Nodup ∧
      ((EventLoop.init .direct).run
        [(.calm, .tun .sampleDatagram), (.calm, .tun .sampleDatagram)]).Serves := by
  have hkeeps (l : EventLoop) (hargs : l.args = .direct) :
      l.KeepsKeys (.calm, .tun .sampleDatagram) := by
    rintro p h ⟨⟩ hjudged -
    obtain rfl : h = ⟨.v4, 17, 20⟩ := by
      have hparse := hjudged.parsed
      rw [hargs] at hparse
      exact (Parsed.ok.inj hparse).symm
    have hthrough (ctx : Context) :
        letThrough .calm l.args .sampleDatagram ⟨.v4, 17, 20⟩ ctx = true := by
      have hallowed : (judgePacket .calm .sampleDatagram ⟨.v4, 17, 20⟩ ctx).2.1 = true := by
        have hport : (IpHdr.query ⟨.v4, 17, 20⟩ .sampleDatagram).dport = 5000 := rfl
        simp [judgePacket, checkAllowedPacket, serverName, Env.calm, hport, ipprotoTcp]
      simp [letThrough, hallowed]
    refine ⟨?_, ?_⟩
    · intro hblocked
      rw [hthrough] at hblocked
      exact absurd hblocked (by decide)
    · intro _ hanswers
      exact absurd hanswers (by decide)
  exact one_session_per_flow .direct ⟨hkeeps _ rfl, hkeeps _ rfl, trivial⟩

/-- A blocked datagram of a live flow: its entry hides the session from the next one. -/
theorem EventLoop.not_one_session_per_flow :
    ¬ (udpKeys ((EventLoop.init .direct).run
      [(.calm, .tun .sampleDatagram), (.strict, .tun .sampleDatagram)]).ngSession).Nodup ∧
    ¬ ((EventLoop.init .direct).run
      [(.calm, .tun .sampleDatagram), (.strict, .tun .sampleDatagram)]).Serves := by
  constructor
  · have hkeys : udpKeys ((EventLoop.init .direct).run
        [(.calm, .tun .sampleDatagram), (.strict, .tun .sampleDatagram)]).ngSession =
        [Packet.sampleDatagram.flow 20 .v4, Packet.sampleDatagram.flow 20 .v4] := rfl
    rw [hkeys]
    decide
  · obtain ⟨l, hl⟩ : ∃ l, l = (EventLoop.init .direct).run
      [(.calm, .tun .sampleDatagram), (.strict, .tun .sampleDatagram)] := ⟨_, rfl⟩
    obtain ⟨b, s, hlist, hflow, hactive⟩ : ∃ b s, l.ngSession = [b, .udp s 7] ∧
        s.toFlow = Packet.sampleDatagram.flow 20 .v4 ∧ s.state = .active := by
      rw [hl]
      exact ⟨_, _, rfl, rfl, rfl⟩
    obtain ⟨u, hout⟩ : ∃ u, (handleIp .calm l.args .sampleDatagram l.sessions l.maxsessions
        ⟨l.ngSession, []⟩).out = [.upcall u] := by
      rw [hl]
      exact ⟨_, rfl⟩
    have hjudged : Judged l.args .sampleDatagram l.sessions l.maxsessions l.ngSession
        ⟨.v4, 17, 20⟩ := by
      rw [hl]
      exact ⟨rfl, rfl, rfl⟩
    have hthrough : letThrough .calm l.args .sampleDatagram ⟨.v4, 17, 20⟩
        ⟨l.ngSession, []⟩ = true := by
      rw [hl]
      rfl
    rw [← hl]
    intro hserves
    obtain ⟨ok, hok⟩ := hserves .calm .sampleDatagram ⟨.v4, 17, 20⟩ s 7 hjudged rfl hthrough
      (by decide) (by simp [hlist]) hflow hactive
    simp [hout] at hok

end Loop

end NetGuard.Engine
