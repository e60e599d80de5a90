import NetGuard.Engine.Handlers
import NetGuard.Firewall.Verdict

/-! # What a packet of the tun does

The ways through `handle_ip`: by what the header says and by the verdict, one handler runs
between the upcalls that decide and the one that logs.
-/
namespace NetGuard.Engine

section Packet
variable (env : Env) (args : Arguments) (p : Packet) (h : IpHdr) (through : Bool) (uid : Int)
  (ctx : Context)

inductive PacketHandled : Context → Prop
  | icmp {ctx' : Context} (hthrough : through = true) (hicmp : h.isIcmp = true)
      (hhandled : IcmpHandled env args p h.version h.payload uid ctx ctx') : PacketHandled ctx'
  | udp {ctx' : Context} (hthrough : through = true) (hudp : h.protocol = ipprotoUdp)
      (hhandled : UdpHandled env args p h.version h.payload uid ctx ctx') : PacketHandled ctx'
  | tcp {ctx' : Context} (htcp : h.protocol = ipprotoTcp)
      (hhandled : TcpHandled env args p h.version h.payload uid through ctx ctx') :
      PacketHandled ctx'
  | blocked (hthrough : through = false) (hudp : h.protocol = ipprotoUdp) :
      PacketHandled (blockUdp env p h.version h.payload uid ctx)
  | other (htcp : h.protocol ≠ ipprotoTcp) (hudp : h.protocol ≠ ipprotoUdp) : PacketHandled ctx

end Packet

section Opens

/-- No entry of the list takes the packet, and its handler opens a socket for it. -/
inductive IpHdr.Opens (h : IpHdr) (p : Packet) (through : Bool) (list : List NgSession) : Prop
  | icmp (hicmp : h.isIcmp = true) (hthrough : through = true) (hecho : p.mem h.payload = icmpEcho)
      (hnone : ∀ s ∈ list, s.isIcmp ⟨h.version, p.saddr h.version, p.daddr h.version⟩ = false)
  | udp (hudp : h.protocol = ipprotoUdp) (hthrough : through = true)
      (hnone : ∀ s ∈ list, s.isUdp (p.flow h.payload h.version) = false)
  | tcp (htcp : h.protocol = ipprotoTcp) (hurg : (p.tcphdr h.payload).urg = false)
      (hsyn : (p.tcphdr h.payload).syn = true)
      (hends : (parseOptions p (h.payload + 20) (p.tcphdr h.payload).tcpoptlen.toNat
        (getDefaultMss h.version) 0).isSome = true)
      (hnone : ∀ s ∈ list, s.isTcp (p.flow h.payload h.version) = false)

end Opens

section Handled
variable {env : Env} {args : Arguments} {p : Packet} {h : IpHdr} {ctx ctx' : Context}
  {sessions maxsessions : Int}

theorem letThrough_of_allowed (hallowed : (judgePacket env p h ctx).2.1 = true) :
    letThrough env args p h ctx = true := by
  simp [letThrough, hallowed]

theorem handlePacket_handled :
    PacketHandled env args p h (letThrough env args p h ctx) (judgePacket env p h ctx).1
      (judgePacket env p h ctx).2.2.2 (handlePacket env args p h ctx) := by
  cases hthrough : letThrough env args p h ctx with
  | true =>
    rw [handlePacket_letThrough hthrough]
    simp only [handleAllowed]
    split
    next hicmp => exact .icmp rfl hicmp (handleIcmp_handled ..)
    next =>
      split
      next hudp => exact .udp rfl hudp (handleUdp_handled ..)
      next hudp =>
        split
        next htcp => exact .tcp htcp (handleTcp_handled ..)
        next htcp => exact .other htcp hudp
  | false =>
    have hallowed : (judgePacket env p h ctx).2.1 = false := by
      by_contra hallowed
      rw [letThrough_of_allowed (by simpa using hallowed)] at hthrough
      exact absurd hthrough Bool.noConfusion
    rw [handlePacket_blocked hthrough, hallowed]
    simp only [handleBlocked]
    split
    next hudp => exact .blocked rfl hudp
    next hudp =>
      split
      next htcp => exact .tcp htcp (handleTcp_handled ..)
      next htcp => exact .other htcp hudp

/-- The ways through `handle_ip`: the packet is dropped, its options or extension headers
never end, or its handler runs. -/
inductive IpHandled (env : Env) (args : Arguments) (p : Packet) (sessions maxsessions : Int)
    (ctx : Context) : Context → Prop
  | dropped : IpHandled env args p sessions maxsessions ctx ctx
  | endless : IpHandled env args p sessions maxsessions ctx (ctx.emit .hang)
  | handled {h : IpHdr} {ctx' : Context}
      (hjudged : Judged args p sessions maxsessions ctx.ngSession h)
      (hlogged : (handlePacket env args p h ctx).Asks ctx') :
      IpHandled env args p sessions maxsessions ctx ctx'

theorem handleIp_handled : IpHandled env args p sessions maxsessions ctx
    (handleIp env args p sessions maxsessions ctx) := by
  by_cases hjudged : ∃ h, Judged args p sessions maxsessions ctx.ngSession h
  · obtain ⟨h, hjudged⟩ := hjudged
    exact .handled hjudged (hjudged.handleIp_asks env)
  · simp only [handleIp]
    split
    · exact .dropped
    · exact .endless
    next h hparsed =>
      split
      · exact .dropped
      next hwhole =>
        split
        · exact .dropped
        next hadmitted =>
          exact (hjudged ⟨h, hparsed, by simpa using hwhole, by simpa using hadmitted⟩).elim

end Handled

end NetGuard.Engine
