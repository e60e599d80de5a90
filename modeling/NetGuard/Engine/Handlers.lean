import NetGuard.Engine.Ip
import NetGuard.Library.Table

/-! # What the handlers do to the session list

One case for each way out of `handle_tcp`, `handle_udp` and `handle_icmp`, by what the
search through the list found. Proofs about a handler go through these cases.
-/
namespace NetGuard.Engine

variable {env : Env} {args : Arguments} {p : Packet} {version : IpVersion} {payload : Nat}
  {uid : Int} {allowed : Bool} {ctx : Context}

section Tcp

def Conn.entry (c : Conn) : NgSession := .tcp c.tcp c.socket c.events

variable (env args p version payload uid allowed ctx)

inductive TcpHandled : Context → Prop
  | urgent (hurg : (p.tcphdr payload).urg = true) : TcpHandled ctx
  | found {before rest : List NgSession} {s : TcpSession} {sock : Int} {events : Events} {c : Conn}
      (hurg : (p.tcphdr payload).urg = false)
      (hlist : ctx.ngSession = before ++ .tcp s sock events :: rest)
      (hflow : s.toFlow = p.flow payload version)
      (hc : c = handleSegment (env.after ctx.out) (p.tcphdr payload)
        (p.payloadFrom (p.tcpData payload)) uid allowed ⟨s, sock, events, []⟩) :
      TcpHandled ⟨before ++ c.entry :: rest, ctx.out ++ c.out⟩
  | endless (hurg : (p.tcphdr payload).urg = false)
      (hnone : ∀ s ∈ ctx.ngSession, s.isTcp (p.flow payload version) = false)
      (hsyn : (p.tcphdr payload).syn = true)
      (hoptions : parseOptions p (payload + 20) (p.tcphdr payload).tcpoptlen.toNat
        (getDefaultMss version) 0 = none) : TcpHandled (ctx.emit .hang)
  | syn {mss : UInt16} {ws : UInt8} {opened : Option Conn} {out : Trace}
      (hurg : (p.tcphdr payload).urg = false)
      (hnone : ∀ s ∈ ctx.ngSession, s.isTcp (p.flow payload version) = false)
      (hsyn : (p.tcphdr payload).syn = true)
      (hoptions : parseOptions p (payload + 20) (p.tcphdr payload).tcpoptlen.toNat
        (getDefaultMss version) 0 = some (mss, ws))
      (hopened : newTcpSession (env.after ctx.out) args (p.flow payload version)
        (p.tcphdr payload) (p.payloadFrom (p.tcpData payload)) mss ws uid allowed [] =
        (opened, out)) :
      TcpHandled ⟨(opened.map Conn.entry).toList ++ ctx.ngSession, ctx.out ++ out⟩
  | unknown (hurg : (p.tcphdr payload).urg = false)
      (hnone : ∀ s ∈ ctx.ngSession, s.isTcp (p.flow payload version) = false)
      (hsyn : (p.tcphdr payload).syn = false) :
      TcpHandled { ctx with out := ctx.out ++ (writeRst (env.after ctx.out)
        ⟨resetSession (p.flow payload version) (p.tcphdr payload)
          (p.datalen (p.tcpData payload)), -1, ⟨false, false, false⟩, []⟩).out }

theorem handleTcp_handled : TcpHandled env args p version payload uid allowed ctx
    (handleTcp env args p version payload uid allowed ctx) := by
  simp only [handleTcp]
  split
  next hurg => exact .urgent hurg
  next hurg =>
    rw [Bool.not_eq_true] at hurg
    rcases Table.search (NgSession.isTcp (p.flow payload version)) ctx.ngSession with
      ⟨before, a, rest, hcut, hlist, ha, -⟩ | ⟨hcut, hnone⟩
    · rw [hcut]
      cases a with
      | tcp s sock events => exact .found hurg hlist (by simpa [NgSession.isTcp] using ha) rfl
      | _ => simp [NgSession.isTcp] at ha
    · rw [hcut]
      dsimp only
      split
      next hsyn =>
        split
        next hoptions => exact .endless hurg hnone hsyn hoptions
        next mss ws hoptions =>
          split
          next out hopened => exact .syn hurg hnone hsyn hoptions hopened
          next c out hopened => exact .syn hurg hnone hsyn hoptions hopened
      next hsyn => exact .unknown hurg hnone (by simpa using hsyn)

variable {env args uid allowed} {flow : Flow} {tcphdr : TcpHdr} {data : Payload} {mss : UInt16}
  {ws : UInt8} {out out' : Trace}

theorem newTcpSession_none
    (h : newTcpSession env args flow tcphdr data mss ws uid allowed out = (none, out')) :
    (openTcpSocket env args (synSession env flow tcphdr data mss ws uid out) out).1 < 0 ∧
      out' = (openTcpSocket env args (synSession env flow tcphdr data mss ws uid out) out).2 := by
  simp only [newTcpSession] at h
  split at h
  next hsock => exact ⟨hsock, (Prod.mk.inj h).2.symm⟩
  next => exact absurd (Prod.mk.inj h).1 (Option.some_ne_none _)

/-- A new session: with its socket watched, and reset at once when it is not allowed. -/
theorem newTcpSession_some {c : Conn}
    (h : newTcpSession env args flow tcphdr data mss ws uid allowed out = (some c, out')) :
    0 ≤ (openTcpSocket env args (synSession env flow tcphdr data mss ws uid out) out).1 ∧
      ∃ window ok d, d = Conn.mk
          { synSession env flow tcphdr data mss ws uid out with recvWindow := window }
          (openTcpSocket env args (synSession env flow tcphdr data mss ws uid out) out).1
          ⟨false, true, true⟩
          ((openTcpSocket env args (synSession env flow tcphdr data mss ws uid out) out).2 ++
            [.probe (openTcpSocket env args (synSession env flow tcphdr data mss ws uid out) out).1,
              .epollCtl (openTcpSocket env args
                (synSession env flow tcphdr data mss ws uid out) out).1 ⟨false, true, true⟩ ok]) ∧
        c = (if allowed then d else writeRst env d) ∧ out' = c.out := by
  simp only [newTcpSession] at h
  generalize synSession env flow tcphdr data mss ws uid out = s at h ⊢
  generalize openTcpSocket env args s out = opened at h ⊢
  obtain ⟨sock, trace⟩ := opened
  dsimp only at h ⊢
  split at h
  next => exact absurd (Prod.mk.inj h).1.symm (Option.some_ne_none _)
  next hsock =>
    let probed := probeBuffer env ⟨s, sock, ⟨false, true, true⟩, trace⟩
    let windowed : Conn := { probed.2 with
      tcp.recvWindow := getReceiveWindow probed.2.tcp probed.1 }
    let d := windowed.emit (.epollCtl sock ⟨false, true, true⟩ (env.epollCtl windowed.out))
    have hc : (if allowed then d else writeRst env d) = c := Option.some.inj (Prod.mk.inj h).1
    have hout : (if allowed then d else writeRst env d).out = out' := (Prod.mk.inj h).2
    refine ⟨Int.not_lt.mp hsock, getReceiveWindow probed.2.tcp probed.1, env.epollCtl windowed.out,
      d, ?_, hc.symm, ?_⟩
    · simp [d, windowed, probed, probeBuffer, Conn.emit]
    · rw [← hc, hout]

end Tcp

section Udp
variable (env args p version payload uid ctx)

def Packet.udpData : List UInt8 := p.slice (payload + 8) (p.sizeFrom (payload + 8)).toNat

inductive UdpHandled : Context → Prop
  | ignored {before rest : List NgSession} {s : UdpSession} {sock : Int}
      (hlist : ctx.ngSession = before ++ .udp s sock :: rest)
      (hflow : s.toFlow = p.flow payload version) (hstate : s.state ≠ .active)
      (hfirst : ∀ b ∈ before, b.isUdp (p.flow payload version) = false) : UdpHandled ctx
  | found {before rest : List NgSession} {s s' : UdpSession} {sock : Int} {d : Datagram}
      (hlist : ctx.ngSession = before ++ .udp s sock :: rest)
      (hflow : s.toFlow = p.flow payload version) (hstate : s.state = .active)
      (hs' : s' = if s.uid = -1 ∧ uid > 0 then { s with uid := uid } else s)
      (hd : d = forwardDatagram (env.after ctx.out) (p.flow payload version)
        (p.udpData payload) ⟨s', sock, []⟩)
      (hfirst : ∀ b ∈ before, b.isUdp (p.flow payload version) = false) :
      UdpHandled ⟨before ++ .udp d.udp d.socket :: rest, ctx.out ++ d.out⟩
  | refused {out : Trace}
      (hnone : ∀ s ∈ ctx.ngSession, s.isUdp (p.flow payload version) = false)
      (hopened : newUdpSession (env.after ctx.out) args (p.flow payload version) uid [] = (none, out)) :
      UdpHandled { ctx with out := ctx.out ++ out }
  | opened {d₀ d : Datagram} {out : Trace}
      (hnone : ∀ s ∈ ctx.ngSession, s.isUdp (p.flow payload version) = false)
      (hopened : newUdpSession (env.after ctx.out) args (p.flow payload version) uid [] =
        (some d₀, out))
      (hd : d = forwardDatagram (env.after ctx.out) (p.flow payload version)
        (p.udpData payload) d₀) :
      UdpHandled ⟨.udp d.udp d.socket :: ctx.ngSession, ctx.out ++ d.out⟩

theorem handleUdp_handled :
    UdpHandled env args p version payload uid ctx (handleUdp env args p version payload uid ctx) := by
  simp only [handleUdp]
  rcases Table.search (NgSession.isUdp (p.flow payload version)) ctx.ngSession with
    ⟨before, a, rest, hcut, hlist, ha, hfirst⟩ | ⟨hcut, hnone⟩
  · rw [hcut]
    cases a with
    | udp s sock =>
      have hflow : s.toFlow = p.flow payload version := by
        simpa [NgSession.isUdp, NgSession.udpFlow?] using ha
      dsimp only
      split
      next hstate => exact .ignored hlist hflow hstate hfirst
      next hstate => exact .found hlist hflow (not_not.mp hstate) rfl rfl hfirst
    | _ => simp [NgSession.isUdp, NgSession.udpFlow?] at ha
  · rw [hcut]
    dsimp only
    split
    next out hopened => exact .refused hnone hopened
    next d out hopened => exact .opened hnone hopened rfl

/-- The calls up to the registration of a new ICMP or UDP socket with epoll. -/
def Env.watch (opened : Int × Trace) : Trace :=
  opened.2 ++ [.epollCtl opened.1 ⟨true, false, true⟩ (env.epollCtl opened.2)]

variable {env args uid} {flow : Flow} {out out' : Trace}

theorem newUdpSession_none (h : newUdpSession env args flow uid out = (none, out')) :
    (openUdpSocket env args out).1 < 0 ∧ out' = (openUdpSocket env args out).2 := by
  simp only [newUdpSession] at h
  split at h
  next hsock => exact ⟨hsock, (Prod.mk.inj h).2.symm⟩
  next => exact absurd (Prod.mk.inj h).1 (Option.some_ne_none _)

theorem newUdpSession_some {d : Datagram} (h : newUdpSession env args flow uid out = (some d, out')) :
    0 ≤ (openUdpSocket env args out).1 ∧ d = ⟨udpSession env flow uid out,
      (openUdpSocket env args out).1, env.watch (openUdpSocket env args out)⟩ := by
  simp only [newUdpSession] at h
  split at h
  next => exact absurd (Prod.mk.inj h).1.symm (Option.some_ne_none _)
  next hsock => exact ⟨Int.not_lt.mp hsock, (Option.some.inj (Prod.mk.inj h).1).symm⟩

end Udp

section Icmp
variable (env args p version payload uid ctx)

/-- The message that goes out for an echo request: with the identifier complemented. -/
def Packet.icmpMessage : List UInt8 :=
  rewriteIcmp (requestChecksum p version) (~~~ (p.be16 (payload + 4)))
    (p.slice payload (p.sizeFrom payload).toNat)

inductive IcmpHandled : Context → Prop
  | ignored (hecho : p.mem payload ≠ icmpEcho) : IcmpHandled ctx
  | found {before rest : List NgSession} {s s' : IcmpSession} {sock : Int} {e : Echo}
      (hecho : p.mem payload = icmpEcho)
      (hlist : ctx.ngSession = before ++ .icmp s sock :: rest)
      (hends : s.toEndpoints = ⟨version, p.saddr version, p.daddr version⟩)
      (hstop : s.stop = false)
      (hs' : s' = if s.uid = -1 ∧ uid > 0 then { s with uid := uid } else s)
      (he : e = sendRequest (env.after ctx.out) (p.daddr version)
        (p.icmpMessage version payload) ⟨s', sock, []⟩) :
      IcmpHandled ⟨before ++ .icmp e.icmp e.socket :: rest, ctx.out ++ e.out⟩
  | refused {out : Trace} (hecho : p.mem payload = icmpEcho)
      (hnone : ∀ s ∈ ctx.ngSession,
        s.isIcmp ⟨version, p.saddr version, p.daddr version⟩ = false)
      (hopened : newIcmpSession (env.after ctx.out) args ⟨version, p.saddr version, p.daddr version⟩
        (p.be16 (payload + 4)) uid [] = (none, out)) :
      IcmpHandled { ctx with out := ctx.out ++ out }
  | opened {e₀ e : Echo} {out : Trace} (hecho : p.mem payload = icmpEcho)
      (hnone : ∀ s ∈ ctx.ngSession,
        s.isIcmp ⟨version, p.saddr version, p.daddr version⟩ = false)
      (hopened : newIcmpSession (env.after ctx.out) args ⟨version, p.saddr version, p.daddr version⟩
        (p.be16 (payload + 4)) uid [] = (some e₀, out))
      (he : e = sendRequest (env.after ctx.out) (p.daddr version)
        (p.icmpMessage version payload) e₀) :
      IcmpHandled ⟨.icmp e.icmp e.socket :: ctx.ngSession, ctx.out ++ e.out⟩

theorem handleIcmp_handled :
    IcmpHandled env args p version payload uid ctx (handleIcmp env args p version payload uid ctx) := by
  simp only [handleIcmp]
  split
  next hecho => exact .ignored hecho
  next hecho =>
    rcases Table.search (NgSession.isIcmp ⟨version, p.saddr version, p.daddr version⟩)
      ctx.ngSession with ⟨before, a, rest, hcut, hlist, ha, -⟩ | ⟨hcut, hnone⟩
    · rw [hcut]
      cases a with
      | icmp s sock =>
        have hkey : s.stop = false ∧ s.toEndpoints = ⟨version, p.saddr version, p.daddr version⟩ := by
          simpa [NgSession.isIcmp] using ha
        exact .found (not_not.mp hecho) hlist hkey.2 hkey.1 rfl rfl
      | _ => simp [NgSession.isIcmp] at ha
    · rw [hcut]
      dsimp only
      split
      next out hopened => exact .refused (not_not.mp hecho) hnone hopened
      next e out hopened => exact .opened (not_not.mp hecho) hnone hopened rfl

variable {env args uid} {ends : Endpoints} {id : UInt16} {out out' : Trace}

theorem newIcmpSession_none (h : newIcmpSession env args ends id uid out = (none, out')) :
    (openIcmpSocket env args out).1 < 0 ∧ out' = (openIcmpSocket env args out).2 := by
  simp only [newIcmpSession] at h
  split at h
  next hsock => exact ⟨hsock, (Prod.mk.inj h).2.symm⟩
  next => exact absurd (Prod.mk.inj h).1 (Option.some_ne_none _)

theorem newIcmpSession_some {e : Echo} (h : newIcmpSession env args ends id uid out = (some e, out')) :
    0 ≤ (openIcmpSocket env args out).1 ∧ e = ⟨⟨ends, env.time out, uid, id, false⟩,
      (openIcmpSocket env args out).1, env.watch (openIcmpSocket env args out)⟩ := by
  simp only [newIcmpSession] at h
  split at h
  next => exact absurd (Prod.mk.inj h).1.symm (Option.some_ne_none _)
  next hsock => exact ⟨Int.not_lt.mp hsock, (Option.some.inj (Prod.mk.inj h).1).symm⟩

end Icmp

end NetGuard.Engine
