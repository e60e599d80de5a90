import NetGuard.Firewall.Verdict
import NetGuard.Engine.Handlers
import NetGuard.Tcp.Chain

/-! # Blocked traffic and the network

A blocked packet is answered on the tun or not at all, except that a blocked SYN opens a
socket before it is reset.
-/
namespace NetGuard.Engine

/-- A packet to the tun, an upcall, or a socket that could not be opened. -/
def Output.offNetwork : Output → Bool
  | .tun _ _ | .upcall _ | .hang => true
  | .socket fd => fd < 0
  | _ => false

/-- All that was done since the context `ctx` stays off the network. -/
def Context.OffNetwork (ctx ctx' : Context) : Prop :=
  ∃ os : Trace, ctx'.out = ctx.out ++ os ∧ ∀ o ∈ os, o.offNetwork = true

theorem Output.offNetwork_of_isUpcall {o : Output} (h : o.isUpcall = true) :
    o.offNetwork = true := by
  cases o with
  | upcall u => rfl
  | _ => simp [Output.isUpcall] at h

theorem Context.OffNetwork.out_iff {ctx ctx' : Context} {os : Trace}
    (hout : ctx'.out = ctx.out ++ os) :
    ctx.OffNetwork ctx' ↔ ∀ o ∈ os, o.offNetwork = true := by
  constructor
  · rintro ⟨os', hos', hoff⟩
    rwa [List.append_cancel_left (hout.symm.trans hos')]
  · intro h
    exact ⟨os, hout, h⟩

section Reset
variable {env : Env} {args : Arguments}

theorem writeRst_out (env : Env) (c : Conn) :
    ∃ packet written, (writeRst env c).out = c.out ++ [.tun packet written] := by
  rw [writeRst_eq]
  simp [Conn.wrote]

theorem handleSegment_blocked (env : Env) (tcphdr : TcpHdr) (data : Payload) (uid : Int)
    (c : Conn) :
    ∃ packet written,
      (handleSegment env tcphdr data uid false c).out = c.out ++ [.tun packet written] := by
  obtain ⟨packet, written, hout⟩ := writeRst_out env
    (if c.tcp.uid = -1 ∧ uid > 0 then { c with tcp.uid := uid } else c)
  refine ⟨packet, written, ?_⟩
  simp only [handleSegment, Bool.not_false, if_true]
  rw [hout]
  split <;> rfl

variable {flow : Flow} {tcphdr : TcpHdr} {data : Payload} {mss : UInt16} {ws : UInt8} {uid : Int}
  {allowed : Bool}

theorem newTcpSession_refused (hsock : env.socket [] < 0) :
    newTcpSession env args flow tcphdr data mss ws uid allowed [] =
      (none, [.socket (env.socket [])]) := by
  simp [newTcpSession, openTcpSocket, hsock]

theorem openTcpSocket_mem (cur : TcpSession) :
    .socket (env.socket []) ∈ (openTcpSocket env args cur []).2 := by
  simp only [openTcpSocket_eq]
  split
  · simp
  split
  · simp
  split
  · simp
  split <;> simp

theorem newTcpSession_mem {o : Output}
    (hmem : o ∈ (openTcpSocket env args (synSession env flow tcphdr data mss ws uid []) []).2) :
    o ∈ (newTcpSession env args flow tcphdr data mss ws uid allowed []).2 := by
  simp only [newTcpSession]
  generalize openTcpSocket env args (synSession env flow tcphdr data mss ws uid []) [] = opened at *
  split
  · exact hmem
  have hreset (c : Conn) (watched : Output) (hc : c.out = opened.2 ++ [.probe opened.1]) :
      o ∈ (if allowed then c.emit watched else writeRst env (c.emit watched)).out := by
    split
    · simp [Conn.emit, hc, hmem]
    · obtain ⟨packet, written, hout⟩ := writeRst_out env (c.emit watched)
      rw [hout]
      simp [Conn.emit, hc, hmem]
  exact hreset _ _ rfl

end Reset

section Blocking
variable {env : Env} {args : Arguments} {p : Packet} {h : IpHdr} {ctx : Context}

theorem parseOptions_done (p : Packet) (options : Nat) (mss : UInt16) (ws : UInt8) :
    parseOptions p options 0 mss ws = some (mss, ws) := by
  rw [parseOptions]
  rfl

/-- A SYN that makes `handle_tcp` open a socket, also when it is not allowed: of a flow
without a session, with options that end, while the kernel has a socket left. -/
structure Dials (env : Env) (p : Packet) (h : IpHdr) (ctx : Context) : Prop where
  tcp : h.protocol = ipprotoTcp
  notUrg : (p.tcphdr h.payload).urg = false
  syn : (p.tcphdr h.payload).syn = true
  unknown : ∀ s ∈ ctx.ngSession, s.isTcp (p.flow h.payload h.version) = false
  options : parseOptions p (h.payload + 20) (p.tcphdr h.payload).tcpoptlen.toNat
    (getDefaultMss h.version) 0 ≠ none
  socket : 0 ≤ env.socket ctx.out

theorem Dials.out (hdials : Dials env p h ctx) (args : Arguments) (uid : Int) (allowed : Bool) : ∃ mss ws,
    (handleTcp env args p h.version h.payload uid allowed ctx).out = ctx.out ++
      (newTcpSession (env.after ctx.out) args (p.flow h.payload h.version) (p.tcphdr h.payload)
        (p.payloadFrom (p.tcpData h.payload)) mss ws uid allowed []).2 := by
  have hhandled := handleTcp_handled env args p h.version h.payload uid allowed ctx
  generalize handleTcp env args p h.version h.payload uid allowed ctx = ctx' at hhandled
  cases hhandled with
  | urgent hurg => simp [hdials.notUrg] at hurg
  | @found before rest s sock events c hurg hlist hflow hc =>
    have hunknown := hdials.unknown (.tcp s sock events) (by simp [hlist])
    simp [NgSession.isTcp, hflow] at hunknown
  | endless hurg hnone hsyn hoptions => exact (hdials.options hoptions).elim
  | @syn mss ws opened out hurg hnone hsyn hoptions hopened =>
    exact ⟨mss, ws, by rw [hopened]⟩
  | unknown hurg hnone hsyn => simp [hdials.syn] at hsyn

theorem Dials.not_offNetwork (hdials : Dials env p h ctx) (uid : Int) (allowed : Bool) :
    ¬ ctx.OffNetwork (handleTcp env args p h.version h.payload uid allowed ctx) := by
  obtain ⟨mss, ws, hout⟩ := hdials.out args uid allowed
  rw [Context.OffNetwork.out_iff hout]
  intro hoff
  have hfd := hoff _ (newTcpSession_mem (openTcpSocket_mem _))
  have hsock : ¬ (env.after ctx.out).socket [] < 0 := by
    simpa [Env.after] using hdials.socket
  simp [Output.offNetwork, hsock] at hfd

theorem handleTcp_offNetwork (htcp : h.protocol = ipprotoTcp) (uid : Int)
    (hnot : ¬ Dials env p h ctx) :
    ctx.OffNetwork (handleTcp env args p h.version h.payload uid false ctx) := by
  have hhandled := handleTcp_handled env args p h.version h.payload uid false ctx
  generalize handleTcp env args p h.version h.payload uid false ctx = ctx' at hhandled
  cases hhandled with
  | urgent hurg => exact ⟨[], by simp, by simp⟩
  | @found before rest s sock events c hurg hlist hflow hc =>
    obtain ⟨packet, written, hout⟩ := handleSegment_blocked (env.after ctx.out)
      (p.tcphdr h.payload) (p.payloadFrom (p.tcpData h.payload)) uid ⟨s, sock, events, []⟩
    refine ⟨c.out, rfl, ?_⟩
    rw [hc, hout]
    simp [Output.offNetwork]
  | endless hurg hnone hsyn hoptions => exact ⟨[.hang], rfl, by simp [Output.offNetwork]⟩
  | @syn mss ws opened out hurg hnone hsyn hoptions hopened =>
    -- the only condition left is the socket
    have hrefused : (env.after ctx.out).socket [] < 0 := by
      by_contra hsock
      exact hnot ⟨htcp, hurg, hsyn, hnone, by simp [hoptions],
        by simpa [Env.after] using hsock⟩
    rw [newTcpSession_refused hrefused] at hopened
    obtain ⟨rfl, rfl⟩ := Prod.mk.inj hopened
    exact ⟨_, rfl, by simpa [Output.offNetwork] using hrefused⟩
  | unknown hurg hnone hsyn =>
    obtain ⟨packet, written, hout⟩ := writeRst_out (env.after ctx.out)
      ⟨resetSession (p.flow h.payload h.version) (p.tcphdr h.payload)
        (p.datalen (p.tcpData h.payload)), -1, ⟨false, false, false⟩, []⟩
    refine ⟨_, rfl, ?_⟩
    rw [hout]
    simp [Output.offNetwork]

theorem handleBlocked_offNetwork_iff (args : Arguments) (uid : Int) :
    ctx.OffNetwork (handleBlocked env args p h uid false ctx) ↔ ¬ Dials env p h ctx := by
  simp only [handleBlocked]
  split
  next hudp =>
    refine iff_of_true ⟨[], by simp [blockUdp], by simp⟩ ?_
    intro hdials
    rw [hdials.tcp] at hudp
    exact absurd hudp (by decide)
  next hudp =>
    split
    next htcp =>
      exact ⟨fun hoff hdials => hdials.not_offNetwork uid false hoff,
        handleTcp_offNetwork htcp uid⟩
    next htcp => exact iff_of_true ⟨[], by simp, by simp⟩ (fun hdials => htcp hdials.tcp)

theorem handleBlocked_out (env : Env) (args : Arguments) (p : Packet) (h : IpHdr) (uid : Int)
    (allowed : Bool) (ctx : Context) : ∃ os, (handleBlocked env args p h uid allowed ctx).out = ctx.out ++ os := by
  simp only [handleBlocked]
  split
  · exact ⟨[], by simp [blockUdp]⟩
  split
  · have hhandled := handleTcp_handled env args p h.version h.payload uid allowed ctx
    generalize handleTcp env args p h.version h.payload uid allowed ctx = ctx' at hhandled ⊢
    cases hhandled with
    | urgent => exact ⟨[], by simp⟩
    | _ => exact ⟨_, rfl⟩
  · exact ⟨[], by simp⟩

/-- A packet that is not allowed stays off the network unless it is such a SYN. -/
theorem blocked_offNetwork_iff {sessions maxsessions : Int} (hobserve : args.observeOnly = false)
    (hjudged : Judged args p sessions maxsessions ctx.ngSession h)
    (hblocked : (judgePacket env p h ctx).2.1 = false) :
    ctx.OffNetwork (handleIp env args p sessions maxsessions ctx) ↔
      ¬ Dials env p h (judgePacket env p h ctx).2.2.2 := by
  have hhandle : handlePacket env args p h ctx = handleBlocked env args p h
      (judgePacket env p h ctx).1 false (judgePacket env p h ctx).2.2.2 := by
    rw [handlePacket_blocked (by simp [letThrough, hobserve, hblocked]), hblocked]
  rw [← handleBlocked_offNetwork_iff args (judgePacket env p h ctx).1, ← hhandle]
  -- the calls before and after the handler are upcalls
  obtain ⟨us, hasked, hus⟩ := judgePacket_asks env p h ctx
  obtain ⟨vs, hlogged, hvs⟩ := hjudged.handleIp_asks env
  obtain ⟨os, hos⟩ := handleBlocked_out env args p h (judgePacket env p h ctx).1 false
    (judgePacket env p h ctx).2.2.2
  rw [← hhandle] at hos
  have hall : (handleIp env args p sessions maxsessions ctx).out =
      ctx.out ++ (us ++ (os ++ vs)) := by
    rw [hlogged, hos, hasked]
    simp
  rw [Context.OffNetwork.out_iff hall, Context.OffNetwork.out_iff hos]
  constructor
  · intro hoff o ho
    exact hoff o (by simp [ho])
  · intro hoff o ho
    rcases List.mem_append.mp ho with ho | ho
    · exact Output.offNetwork_of_isUpcall (hus o ho)
    rcases List.mem_append.mp ho with ho | ho
    · exact hoff o ho
    · exact Output.offNetwork_of_isUpcall (hvs o ho)

theorem blocked_offNetwork_sample :
    (⟨[], []⟩ : Context).OffNetwork
      (handleIp .strict .direct (.sample 6 (List.replicate 20 0)) 0 409 ⟨[], []⟩) := by
  have hjudged : Judged .direct (.sample 6 (List.replicate 20 0)) 0 409 [] ⟨.v4, 6, 20⟩ :=
    ⟨rfl, rfl, rfl⟩
  apply (blocked_offNetwork_iff rfl hjudged rfl).mpr
  intro hdials
  exact absurd hdials.syn (by decide)

/-- The blocked SYN is connected to its server before it is reset. -/
theorem not_blocked_offNetwork :
    Judged .direct .sampleSyn 0 409 [] ⟨.v4, 6, 20⟩ ∧
      (judgePacket .strict .sampleSyn ⟨.v4, 6, 20⟩ ⟨[], []⟩).2.1 = false ∧
      .connect 7 [93, 184, 216, 34] 80 true ∈
        (handleIp .strict .direct .sampleSyn 0 409 ⟨[], []⟩).out ∧
      ¬ (⟨[], []⟩ : Context).OffNetwork
        (handleIp .strict .direct .sampleSyn 0 409 ⟨[], []⟩) := by
  obtain ⟨ctx, hctx⟩ : ∃ ctx, ctx =
    (judgePacket .strict .sampleSyn ⟨.v4, 6, 20⟩ ⟨[], []⟩).2.2.2 := ⟨_, rfl⟩
  have hdials : Dials .strict .sampleSyn ⟨.v4, 6, 20⟩ ctx := by
    have hoptions : parseOptions .sampleSyn 40 0 9960 0 = some (9960, 0) :=
      parseOptions_done _ _ _ _
    refine ⟨rfl, rfl, rfl, ?_, hoptions ▸ nofun, (by decide : (0 : Int) ≤ 7)⟩
    rw [hctx]
    intro s hs
    exact absurd hs List.not_mem_nil
  obtain ⟨mss, ws, hout⟩ := hdials.out .direct 1000 false
  have hconnect : .connect 7 [93, 184, 216, 34] 80 true ∈
      (handleIp .strict .direct .sampleSyn 0 409 ⟨[], []⟩).out := by
    have hhandle : (handleIp .strict .direct .sampleSyn 0 409 ⟨[], []⟩).out =
        (handleTcp .strict .direct .sampleSyn .v4 20 1000 false ctx).out := by
      rw [hctx]
      rfl
    rw [hhandle, hout]
    refine List.mem_append_right _ (newTcpSession_mem ?_)
    have hdaddr : Packet.sampleSyn.daddr .v4 = [93, 184, 216, 34] := rfl
    have hdest : Packet.sampleSyn.be16 22 = 80 := rfl
    simp [openTcpSocket, Env.after, Env.strict, Env.calm, Arguments.proxy, Arguments.direct,
      synSession, Packet.flow, hdaddr, hdest]
  refine ⟨⟨rfl, rfl, rfl⟩, rfl, hconnect, ?_⟩
  rintro ⟨os, hos, hoff⟩
  rw [hos] at hconnect
  have := hoff _ (by simpa using hconnect)
  simp [Output.offNetwork] at this

end Blocking

end NetGuard.Engine
