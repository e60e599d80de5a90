import NetGuard.Engine.Ip

/-! # The verdict on a packet

What `handle_ip` does before and after the handlers: it asks and logs, and changes no
session. So every result about a packet is one about the handler its verdict selects.
-/
namespace NetGuard.Engine

variable {ctx ctx' ctx'' : Context}

section Asks

def Output.isUpcall : Output → Bool
  | .upcall _ => true
  | _ => false

def Context.Asks (ctx ctx' : Context) : Prop :=
  ∃ us : Trace, ctx' = ⟨ctx.ngSession, ctx.out ++ us⟩ ∧ ∀ o ∈ us, o.isUpcall = true

theorem Context.Asks.refl : ctx.Asks ctx := ⟨[], by simp, by simp⟩

theorem Context.Asks.trans (h : ctx.Asks ctx') (h' : ctx'.Asks ctx'') : ctx.Asks ctx'' := by
  obtain ⟨us, rfl, hus⟩ := h
  obtain ⟨vs, rfl, hvs⟩ := h'
  refine ⟨us ++ vs, by simp, ?_⟩
  intro o ho
  rcases List.mem_append.mp ho with ho | ho
  · exact hus o ho
  · exact hvs o ho

theorem Context.asks_emit (ctx : Context) (u : Upcall) : ctx.Asks (ctx.emit (.upcall u)) :=
  ⟨[.upcall u], rfl, by simp [Output.isUpcall]⟩

theorem Context.Asks.ngSession (h : ctx.Asks ctx') : ctx'.ngSession = ctx.ngSession := by
  obtain ⟨us, rfl, -⟩ := h
  rfl

variable (env : Env) (args : Arguments) (p : Packet) (h : IpHdr)

theorem packetUid_asks (ctx : Context) : ctx.Asks (packetUid env p h ctx).2 := by
  simp only [packetUid]
  split
  · split
    · exact (ctx.asks_emit _).trans (Context.asks_emit _ _)
    · exact (ctx.asks_emit _).trans (Context.asks_emit _ _)
  · exact .refl

theorem serverName_asks (uid : Int) (ctx : Context) : ctx.Asks (serverName p h uid ctx).2 := by
  simp only [serverName]
  split
  · split
    · exact ctx.asks_emit _
    · exact .refl
  · exact .refl

theorem checkAllowedPacket_asks (uid : Int) (name : List UInt8) (ctx : Context) :
    ctx.Asks (checkAllowedPacket env p h uid name ctx).2.2 := by
  simp only [checkAllowedPacket]
  generalize hasked : (if h.protocol = ipprotoUdp ∧ (h.query p).dport = 443 ∧ uid > 0 then
    ctx.emit (.upcall (.isQuicBlocked uid)) else ctx) = asked
  have hquic : ctx.Asks asked := by
    rw [← hasked]
    split
    · exact ctx.asks_emit _
    · exact .refl
  split
  · exact hquic
  · split
    · exact (hquic.trans (Context.asks_emit _ _)).trans (Context.asks_emit _ _)
    · exact hquic.trans (Context.asks_emit _ _)

theorem judgePacket_asks (ctx : Context) : ctx.Asks (judgePacket env p h ctx).2.2.2 :=
  ((packetUid_asks env p h ctx).trans (serverName_asks p h _ _)).trans
    (checkAllowedPacket_asks env p h _ _ _)

theorem logOutgoing_asks (uid : Int) (allowed : Bool) (ctx : Context) :
    ctx.Asks (logOutgoing args p h uid allowed ctx) := by
  unfold logOutgoing
  split
  · exact ctx.asks_emit _
  · exact .refl

end Asks

section Judged
variable {env : Env} {args : Arguments} {p : Packet} {sessions maxsessions : Int} {h : IpHdr}

structure Judged (args : Arguments) (p : Packet) (sessions maxsessions : Int)
    (list : List NgSession) (h : IpHdr) : Prop where
  parsed : parseIp args p = .ok h
  whole : h.tooShort p = false
  admitted : overLimit p h sessions maxsessions list = false

def letThrough (env : Env) (args : Arguments) (p : Packet) (h : IpHdr) (ctx : Context) : Bool :=
  let (_, allowed, blockedQuic, _) := judgePacket env p h ctx
  allowed || (args.observeOnly && !blockedQuic)

/-- What the handler of a judged packet makes of the context. -/
def handlePacket (env : Env) (args : Arguments) (p : Packet) (h : IpHdr) (ctx : Context) :
    Context :=
  let (uid, allowed, blockedQuic, ctx) := judgePacket env p h ctx
  dispatchPacket env args p h uid allowed blockedQuic ctx

theorem handlePacket_letThrough (hthrough : letThrough env args p h ctx = true) :
    handlePacket env args p h ctx = handleAllowed env args p h (judgePacket env p h ctx).1
      (judgePacket env p h ctx).2.2.2 := by
  simp only [letThrough] at hthrough
  simp only [handlePacket, dispatchPacket, hthrough, if_true]

theorem handlePacket_blocked (hblocked : letThrough env args p h ctx = false) :
    handlePacket env args p h ctx = handleBlocked env args p h (judgePacket env p h ctx).1
      (judgePacket env p h ctx).2.1 (judgePacket env p h ctx).2.2.2 := by
  simp only [letThrough] at hblocked
  simp only [handlePacket, dispatchPacket, hblocked, Bool.false_eq_true, if_false]

theorem Judged.handleIp_asks (hjudged : Judged args p sessions maxsessions ctx.ngSession h)
    (env : Env) :
    (handlePacket env args p h ctx).Asks (handleIp env args p sessions maxsessions ctx) := by
  simp only [handleIp, hjudged.parsed, hjudged.whole, hjudged.admitted, Bool.false_eq_true,
    if_false]
  exact logOutgoing_asks args p h _ _ _

theorem handleIp_not_judged
    (hnot : ∀ h, ¬ Judged args p sessions maxsessions ctx.ngSession h) :
    (handleIp env args p sessions maxsessions ctx).ngSession = ctx.ngSession := by
  simp only [handleIp]
  split
  · rfl
  · rfl
  next h hparsed =>
    split
    · rfl
    next hwhole =>
      split
      · rfl
      next hadmitted =>
        exact (hnot h ⟨hparsed, by simpa using hwhole, by simpa using hadmitted⟩).elim

theorem handleIp_sessions {P : List NgSession → Prop} (hP : P ctx.ngSession)
    (hhandled : ∀ h, Judged args p sessions maxsessions ctx.ngSession h →
      P (handlePacket env args p h ctx).ngSession) :
    P (handleIp env args p sessions maxsessions ctx).ngSession := by
  by_cases hjudged : ∃ h, Judged args p sessions maxsessions ctx.ngSession h
  · obtain ⟨h, hjudged⟩ := hjudged
    rw [(hjudged.handleIp_asks env).ngSession]
    exact hhandled h hjudged
  · rw [handleIp_not_judged (not_exists.mp hjudged)]
    exact hP

end Judged

section Sample

def Packet.ofBytes (bytes : List UInt8) : Packet := ⟨fun i => bytes.getD i 0, bytes.length⟩

def Packet.sample (protocol : UInt8) (payload : List UInt8) : Packet :=
  .ofBytes ([0x45, 0, 0, UInt8.ofNat (20 + payload.length), 0, 0, 0, 0, 64, protocol, 0, 0,
    10, 0, 0, 2, 93, 184, 216, 34] ++ payload)

def Packet.sampleSyn : Packet :=
  .sample 6 [156, 64, 0, 80, 0, 0, 0, 100, 0, 0, 0, 0, 0x50, 2, 3, 232, 0, 0, 0, 0]

def Env.strict : Env := { Env.calm with isAddressAllowed := fun _ _ _ => false }

end Sample

end NetGuard.Engine
