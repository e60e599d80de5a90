import NetGuard.Loop.Creators
import NetGuard.Loop.Limit
import NetGuard.Tun.Receiver

/-! # How `handle_tcp` answers

What a segment of the app makes the engine write to the tun, by the session that the search
finds for it, and the TCP header that the client sees of it.
-/
namespace NetGuard.Engine

section Header

/-- The TCP header of a packet for the tun, as the client decodes it. -/
def TunPacket.tcphdr (packet : TunPacket) : TcpHdr := (Packet.ofBytes packet.payload).tcphdr 0

theorem be32_of_at {p : Packet} {i : Nat} {n : UInt32} (h : Wire.At p.mem i (htonl n)) :
    p.be32 i = n := by
  obtain ⟨hhigh, hlow⟩ := Wire.at_append.mp h
  rw [Packet.be32, be16_of_at hhigh, be16_of_at (i := i + 2) hlow]
  apply UInt32.toNat_inj.mp
  have hlt := n.toNat_lt
  simp only [UInt32.toNat_add, UInt32.toNat_mul, UInt16.toNat_toUInt32, UInt32.toNat_toUInt16,
    UInt32.toNat_shiftRight, Nat.shiftRight_eq_div_pow, show (65536 : UInt32).toNat = 65536 from rfl,
    show (16 : UInt32).toNat % 32 = 16 from rfl]
  omega

variable (cur : TcpSession) (data : List UInt8) (syn ack fin rst : Bool)

theorem TunPacket.tcphdr_flags : (tcp cur data syn ack fin rst).tcphdr.ack = ack ∧
    (tcp cur data syn ack fin rst).tcphdr.rst = rst := by
  have hflags : (Packet.ofBytes (tcpSegment cur data syn ack fin rst)).mem 13 =
    tcpFlags syn ack fin rst := rfl
  constructor
  · simp only [tcphdr, payload, Packet.tcphdr, Nat.zero_add, hflags]
    cases syn <;> cases ack <;> cases fin <;> cases rst <;> rfl
  · simp only [tcphdr, payload, Packet.tcphdr, Nat.zero_add, hflags]
    cases syn <;> cases ack <;> cases fin <;> cases rst <;> rfl

theorem TunPacket.tcphdr_ackSeq :
    (tcp cur data syn ack fin rst).tcphdr.ackSeq = if ack then cur.remoteSeq else 0 :=
  be32_of_at ⟨rfl, rfl, rfl, rfl, trivial⟩

end Header

section Segment
variable {env : Env} {tcphdr : TcpHdr} {data : Payload} {uid : Int} {allowed : Bool}

/-- The reset of a session: it acknowledges in `LISTEN` only, and is all that is written. -/
theorem writeRst_tun (env : Env) (c : Conn) : ∃ cur written, (writeRst env c).out =
      c.out ++ [.tun (.tcp cur [] false (c.tcp.state == .listen) false true) written] ∧
    cur.remoteSeq = if c.tcp.state = .listen then c.tcp.remoteSeq + 1 else c.tcp.remoteSeq := by
  rw [writeRst_eq]
  refine ⟨(countSyn c).tcp, env.tunWrite (countSyn c).out, by simp [Conn.wrote], ?_⟩
  unfold countSyn
  split <;> rfl

theorem writeRst_kept (env : Env) (c : Conn) : (writeRst env c).tcp.toFlow = c.tcp.toFlow ∧
    (writeRst env c).tcp.acked = c.tcp.acked := by
  rw [writeRst_eq]
  unfold countSyn
  split <;> exact ⟨rfl, rfl⟩

/-- A session with the fields that every segment touches. -/
def Conn.touched (c : Conn) (uid time : Int) (window : UInt32) : Conn :=
  { c with
    tcp.uid := uid
    tcp.time := time
    tcp.sendWindow := window
    tcp.unconfirmed := 0 }

theorem Conn.touched_uid (c : Conn) (uid : Int) : ∃ uid',
    (if c.tcp.uid = -1 ∧ uid > 0 then { c with tcp.uid := uid } else c) =
      { c with tcp.uid := uid' } := by
  split
  · exact ⟨uid, rfl⟩
  · exact ⟨c.tcp.uid, rfl⟩

theorem Conn.touched_time (c : Conn) (syn : Bool) (now : Int) : ∃ time,
    (if syn then c else { c with tcp.time := now }) = { c with tcp.time := time } := by
  split
  · exact ⟨c.tcp.time, rfl⟩
  · exact ⟨now, rfl⟩

variable (env tcphdr data uid)

theorem handleSegment_shut {c : Conn} (hshut : allowed = false ∨ c.tcp.state.Over) :
    ∃ uid', handleSegment env tcphdr data uid allowed c =
      writeRst env { c with tcp.uid := uid' } := by
  obtain ⟨uid', huid⟩ := c.touched_uid uid
  refine ⟨uid', ?_⟩
  rw [handleSegment, huid]
  cases allowed with
  | false => rfl
  | true => exact if_pos (hshut.resolve_left nofun)

theorem handleSegment_open {c : Conn} (hopen : ¬ c.tcp.state.Over) :
    ∃ uid' time window, handleSegment env tcphdr data uid true c =
      if data.val = [] then handleFlags env tcphdr (c.touched uid' time window)
      else if c.socket < 0 ∨ c.tcp.state = .closeWait then
        writeRst env (c.touched uid' time window)
      else handleFlags env tcphdr
        { c.touched uid' time window with
          tcp := queueTcp (c.touched uid' time window).tcp tcphdr data } := by
  obtain ⟨uid', huid⟩ := c.touched_uid uid
  obtain ⟨time, htime⟩ := Conn.touched_time { c with tcp.uid := uid' } tcphdr.syn (env.time c.out)
  refine ⟨uid', time, tcphdr.window.toUInt32 <<< c.tcp.sendScale.toUInt32, ?_⟩
  have hnot : ¬ (c.tcp.state = .closing ∨ c.tcp.state = .close) := hopen
  simp only [handleSegment, huid, Bool.not_true, Bool.false_eq_true, if_false, if_neg hnot,
    handleOpen, htime, List.isEmpty_iff]
  split
  · rfl
  · split
    next hsock =>
      rw [if_pos (.inl hsock)]
      rfl
    next hsock =>
      split
      next hwait =>
        rw [if_pos (.inr hwait)]
        rfl
      next hwait =>
        rw [if_neg (not_or.mpr ⟨hsock, hwait⟩)]
        rfl

end Segment

section Search
variable {env : Env} {args : Arguments} {p : Packet} {version : IpVersion} {payload : Nat}
  {uid : Int} {allowed : Bool} {ctx : Context}

/-- The session that `handle_tcp` finds. -/
def Context.tcpSession (ctx : Context) (flow : Flow) : Option NgSession :=
  ctx.ngSession.find? (NgSession.isTcp flow)

/-- What `handle_tcp` adds to the trace. -/
def tcpWritten (env : Env) (args : Arguments) (p : Packet) (version : IpVersion) (payload : Nat)
    (uid : Int) (allowed : Bool) (ctx : Context) : Trace :=
  (handleTcp env args p version payload uid allowed ctx).out.drop ctx.out.length

/-- What `handle_tcp` makes of a segment of a session. -/
def tcpHandled (env : Env) (p : Packet) (payload : Nat) (uid : Int) (allowed : Bool)
    (ctx : Context) (s : TcpSession) (sock : Int) (events : Events) : Conn :=
  handleSegment (env.after ctx.out) (p.tcphdr payload) (p.payloadFrom (p.tcpData payload)) uid
    allowed ⟨s, sock, events, []⟩

theorem tcpHandled_toFlow (s : TcpSession) (sock : Int) (events : Events) :
    (tcpHandled env p payload uid allowed ctx s sock events).tcp.toFlow = s.toFlow := by
  have hmoves : Moves (if allowed then .segment ⟨p.tcphdr payload, _⟩ else .other)
      ⟨⟨s, sock, events, []⟩, false⟩
      ⟨tcpHandled env p payload uid allowed ctx s sock events, false⟩ :=
    Acts.handleSegment (p.tcphdr payload) (p.payloadFrom (p.tcpData payload)) uid allowed
  exact (Run.chain_invariant (P := fun t : Stage => t.conn.tcp.toFlow = s.toFlow ∧
    Trace.For (.tcp s.toFlow) t.conn.out) (fun _ _ => Move.for) hmoves ⟨rfl, by simp [Trace.For]⟩).1

/-- The session answers the segment with a reset before its flags are looked at. -/
def TcpSession.Rejects (s : TcpSession) (sock : Int) (allowed : Bool) (data : Payload) : Prop :=
  (allowed = false ∨ s.state.Over) ∨ data.val ≠ [] ∧ (sock < 0 ∨ s.state = .closeWait)

theorem TcpSession.not_rejects_iff {s : TcpSession} {sock : Int} {data : Payload} :
    ¬ s.Rejects sock allowed data ↔
      allowed = true ∧ ¬ s.state.Over ∧ (data.val = [] ∨ (0 ≤ sock ∧ s.state ≠ .closeWait)) := by
  simp only [Rejects, not_or, not_and_or, not_not, Int.not_lt, Bool.not_eq_false, and_assoc, ne_eq]

theorem tcpHandled_rejected {s : TcpSession} {sock : Int} (events : Events)
    (h : s.Rejects sock allowed (p.payloadFrom (p.tcpData payload))) :
    ∃ c : Conn, (c.out = [] ∧ c.tcp.state = s.state ∧ c.tcp.remoteSeq = s.remoteSeq) ∧
      tcpHandled env p payload uid allowed ctx s sock events = writeRst (env.after ctx.out) c := by
  by_cases hshut : allowed = false ∨ s.state.Over
  · obtain ⟨uid', hhandled⟩ := handleSegment_shut (env.after ctx.out) (p.tcphdr payload)
      (p.payloadFrom (p.tcpData payload)) uid (c := ⟨s, sock, events, []⟩) hshut
    exact ⟨_, ⟨rfl, rfl, rfl⟩, hhandled⟩
  · obtain ⟨hdata, hlost⟩ := h.resolve_left hshut
    rw [not_or, Bool.not_eq_false] at hshut
    obtain ⟨rfl, hopen⟩ := hshut
    obtain ⟨uid', time, window, hhandled⟩ := handleSegment_open (env.after ctx.out)
      (p.tcphdr payload) (p.payloadFrom (p.tcpData payload)) uid (c := ⟨s, sock, events, []⟩) hopen
    rw [if_neg hdata, if_pos hlost] at hhandled
    exact ⟨_, ⟨rfl, rfl, rfl⟩, hhandled⟩

theorem tcpHandled_accepted {s : TcpSession} {sock : Int} (events : Events)
    (h : ¬ s.Rejects sock allowed (p.payloadFrom (p.tcpData payload))) :
    ∃ c : Conn, c.out = [] ∧ tcpHandled env p payload uid allowed ctx s sock events =
      handleFlags (env.after ctx.out) (p.tcphdr payload) c := by
  obtain ⟨rfl, hopen, htaken⟩ := TcpSession.not_rejects_iff.mp h
  obtain ⟨uid', time, window, hhandled⟩ := handleSegment_open (env.after ctx.out)
    (p.tcphdr payload) (p.payloadFrom (p.tcpData payload)) uid (c := ⟨s, sock, events, []⟩) hopen
  by_cases hdata : (p.payloadFrom (p.tcpData payload)).val = []
  · rw [if_pos hdata] at hhandled
    exact ⟨_, rfl, hhandled⟩
  · obtain ⟨hsock, hwait⟩ := htaken.resolve_left hdata
    rw [if_neg hdata, if_neg (not_or.mpr ⟨Int.not_lt.mpr hsock, hwait⟩)] at hhandled
    exact ⟨_, rfl, hhandled⟩

/-- The first session of the flow is the one that is handled. -/
theorem handleTcp_found {s : TcpSession} {sock : Int} {events : Events}
    (hurg : (p.tcphdr payload).urg = false)
    (hs : ctx.tcpSession (p.flow payload version) = some (.tcp s sock events)) :
    (handleTcp env args p version payload uid allowed ctx).out =
        ctx.out ++ (tcpHandled env p payload uid allowed ctx s sock events).out ∧
      (handleTcp env args p version payload uid allowed ctx).tcpSession (p.flow payload version) =
        some (tcpHandled env p payload uid allowed ctx s sock events).entry := by
  obtain ⟨before, rest, hcut, -, hflow, hbefore⟩ := Table.search_found hs
  have hentry : (tcpHandled env p payload uid allowed ctx s sock events).entry.isTcp
      (p.flow payload version) = true := by
    simpa [Conn.entry, NgSession.isTcp, tcpHandled_toFlow] using hflow
  simp only [handleTcp, hurg, Bool.false_eq_true, if_false, hcut]
  refine ⟨rfl, ?_⟩
  exact List.find?_eq_some_iff_append.mpr ⟨hentry, before, rest, rfl, by simpa using hbefore⟩

theorem tcpWritten_found {s : TcpSession} {sock : Int} {events : Events}
    (hurg : (p.tcphdr payload).urg = false)
    (hs : ctx.tcpSession (p.flow payload version) = some (.tcp s sock events)) :
    tcpWritten env args p version payload uid allowed ctx =
      (tcpHandled env p payload uid allowed ctx s sock events).out := by
  rw [tcpWritten, (handleTcp_found hurg hs).1, List.drop_left]

/-- The ways out of `handle_tcp` for a flow without a session. -/
theorem handleTcp_unknown (hurg : (p.tcphdr payload).urg = false)
    (hnone : ctx.tcpSession (p.flow payload version) = none) :
    ((p.tcphdr payload).syn = true ∧
      parseOptions p (payload + 20) (p.tcphdr payload).tcpoptlen.toNat (getDefaultMss version) 0 =
        none ∧
      handleTcp env args p version payload uid allowed ctx = ctx.emit .hang) ∨
    ((p.tcphdr payload).syn = true ∧ ∃ mss ws opened out,
      parseOptions p (payload + 20) (p.tcphdr payload).tcpoptlen.toNat (getDefaultMss version) 0 =
        some (mss, ws) ∧
      newTcpSession (env.after ctx.out) args (p.flow payload version) (p.tcphdr payload)
        (p.payloadFrom (p.tcpData payload)) mss ws uid allowed [] = (opened, out) ∧
      handleTcp env args p version payload uid allowed ctx =
        ⟨(opened.map Conn.entry).toList ++ ctx.ngSession, ctx.out ++ out⟩) ∨
    ((p.tcphdr payload).syn = false ∧
      handleTcp env args p version payload uid allowed ctx = { ctx with
        out := ctx.out ++ (writeRst (env.after ctx.out) ⟨resetSession (p.flow payload version)
          (p.tcphdr payload) (p.datalen (p.tcpData payload)), -1, ⟨false, false, false⟩, []⟩).out }) := by
  have hunknown : ∀ a ∈ ctx.ngSession, ¬ a.isTcp (p.flow payload version) = true :=
    List.find?_eq_none.mp hnone
  have hhandled : TcpHandled env args p version payload uid allowed ctx _ := handleTcp_handled ..
  generalize handleTcp env args p version payload uid allowed ctx = ctx' at hhandled
  cases hhandled with
  | urgent h => exact absurd (hurg.symm.trans h) Bool.false_ne_true
  | found _ hlist hflow =>
    refine absurd ?_ (hunknown _ (hlist ▸ List.mem_append_right _ List.mem_cons_self))
    simpa [NgSession.isTcp] using hflow
  | endless _ _ hsyn hoptions => exact .inl ⟨hsyn, hoptions, rfl⟩
  | syn _ _ hsyn hoptions hopened =>
    exact .inr (.inl ⟨hsyn, _, _, _, _, hoptions, hopened, rfl⟩)
  | unknown _ _ hnot => exact .inr (.inr ⟨hnot, rfl⟩)

theorem handleTcp_urgent (hurg : (p.tcphdr payload).urg = true) :
    handleTcp env args p version payload uid allowed ctx = ctx := by
  simp [handleTcp, hurg]

/-- A search finds TCP sessions only. -/
theorem Context.tcpSession_tcp {flow : Flow} {a : NgSession} (ha : ctx.tcpSession flow = some a) :
    ∃ s sock events, a = .tcp s sock events := by
  have hflow : a.isTcp flow = true := List.find?_some ha
  cases a with
  | tcp s sock events => exact ⟨s, sock, events, rfl⟩
  | _ => exact absurd hflow Bool.false_ne_true

end Search

end NetGuard.Engine
