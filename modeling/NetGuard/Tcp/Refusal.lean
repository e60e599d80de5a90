import NetGuard.Tcp.Answers

/-! # Resets that `handle_tcp` writes and receives

A reset acknowledges what it answers only for a session in `LISTEN`, and the unknown, blocked
and closed sessions are answered before the flags of the segment are looked at.
-/
namespace NetGuard.Engine

section Syn
variable {env : Env} {args : Arguments} {p : Packet} {version : IpVersion} {payload : Nat}
  {uid : Int} {allowed : Bool} {ctx : Context}

/-- A client in `SYN_SENT` takes a reset that acknowledges its SYN. -/
def TunPacket.Refuses (tcphdr : TcpHdr) (packet : TunPacket) : Prop :=
  packet.tcphdr.ack = true ∧ packet.tcphdr.ackSeq = tcphdr.seq + 1

def Trace.Resets (out : Trace) (packet : TunPacket) : Prop :=
  ∃ written, .tun packet written ∈ out ∧ packet.tcphdr.rst = true

/-- The session still waits for the SYN it was opened by. -/
def TcpSession.Awaits (s : TcpSession) (tcphdr : TcpHdr) : Prop :=
  s.state = .listen ∧ s.remoteSeq = tcphdr.seq

theorem reset_refuses_iff {s cur : TcpSession} (tcphdr : TcpHdr)
    (hseq : cur.remoteSeq = if s.state = .listen then s.remoteSeq + 1 else s.remoteSeq) :
    (TunPacket.tcp cur [] false (s.state == .listen) false true).Refuses tcphdr ↔
      s.Awaits tcphdr := by
  rw [TunPacket.Refuses, (TunPacket.tcphdr_flags ..).1, TunPacket.tcphdr_ackSeq]
  by_cases hlisten : s.state = .listen
  · simp [hlisten, hseq, TcpSession.Awaits]
  · simp [hlisten, TcpSession.Awaits]

/-- A SYN of a session is answered with the session's reset or not at all. -/
theorem tcpHandled_syn (env : Env) (uid : Int) (allowed : Bool) (ctx : Context)
    (hsyn : (p.tcphdr payload).syn = true) (hack : (p.tcphdr payload).ack = false)
    (s : TcpSession) (sock : Int) (events : Events) :
    (tcpHandled env p payload uid allowed ctx s sock events).out = [] ∨
      ∃ cur written, (tcpHandled env p payload uid allowed ctx s sock events).out =
          [.tun (.tcp cur [] false (s.state == .listen) false true) written] ∧
        cur.remoteSeq = if s.state = .listen then s.remoteSeq + 1 else s.remoteSeq := by
  have hflags (c : Conn) :
      (handleFlags (env.after ctx.out) (p.tcphdr payload) c).out = c.out := by
    simp only [handleFlags, hsyn, hack, Bool.not_false, Bool.true_or, if_true]
    split <;> rfl
  by_cases hrejects : s.Rejects sock allowed (p.payloadFrom (p.tcpData payload))
  · obtain ⟨c, ⟨hempty, hstate, hseq⟩, hhandled⟩ := tcpHandled_rejected events hrejects
    obtain ⟨cur, written, hout, hcur⟩ := writeRst_tun (env.after ctx.out) c
    rw [hempty, List.nil_append, hstate] at hout
    rw [hstate, hseq] at hcur
    exact .inr ⟨cur, written, hhandled ▸ hout, hcur⟩
  · obtain ⟨c, hempty, hhandled⟩ := tcpHandled_accepted events hrejects
    rw [hhandled, hflags, hempty]
    exact .inl rfl

theorem Trace.Resets.opening {out : Trace} {packet : TunPacket} (h : out.Resets packet) :
    ¬ ∀ o ∈ out, o.opening = true := by
  intro hopening
  obtain ⟨written, hmem, -⟩ := h
  exact absurd (hopening _ hmem) Bool.false_ne_true

/-- The SYN of a new session that is reset at once is acknowledged. -/
theorem newTcpSession_refuses (syn : Syn) {opened : Option Conn} {out : Trace}
    (h : newTcpSession env args syn.flow syn.tcphdr syn.data syn.mss syn.ws syn.uid syn.allowed [] =
      (opened, out)) {packet : TunPacket} (hreset : out.Resets packet) :
    packet.Refuses syn.tcphdr := by
  cases opened with
  | none =>
    obtain ⟨-, hout⟩ := newTcpSession_none h
    obtain ⟨os, hos, hopening⟩ := openTcpSocket_opening args env
      (synSession env syn.flow syn.tcphdr syn.data syn.mss syn.ws syn.uid []) []
    rw [hout, hos] at hreset
    exact absurd hopening hreset.opening
  | some c =>
    obtain ⟨d, hd, hc, hout⟩ := newTcpSession_listening _ h
    rw [hout, hc] at hreset
    split at hreset
    · exact absurd hd.out hreset.opening
    · obtain ⟨cur, sent, hwrite, hseq⟩ := writeRst_tun env d
      obtain ⟨written, hmem, -⟩ := hreset
      rw [hwrite] at hmem
      rcases List.mem_append.mp hmem with hmem | hmem
      · exact absurd (hd.out _ hmem) Bool.false_ne_true
      · obtain ⟨rfl, -⟩ := Output.tun.inj (List.mem_singleton.mp hmem)
        exact (reset_refuses_iff _ hseq).mpr ⟨hd.state, hd.remoteSeq⟩

/-- The reset that answers a SYN is acceptable when no session of its flow is known, or the one
that is known still waits for this very SYN. -/
theorem refusal_acceptable_iff (hsyn : (p.tcphdr payload).syn = true)
    (hack : (p.tcphdr payload).ack = false)
    (hreset : ∃ packet, (tcpWritten env args p version payload uid allowed ctx).Resets packet) :
    (∀ packet, (tcpWritten env args p version payload uid allowed ctx).Resets packet →
      packet.Refuses (p.tcphdr payload)) ↔
    ∀ s sock events, ctx.tcpSession (p.flow payload version) = some (.tcp s sock events) →
      s.Awaits (p.tcphdr payload) := by
  obtain ⟨reset, hreset⟩ := hreset
  have hurg : (p.tcphdr payload).urg = false := by
    by_contra h
    rw [tcpWritten, handleTcp_urgent (by simpa using h), List.drop_length] at hreset
    exact hreset.opening (by simp)
  cases hfound : ctx.tcpSession (p.flow payload version) with
  | some a =>
    obtain ⟨s, sock, events, rfl⟩ := Context.tcpSession_tcp hfound
    rw [tcpWritten_found hurg hfound] at hreset ⊢
    rcases tcpHandled_syn env uid allowed ctx hsyn hack s sock events with
      hsilent | ⟨cur, sent, hout, hseq⟩
    · rw [hsilent] at hreset
      exact absurd (by simp) hreset.opening
    · have hrefuses := reset_refuses_iff (p.tcphdr payload) hseq
      have hmem : Trace.Resets (tcpHandled env p payload uid allowed ctx s sock events).out
          (.tcp cur [] false (s.state == .listen) false true) :=
        ⟨sent, by simp [hout], (TunPacket.tcphdr_flags ..).2⟩
      constructor
      · intro hall _ _ _ heq
        obtain ⟨rfl, -⟩ := NgSession.tcp.inj (Option.some.inj heq)
        exact hrefuses.mp (hall _ hmem)
      · rintro hawaits packet ⟨written, hpacket, -⟩
        rw [hout] at hpacket
        obtain ⟨rfl, -⟩ := Output.tun.inj (List.mem_singleton.mp hpacket)
        exact hrefuses.mpr (hawaits s sock events rfl)
  | none =>
    refine iff_of_true ?_ fun _ _ _ hsome => absurd hsome (Option.some_ne_none _).symm
    intro packet hpacket
    rw [tcpWritten] at hpacket
    rcases handleTcp_unknown hurg hfound with ⟨-, -, hhandled⟩ |
      ⟨-, mss, ws, opened, out, hoptions, hopened, hhandled⟩ | ⟨hnot, -⟩
    · rw [hhandled, Context.emit, List.drop_left] at hpacket
      obtain ⟨written, hmem, -⟩ := hpacket
      exact absurd hmem (by simp)
    · rw [hhandled, List.drop_left] at hpacket
      exact newTcpSession_refuses ⟨p.flow payload version, p.tcphdr payload,
        p.payloadFrom (p.tcpData payload), mss, ws, uid, allowed⟩ hopened hpacket
    · exact absurd (hsyn.symm.trans hnot) (by simp)

theorem refusal_acceptable_sample : ∃ cur : TcpSession,
    Output.tun (.tcp cur [] false true false true) true ∈
        tcpWritten .strict .direct .sampleSyn .v4 20 1000 false ⟨[], []⟩ ∧
      (TunPacket.tcp cur [] false true false true).Refuses (Packet.sampleSyn.tcphdr 20) := by
  obtain ⟨os, cur, hout⟩ : ∃ os cur, tcpWritten .strict .direct .sampleSyn .v4 20 1000 false
      ⟨[], []⟩ = os ++ [.tun (.tcp cur [] false true false true) true] :=
    ⟨[_, _, _, _, _], _, by with_unfolding_all rfl⟩
  have hmem : Output.tun (.tcp cur [] false true false true) true ∈
      tcpWritten .strict .direct .sampleSyn .v4 20 1000 false ⟨[], []⟩ := by simp [hout]
  have hreset : (tcpWritten .strict .direct .sampleSyn .v4 20 1000 false ⟨[], []⟩).Resets
      (.tcp cur [] false true false true) := ⟨true, hmem, (TunPacket.tcphdr_flags ..).2⟩
  exact ⟨cur, hmem, (refusal_acceptable_iff rfl rfl ⟨_, hreset⟩).mpr
    (fun _ _ _ hs => absurd hs (Option.some_ne_none _).symm) _ hreset⟩

/-- The second blocked SYN of a flow finds the session of the first one, `CLOSING`. -/
theorem not_refusal_acceptable :
    ¬ ∀ (args : Arguments) (es : List (Env × LoopEvent)) (env : Env) (p : Packet)
      (version : IpVersion) (payload : Nat) (uid : Int) (allowed : Bool),
      (p.tcphdr payload).syn = true → (p.tcphdr payload).ack = false → ∀ packet,
        (tcpWritten env args p version payload uid allowed
          ⟨((EventLoop.init args).run es).ngSession, []⟩).Resets packet →
        packet.Refuses (p.tcphdr payload) := by
  intro h
  obtain ⟨cur, hout⟩ : ∃ cur, tcpWritten .strict .direct .sampleSyn .v4 20 1000 false
      ⟨((EventLoop.init .direct).run [(.strict, .tun .sampleSyn)]).ngSession, []⟩ =
        [.tun (.tcp cur [] false false false true) true] := ⟨_, by with_unfolding_all rfl⟩
  have hrefuses := h .direct [(.strict, .tun .sampleSyn)] .strict .sampleSyn .v4 20 1000 false
    rfl rfl (.tcp cur [] false false false true) ⟨true, by simp [hout], (TunPacket.tcphdr_flags ..).2⟩
  exact absurd ((TunPacket.tcphdr_flags ..).1.symm.trans hrefuses.1) Bool.false_ne_true

end Syn

section Rst
variable {env : Env} {args : Arguments} {p : Packet} {version : IpVersion} {payload : Nat}
  {uid : Int} {allowed : Bool} {ctx : Context}

variable (env args p version payload uid allowed ctx)

/-- A SYN of an unknown flow gets a socket. -/
def OpensSession : Prop :=
  ∃ mss ws, parseOptions p (payload + 20) (p.tcphdr payload).tcpoptlen.toNat
      (getDefaultMss version) 0 = some (mss, ws) ∧
    0 ≤ (openTcpSocket (env.after ctx.out) args (synSession (env.after ctx.out)
      (p.flow payload version) (p.tcphdr payload) (p.payloadFrom (p.tcpData payload)) mss ws uid [])
        []).1

/-- Nothing answers a reset: it is dropped as urgent, taken by an open session, or opens a
session if it is a SYN. -/
def TakesQuietly : Prop :=
  (p.tcphdr payload).urg = true ∨
    (∃ s sock events, ctx.tcpSession (p.flow payload version) = some (.tcp s sock events) ∧
      allowed = true ∧ ¬ s.state.Over ∧
        ((p.payloadFrom (p.tcpData payload)).val = [] ∨ (0 ≤ sock ∧ s.state ≠ .closeWait))) ∨
    ctx.tcpSession (p.flow payload version) = none ∧ (p.tcphdr payload).syn = true ∧
      (allowed = true ∨ ¬ OpensSession env args p version payload uid ctx)

/-- No session of the flow is live after a reset. -/
def LeavesNone : Prop :=
  match ctx.tcpSession (p.flow payload version) with
  | some s => (p.tcphdr payload).urg = true → s.live = false
  | none => (p.tcphdr payload).urg = false → (p.tcphdr payload).syn = true → allowed = true →
      ¬ OpensSession env args p version payload uid ctx

variable {env args p version payload uid allowed ctx}

theorem writeRst_spoken (env : Env) (c : Conn) :
    ¬ ∀ packet written, .tun packet written ∉ (writeRst env c).out := by
  intro hsilent
  obtain ⟨cur, written, hout, -⟩ := writeRst_tun env c
  exact hsilent (.tcp cur [] false (c.tcp.state == .listen) false true) written (by simp [hout])

theorem tcpHandled_rst (env : Env) (uid : Int) (allowed : Bool) (ctx : Context)
    (hrst : (p.tcphdr payload).rst = true) (s : TcpSession) (sock : Int)
    (events : Events) :
    ((∀ packet written, .tun packet written ∉
        (tcpHandled env p payload uid allowed ctx s sock events).out) ↔
      allowed = true ∧ ¬ s.state.Over ∧
        ((p.payloadFrom (p.tcpData payload)).val = [] ∨ (0 ≤ sock ∧ s.state ≠ .closeWait))) ∧
    (tcpHandled env p payload uid allowed ctx s sock events).tcp.state.Over := by
  have hflags (c : Conn) :
      handleFlags (env.after ctx.out) (p.tcphdr payload) c = c.setState .closing := if_pos hrst
  rw [← TcpSession.not_rejects_iff]
  by_cases hrejects : s.Rejects sock allowed (p.payloadFrom (p.tcpData payload))
  · obtain ⟨c, -, hhandled⟩ := tcpHandled_rejected events hrejects
    rw [hhandled]
    exact ⟨iff_of_false (writeRst_spoken _ _) (not_not_intro hrejects), writeRst_over _ _⟩
  · obtain ⟨c, hempty, hhandled⟩ := tcpHandled_accepted events hrejects
    rw [hhandled, hflags]
    exact ⟨iff_of_true (by simp [hempty]) hrejects, .inl rfl⟩

/-- What becomes of a segment of a flow without a session, and the session found afterwards. -/
inductive UnknownHandled (opens : Prop) (syn allowed : Bool) (out : Trace)
    (found : Option NgSession) : Prop
  | skipped (hsyn : syn = true) (hno : ¬ opens) (hquiet : ∀ packet written, .tun packet written ∉ out)
      (hnone : found = none)
  | listed (hsyn : syn = true) (hallowed : allowed = true) (hopens : opens)
      (hquiet : ∀ packet written, .tun packet written ∉ out)
      (hfound : ∃ a, found = some a ∧ a.live = true)
  | reset (hsyn : syn = true) (hblocked : allowed = false) (hopens : opens)
      (hspoken : ¬ ∀ packet written, .tun packet written ∉ out)
      (hfound : ∃ a, found = some a ∧ a.live = false)
  | answered (hnot : syn = false) (hspoken : ¬ ∀ packet written, .tun packet written ∉ out)
      (hnone : found = none)

theorem quiet_of_opening {out : Trace} (hout : ∀ o ∈ out, o.opening = true) (packet : TunPacket)
    (written : Bool) : .tun packet written ∉ out :=
  fun hmem => absurd (hout _ hmem) Bool.false_ne_true

/-- A SYN with readable options gets no socket, or its session is listed, or reset at once. -/
theorem unknownHandled_new (hnone : ctx.tcpSession (p.flow payload version) = none)
    (hsyn : (p.tcphdr payload).syn = true) {mss : UInt16} {ws : UInt8} {opened : Option Conn}
    {out : Trace}
    (hoptions : parseOptions p (payload + 20) (p.tcphdr payload).tcpoptlen.toNat
      (getDefaultMss version) 0 = some (mss, ws))
    (hopened : newTcpSession (env.after ctx.out) args (p.flow payload version) (p.tcphdr payload)
      (p.payloadFrom (p.tcpData payload)) mss ws uid allowed [] = (opened, out)) :
    UnknownHandled (OpensSession env args p version payload uid ctx) (p.tcphdr payload).syn allowed
      out (Context.tcpSession ⟨(opened.map Conn.entry).toList ++ ctx.ngSession, ctx.out ++ out⟩
        (p.flow payload version)) := by
  cases opened with
  | none =>
    obtain ⟨hsock, hout⟩ := newTcpSession_none hopened
    obtain ⟨os, hos, hopening⟩ := openTcpSocket_opening args (env.after ctx.out)
      (synSession (env.after ctx.out) (p.flow payload version) (p.tcphdr payload)
        (p.payloadFrom (p.tcpData payload)) mss ws uid []) []
    refine .skipped hsyn ?_ (quiet_of_opening (hout.trans hos ▸ hopening)) hnone
    rintro ⟨mss', ws', hoptions', hsock'⟩
    obtain ⟨rfl, rfl⟩ := Prod.mk.inj (Option.some.inj (hoptions.symm.trans hoptions'))
    exact absurd hsock (Int.not_lt.mpr hsock')
  | some c =>
    have hopens : OpensSession env args p version payload uid ctx :=
      ⟨mss, ws, hoptions, (newTcpSession_some hopened).1⟩
    obtain ⟨d, hd, hc, hout⟩ := newTcpSession_listening ⟨p.flow payload version,
      p.tcphdr payload, p.payloadFrom (p.tcpData payload), mss, ws, uid, allowed⟩ hopened
    have hfirst (hflow : c.tcp.toFlow = p.flow payload version) :
        Context.tcpSession ⟨c.entry :: ctx.ngSession, ctx.out ++ out⟩ (p.flow payload version) =
          some c.entry :=
      List.find?_cons_of_pos (by simpa [Conn.entry, NgSession.isTcp] using hflow)
    cases allowed with
    | true =>
      obtain rfl : c = d := hc
      exact .listed hsyn rfl hopens (quiet_of_opening (hout ▸ hd.out))
        ⟨c.entry, hfirst hd.flow, by simp [Conn.entry, NgSession.live, hd.state]⟩
    | false =>
      obtain rfl : c = writeRst (env.after ctx.out) d := hc
      refine .reset hsyn rfl hopens (hout ▸ writeRst_spoken _ _) ⟨_, hfirst ?_, ?_⟩
      · exact (writeRst_kept _ _).1.trans hd.flow
      · exact Bool.eq_false_iff.mpr fun hlive => NgSession.live_tcp.mp hlive (writeRst_over _ _)

theorem handleTcp_unknownHandled (hurg : (p.tcphdr payload).urg = false)
    (hnone : ctx.tcpSession (p.flow payload version) = none) :
    UnknownHandled (OpensSession env args p version payload uid ctx) (p.tcphdr payload).syn allowed
      (tcpWritten env args p version payload uid allowed ctx)
      ((handleTcp env args p version payload uid allowed ctx).tcpSession
        (p.flow payload version)) := by
  rw [tcpWritten]
  rcases handleTcp_unknown hurg hnone with ⟨hsyn, hendless, hhandled⟩ |
    ⟨hsyn, mss, ws, opened, out, hoptions, hopened, hhandled⟩ | ⟨hnot, hhandled⟩
  · rw [hhandled, Context.emit, List.drop_left]
    refine .skipped hsyn ?_ (by simp) hnone
    rintro ⟨mss, ws, hoptions, -⟩
    exact absurd (hendless.symm.trans hoptions) (Option.some_ne_none _).symm
  · rw [hhandled, List.drop_left]
    exact unknownHandled_new hnone hsyn hoptions hopened
  · rw [hhandled, List.drop_left]
    exact .answered hnot (writeRst_spoken _ _) hnone

/-- For a flow without a session: a SYN is listed or reset, and anything else is answered. -/
theorem UnknownHandled.quiet_iff {opens : Prop} {syn : Bool} {out : Trace}
    {found : Option NgSession} (h : UnknownHandled opens syn allowed out found) :
    ((∀ packet written, .tun packet written ∉ out) ↔
      syn = true ∧ (allowed = true ∨ ¬ opens)) ∧
    ((∀ a, found = some a → a.live = false) ↔ (syn = true → allowed = true → ¬ opens)) := by
  cases h with
  | skipped hsyn hno hquiet hnone =>
    exact ⟨iff_of_true hquiet ⟨hsyn, .inr hno⟩,
      iff_of_true (fun a ha => absurd (hnone.symm.trans ha) (by simp)) fun _ _ => hno⟩
  | listed hsyn hallowed hopens hquiet hfound =>
    obtain ⟨a, ha, hlive⟩ := hfound
    refine ⟨iff_of_true hquiet ⟨hsyn, .inl hallowed⟩, iff_of_false ?_ fun h => h hsyn hallowed hopens⟩
    intro hover
    exact absurd (hlive.symm.trans (hover a ha)) (by decide)
  | reset hsyn hblocked hopens hspoken hfound =>
    obtain ⟨a, ha, hover⟩ := hfound
    refine ⟨iff_of_false hspoken ?_, iff_of_true ?_ ?_⟩
    · rintro ⟨-, hallowed | hno⟩
      · exact absurd (hblocked.symm.trans hallowed) (by decide)
      · exact hno hopens
    · rintro b hb
      obtain rfl := Option.some.inj (ha.symm.trans hb)
      exact hover
    · intro _ hallowed
      exact absurd (hblocked.symm.trans hallowed) (by decide)
  | answered hnot hspoken hnone =>
    refine ⟨iff_of_false hspoken ?_,
      iff_of_true (fun a ha => absurd (hnone.symm.trans ha) (by simp)) ?_⟩
    · rintro ⟨hsyn, -⟩
      exact absurd (hnot.symm.trans hsyn) (by decide)
    · intro hsyn
      exact absurd (hnot.symm.trans hsyn) (by decide)

/-- When a reset is not answered, and when it leaves no live session of its flow. -/
theorem rst_taken_iff (hrst : (p.tcphdr payload).rst = true) :
    ((∀ packet written, .tun packet written ∉
        tcpWritten env args p version payload uid allowed ctx) ↔
      TakesQuietly env args p version payload uid allowed ctx) ∧
    ((∀ a, (handleTcp env args p version payload uid allowed ctx).tcpSession
        (p.flow payload version) = some a → a.live = false) ↔
      LeavesNone env args p version payload uid allowed ctx) := by
  rw [TakesQuietly, LeavesNone]
  cases hurg : (p.tcphdr payload).urg with
  | true =>
    rw [tcpWritten, handleTcp_urgent hurg, List.drop_length]
    refine ⟨iff_of_true (by simp) (.inl rfl), ?_⟩
    cases hfound : ctx.tcpSession (p.flow payload version) with
    | some a => simp
    | none => simp
  | false =>
    cases hfound : ctx.tcpSession (p.flow payload version) with
    | some a =>
      obtain ⟨s, sock, events, rfl⟩ := Context.tcpSession_tcp hfound
      obtain ⟨hquiet, hover⟩ := tcpHandled_rst env uid allowed ctx hrst s sock events
      rw [tcpWritten_found hurg hfound, (handleTcp_found hurg hfound).2, hquiet]
      constructor
      · constructor
        · intro htaken
          exact .inr (.inl ⟨s, sock, events, rfl, htaken⟩)
        · rintro (hbad | ⟨s', sock', events', heq, htaken⟩ | ⟨hbad, -⟩)
          · exact absurd hbad Bool.false_ne_true
          · obtain ⟨rfl, rfl, -⟩ := NgSession.tcp.inj (Option.some.inj heq)
            exact htaken
          · exact absurd hbad (Option.some_ne_none _)
      · refine iff_of_true ?_ (fun hbad => absurd hbad Bool.false_ne_true)
        rintro a ha
        obtain rfl := Option.some.inj ha
        exact Bool.eq_false_iff.mpr fun hlive => NgSession.live_tcp.mp hlive hover
    | none =>
      have hhandled : UnknownHandled _ _ allowed
          (tcpWritten env args p version payload uid allowed ctx) _ :=
        handleTcp_unknownHandled hurg hfound
      rw [hhandled.quiet_iff.1, hhandled.quiet_iff.2]
      simp

def Packet.sampleRst : Packet :=
  .sample 6 [156, 64, 0, 80, 0, 0, 0, 100, 0, 0, 0, 0, 0x50, 4, 3, 232, 0, 0, 0, 0]

/-- The session of a SYN, in `LISTEN`. -/
def Context.sampleListening : Context :=
  ⟨((EventLoop.init .direct).run [(.calm, .tun .sampleSyn)]).ngSession, []⟩

theorem sampleListening_session : ∃ s : TcpSession,
    Context.sampleListening.tcpSession (Packet.sampleRst.flow 20 .v4) =
        some (.tcp s 7 ⟨false, true, true⟩) ∧ s.state = .listen := by
  refine ⟨_, by with_unfolding_all rfl, ?_⟩
  rfl

theorem rst_taken_sample :
    (∀ packet written, .tun packet written ∉
      tcpWritten .calm .direct .sampleRst .v4 20 1000 true .sampleListening) ∧
    ∀ a, (handleTcp .calm .direct .sampleRst .v4 20 1000 true .sampleListening).tcpSession
      (Packet.sampleRst.flow 20 .v4) = some a → a.live = false := by
  obtain ⟨s, hs, hlisten⟩ := sampleListening_session
  have hopen : ¬ s.state.Over := by simp [hlisten, TcpState.Over]
  have hleaves : LeavesNone .calm .direct .sampleRst .v4 20 1000 true .sampleListening := by
    rw [LeavesNone, hs]
    exact fun hurg => absurd hurg (by decide)
  exact ⟨(rst_taken_iff (by rfl)).1.mpr (.inr (.inl ⟨s, 7, _, hs, rfl, hopen, .inl rfl⟩)),
    (rst_taken_iff (by rfl)).2.mpr hleaves⟩

/-- The reset of a connection that is not known is answered. -/
theorem not_rst_taken :
    ¬ ∀ (args : Arguments) (es : List (Env × LoopEvent)) (env : Env) (p : Packet)
      (version : IpVersion) (payload : Nat) (uid : Int) (allowed : Bool),
      (p.tcphdr payload).rst = true → ∀ packet written, .tun packet written ∉
        tcpWritten env args p version payload uid allowed
          ⟨((EventLoop.init args).run es).ngSession, []⟩ := by
  intro h
  obtain ⟨cur, hout⟩ : ∃ cur, tcpWritten .calm .direct .sampleRst .v4 20 1000 true
      ⟨((EventLoop.init .direct).run []).ngSession, []⟩ =
        [.tun (.tcp cur [] false false false true) true] := ⟨_, rfl⟩
  exact h .direct [] .calm .sampleRst .v4 20 1000 true rfl (.tcp cur [] false false false true) true
    (by simp [hout])

end Rst

end NetGuard.Engine
