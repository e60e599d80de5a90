import NetGuard.Tcp.Refusal

/-! # The highest acknowledgement

What `handle_tcp` makes of an ACK without anything else. The number one below `local_seq` is
taken for a keep-alive before the numbers are compared, and `compare_u32` decides the last
distance before half of the circle by the values.
-/
namespace NetGuard.Engine
open Serial

section Ack
variable {env : Env} {args : Arguments} {p : Packet} {version : IpVersion} {payload : Nat}
  {uid : Int} {ctx : Context} {s : TcpSession} {sock : Int} {events : Events}

/-- An ACK without SYN, FIN, RST, URG or data. -/
structure Packet.BareAck (p : Packet) (payload : Nat) : Prop where
  ack : (p.tcphdr payload).ack = true
  syn : (p.tcphdr payload).syn = false
  fin : (p.tcphdr payload).fin = false
  rst : (p.tcphdr payload).rst = false
  urg : (p.tcphdr payload).urg = false
  data : (p.payloadFrom (p.tcpData payload)).val = []

/-- The session `s`, with the ACK number `a`, becomes `t` and `out` is written: `acked` follows
the highest number, and a number from the future resets. -/
structure AckTracked (s : TcpSession) (a : UInt32) (t : TcpSession) (out : Trace) : Prop where
  advances : Lt s.acked a → Le a s.localSeq → t.acked = a
  keeps : Le a s.acked → t.acked = s.acked
  resets : Lt s.localSeq a → t.state.Over ∧ ∃ packet, out.Resets packet

/-- The number is new and is not taken: it looks like a keep-alive, or lies so far back that it
compares as one from the future. -/
def TcpSession.Overlooks (s : TcpSession) (a : UInt32) : Prop :=
  Lt s.acked a ∧ Le a s.localSeq ∧
    (a + 1 = s.localSeq ∨ (ahead a s.localSeq = 2 ^ 31 - 1 ∧ a < s.localSeq))

/-- The number is not new and is taken: it is `local_seq`, which `acked` has passed, or lies so
far behind `acked` that it compares as new. -/
def TcpSession.FallsBack (s : TcpSession) (a : UInt32) : Prop :=
  Le a s.acked ∧ ((a = s.localSeq ∧ s.acked ≠ s.localSeq) ∨
    (a ≠ s.localSeq ∧ a + 1 ≠ s.localSeq ∧ compareU32 a s.localSeq < 0 ∧
      ahead a s.acked = 2 ^ 31 - 1 ∧ a < s.acked))

/-- The branches of `handle_tcp` for such an ACK, by `acked` and `local_seq` before it. -/
inductive AckHandled (acked localSeq a : UInt32) (c : Conn) : Prop
  | all (hall : a = localSeq) (hacked : c.tcp.acked = a)
  | keepAlive (hnot : a ≠ localSeq) (hprobe : a + 1 = localSeq) (hacked : c.tcp.acked = acked)
  | repeated (hnot : a ≠ localSeq) (hprobe : a + 1 ≠ localSeq) (hbefore : compareU32 a localSeq < 0)
      (hold : compareU32 a acked ≤ 0) (hacked : c.tcp.acked = acked)
  | previous (hnot : a ≠ localSeq) (hprobe : a + 1 ≠ localSeq) (hbefore : compareU32 a localSeq < 0)
      (hnew : 0 < compareU32 a acked) (hacked : c.tcp.acked = a)
  | future (hnot : a ≠ localSeq) (hprobe : a + 1 ≠ localSeq) (hafter : ¬ compareU32 a localSeq < 0)
      (hacked : c.tcp.acked = acked) (hover : c.tcp.state.Over)
      (hreset : ∃ packet, c.out.Resets packet)

theorem writeRst_resets (env : Env) (c : Conn) : ∃ packet, (writeRst env c).out.Resets packet := by
  obtain ⟨cur, written, hout, -⟩ := writeRst_tun env c
  exact ⟨.tcp cur [] false (c.tcp.state == .listen) false true, written, by simp [hout],
    (TunPacket.tcphdr_flags ..).2⟩

theorem handleFlags_ack (hbare : p.BareAck payload) {c : Conn}
    (hstate : c.tcp.state = .established ∨ c.tcp.state = .closeWait) :
    AckHandled c.tcp.acked c.tcp.localSeq (p.tcphdr payload).ackSeq
      (handleFlags env (p.tcphdr payload) c) := by
  by_cases hall : (p.tcphdr payload).ackSeq = c.tcp.localSeq
  · refine .all hall ?_
    simp only [handleFlags, hbare.ack, hbare.syn, hbare.fin, hbare.rst, hall, handleAck]
    rcases hstate with hstate | hstate <;> simp [hstate]
  · have hflags : handleFlags env (p.tcphdr payload) c = handleOtherAck env (p.tcphdr payload) c := by
      simp [handleFlags, hbare.ack, hbare.rst, hall]
    rw [hflags, handleOtherAck]
    by_cases hprobe : (p.tcphdr payload).ackSeq + 1 = c.tcp.localSeq
    · exact .keepAlive hall hprobe (by rw [if_pos hprobe])
    rw [if_neg hprobe]
    by_cases hbefore : compareU32 (p.tcphdr payload).ackSeq c.tcp.localSeq < 0
    · rw [if_pos hbefore]
      by_cases hold : compareU32 (p.tcphdr payload).ackSeq c.tcp.acked ≤ 0
      · exact .repeated hall hprobe hbefore hold (by rw [if_pos hold])
      · exact .previous hall hprobe hbefore (Int.not_le.mp hold) (by rw [if_neg hold])
    · rw [if_neg hbefore]
      exact .future hall hprobe hbefore (writeRst_kept env c).2 (writeRst_over env c)
        (writeRst_resets env c)

theorem tcpHandled_ack (hbare : p.BareAck payload)
    (hstate : s.state = .established ∨ s.state = .closeWait) :
    AckHandled s.acked s.localSeq (p.tcphdr payload).ackSeq
      (tcpHandled env p payload uid true ctx s sock events) := by
  have hopen : ¬ s.state.Over := by
    rcases hstate with hstate | hstate <;> simp [hstate, TcpState.Over]
  obtain ⟨uid', time, window, hhandled⟩ := handleSegment_open (env.after ctx.out)
    (p.tcphdr payload) (p.payloadFrom (p.tcpData payload)) uid (c := ⟨s, sock, events, []⟩) hopen
  rw [tcpHandled, hhandled, if_pos hbare.data]
  exact handleFlags_ack hbare (c := Conn.touched ⟨s, sock, events, []⟩ uid' time window) hstate

theorem compareU32_of_lt {a b : UInt32} (h : Lt a b) : 0 < compareU32 b a :=
  compareU32_after h.ahead_gt

/-- The one distance at which `compare_u32` takes an earlier number for a later one. -/
theorem compareU32_far {a b : UInt32} (hne : a ≠ b) (hle : Le a b) :
    ¬ compareU32 a b < 0 ↔ ahead a b = 2 ^ 31 - 1 ∧ a < b := by
  have hvalue : a.toNat ≠ b.toNat := fun h => hne (UInt32.toNat_inj.mp h)
  rw [compareU32_neg_iff, UInt32.lt_iff_toNat_lt]
  simp only [Le] at hle
  simp only [hne, ne_eq, not_false_eq_true, true_and]
  omega

/-- The exact kinds of numbers that `handle_tcp` does not track. -/
theorem AckHandled.tracked_iff {s : TcpSession} {a : UInt32} {c : Conn}
    (h : AckHandled s.acked s.localSeq a c) :
    AckTracked s a c.tcp c.out ↔ ¬ s.Overlooks a ∧ ¬ s.FallsBack a := by
  cases h with
  | all hall hacked =>
    constructor
    · intro htracked
      constructor
      · rintro ⟨-, -, hprobe | ⟨hfar, -⟩⟩
        · simp [hall] at hprobe
        · simp [hall] at hfar
      · rintro ⟨hle, ⟨-, hne⟩ | ⟨hnot, -⟩⟩
        · exact hne (((htracked.keeps hle).symm.trans hacked).trans hall)
        · exact hnot hall
    · rintro ⟨-, hkept⟩
      refine ⟨fun _ _ => hacked, ?_, ?_⟩
      · intro hle
        by_contra hne
        exact hkept ⟨hle, .inl ⟨hall, fun h => hne (hacked.trans (hall.trans h.symm))⟩⟩
      · intro hlt
        exact absurd hall.symm hlt.ne
  | keepAlive hnot hprobe hacked =>
    have hnext : ahead a s.localSeq = 1 := by
      rw [← hprobe, ahead, UInt32.add_comm, UInt32.add_sub_cancel]
      rfl
    constructor
    · intro htracked
      constructor
      · rintro ⟨hlt, hle, -⟩
        exact hlt.ne (hacked.symm.trans (htracked.advances hlt hle))
      · rintro ⟨-, ⟨hall, -⟩ | ⟨-, hother, -⟩⟩
        · exact hnot hall
        · exact hother hprobe
    · rintro ⟨htaken, -⟩
      refine ⟨fun hlt hle => absurd ⟨hlt, hle, .inl hprobe⟩ htaken, fun _ => hacked, ?_⟩
      intro hlt
      have hfar := hlt.ahead_gt
      omega
  | repeated hnot hprobe hbefore hold hacked =>
    have hnew : ¬ Lt s.acked a := fun hlt => absurd (compareU32_of_lt hlt) hold.not_gt
    refine iff_of_true ⟨fun hlt => absurd hlt hnew, fun _ => hacked, ?_⟩
      ⟨fun hoverlooks => hnew hoverlooks.1, ?_⟩
    · intro hlt
      exact absurd hbefore (compareU32_of_lt hlt).not_gt
    · rintro ⟨hle, ⟨hall, -⟩ | ⟨-, -, -, hfar⟩⟩
      · exact hnot hall
      · have hne : a ≠ s.acked := by
          rintro rfl
          exact absurd hfar.1 (by simp)
        have hafter := compareU32_pos_iff.mpr ⟨hne, (compareU32_far hne hle).mpr hfar⟩
        exact absurd hafter hold.not_gt
  | previous hnot hprobe hbefore hnew hacked =>
    obtain ⟨hne, hafter⟩ := compareU32_pos_iff.mp hnew
    constructor
    · intro htracked
      constructor
      · rintro ⟨-, hle, hnext | hfar⟩
        · exact hprobe hnext
        · exact (compareU32_far hnot hle).mpr hfar hbefore
      · rintro ⟨hle, -⟩
        exact hne (hacked.symm.trans (htracked.keeps hle))
    · rintro ⟨-, hkept⟩
      refine ⟨fun _ _ => hacked, ?_, ?_⟩
      · intro hle
        exact absurd ⟨hle, .inr ⟨hnot, hprobe, hbefore, (compareU32_far hne hle).mp hafter⟩⟩ hkept
      · intro hlt
        exact absurd hbefore (compareU32_of_lt hlt).not_gt
  | future hnot hprobe hafter hacked hover hreset =>
    constructor
    · intro htracked
      constructor
      · rintro ⟨hlt, hle, -⟩
        exact hlt.ne (hacked.symm.trans (htracked.advances hlt hle))
      · rintro ⟨-, ⟨hall, -⟩ | ⟨-, -, hbefore, -⟩⟩
        · exact hnot hall
        · exact hafter hbefore
    · rintro ⟨htaken, -⟩
      refine ⟨?_, fun _ => hacked, fun _ => ⟨hover, hreset⟩⟩
      intro hlt hle
      exact absurd ⟨hlt, hle, .inr ((compareU32_far hnot hle).mp hafter)⟩ htaken

/-- The session after such an ACK and the packets written for it are those of `tcpHandled`. -/
theorem handleTcp_tracked_iff (hurg : (p.tcphdr payload).urg = false)
    (hs : ctx.tcpSession (p.flow payload version) = some (.tcp s sock events)) (a : UInt32) :
    (∃ t sock' events', (handleTcp env args p version payload uid true ctx).tcpSession
        (p.flow payload version) = some (.tcp t sock' events') ∧
      AckTracked s a t (tcpWritten env args p version payload uid true ctx)) ↔
    AckTracked s a (tcpHandled env p payload uid true ctx s sock events).tcp
      (tcpHandled env p payload uid true ctx s sock events).out := by
  rw [(handleTcp_found hurg hs).2, tcpWritten_found hurg hs]
  constructor
  · rintro ⟨t, sock', events', ht, htracked⟩
    obtain ⟨rfl, -⟩ := NgSession.tcp.inj (Option.some.inj ht)
    exact htracked
  · intro htracked
    exact ⟨_, _, _, rfl, htracked⟩

/-- `acked` follows the highest acknowledgement, except for the numbers that are overlooked or
fallen back to. -/
theorem ack_tracked_iff (hbare : p.BareAck payload)
    (hs : ctx.tcpSession (p.flow payload version) = some (.tcp s sock events))
    (hstate : s.state = .established ∨ s.state = .closeWait) :
    (∃ t sock' events', (handleTcp env args p version payload uid true ctx).tcpSession
        (p.flow payload version) = some (.tcp t sock' events') ∧
      AckTracked s (p.tcphdr payload).ackSeq t
        (tcpWritten env args p version payload uid true ctx)) ↔
    ¬ s.Overlooks (p.tcphdr payload).ackSeq ∧ ¬ s.FallsBack (p.tcphdr payload).ackSeq :=
  (handleTcp_tracked_iff hbare.urg hs _).trans (tcpHandled_ack hbare hstate).tracked_iff

def Packet.sampleAck (n : UInt8) : Packet :=
  .sample 6 [156, 64, 0, 80, 0, 0, 0, 101, 0, 0, 0, n, 0x50, 16, 3, 232, 0, 0, 0, 0]

/-- A connection over which the server sends two bytes. -/
def twoBytesRun : List (Env × LoopEvent) :=
  [(.calm, .tun .sampleSyn), (.calm, .socket 0 ⟨false, true, false⟩), (.calm, .tun (.sampleAck 1)),
    (Env.calm.byte 7, .socket 0 ⟨true, false, false⟩),
    (Env.calm.byte 7, .socket 0 ⟨true, false, false⟩)]

def Context.sampleTwoBytes : Context := ⟨((EventLoop.init .direct).run twoBytesRun).ngSession, []⟩

theorem sampleTwoBytes_session : ∃ (s : TcpSession) (events : Events),
    Context.sampleTwoBytes.tcpSession (Packet.sampleSyn.flow 20 .v4) = some (.tcp s 7 events) ∧
    s.state = .established ∧ s.acked = 1 ∧ s.localSeq = 3 := by
  refine ⟨_, _, by with_unfolding_all rfl, ?_⟩
  exact ⟨rfl, rfl, rfl⟩

theorem sampleAck_flow : (Packet.sampleAck 2).flow 20 .v4 = Packet.sampleSyn.flow 20 .v4 ∧
    (Packet.sampleAck 3).flow 20 .v4 = Packet.sampleSyn.flow 20 .v4 := by
  decide

theorem sampleAck_ackSeq : ((Packet.sampleAck 2).tcphdr 20).ackSeq = 2 ∧
    ((Packet.sampleAck 3).tcphdr 20).ackSeq = 3 :=
  ⟨rfl, rfl⟩

/-- The acknowledgement of both bytes is taken. -/
theorem ack_tracked_sample : ∃ s t : TcpSession, ∃ sock events,
    (handleTcp .calm .direct (.sampleAck 3) .v4 20 1000 true .sampleTwoBytes).tcpSession
      ((Packet.sampleAck 3).flow 20 .v4) = some (.tcp t sock events) ∧
    AckTracked s ((Packet.sampleAck 3).tcphdr 20).ackSeq t
      (tcpWritten .calm .direct (.sampleAck 3) .v4 20 1000 true .sampleTwoBytes) := by
  obtain ⟨s, events, hs, hstate, hacked, hlocal⟩ := sampleTwoBytes_session
  rw [← sampleAck_flow.2] at hs
  have hbare : (Packet.sampleAck 3).BareAck 20 := by constructor <;> rfl
  have htaken : ¬ s.Overlooks 3 ∧ ¬ s.FallsBack 3 := by
    rw [TcpSession.Overlooks, TcpSession.FallsBack, hacked, hlocal]
    decide
  rw [← sampleAck_ackSeq.2] at htaken
  exact ⟨s, (ack_tracked_iff hbare hs (.inl hstate)).mpr htaken⟩

/-- Of two bytes under way, the acknowledgement of the first is overlooked. -/
theorem not_ack_tracked :
    ¬ ∀ (args : Arguments) (es : List (Env × LoopEvent)) (env : Env) (p : Packet)
      (version : IpVersion) (payload : Nat) (uid : Int) (s : TcpSession) (sock : Int)
      (events : Events),
      p.BareAck payload →
      Context.tcpSession ⟨((EventLoop.init args).run es).ngSession, []⟩ (p.flow payload version) =
        some (.tcp s sock events) →
      s.state = .established ∨ s.state = .closeWait →
      ∃ t sock' events', (handleTcp env args p version payload uid true
          ⟨((EventLoop.init args).run es).ngSession, []⟩).tcpSession (p.flow payload version) =
            some (.tcp t sock' events') ∧
        AckTracked s (p.tcphdr payload).ackSeq t
          (tcpWritten env args p version payload uid true
            ⟨((EventLoop.init args).run es).ngSession, []⟩) := by
  intro h
  obtain ⟨s, events, hs, hstate, hacked, hlocal⟩ := sampleTwoBytes_session
  rw [← sampleAck_flow.1] at hs
  have hbare : (Packet.sampleAck 2).BareAck 20 := by constructor <;> rfl
  have htracked := (handleTcp_tracked_iff hbare.urg hs _).mp
    (h .direct twoBytesRun .calm (.sampleAck 2) .v4 20 1000 s 7 events hbare hs (.inl hstate))
  have htaken := ((tcpHandled_ack hbare (.inl hstate)).tracked_iff.mp htracked).1
  rw [sampleAck_ackSeq.1, TcpSession.Overlooks, hacked, hlocal] at htaken
  exact htaken (by decide)

end Ack

end NetGuard.Engine
