import NetGuard.Bounds.Options
import NetGuard.Tun.Tcp

/-! # The options of a SYN-ACK and of a SYN

The decoder of `handle_tcp` reads the MSS in network order, and `write_tcp` stores it in the
order of the host: what it decodes is the default with its bytes swapped. The scale of a SYN is
stored as it was announced.
-/
namespace NetGuard.Engine

section SynAck
variable {cur : TcpSession}

/-- What `handle_tcp` would take from the options of the SYN-ACK of a session. -/
def TcpSession.decodedOptions (cur : TcpSession) : Option (UInt16 × UInt8) :=
  let p := Packet.ofBytes (TunPacket.tcp cur [] true true false false).buffer
  let payload := ipHeaderLength cur.version
  parseOptions p (payload + 20) (p.tcphdr payload).tcpoptlen.toNat (getDefaultMss cur.version) 0

/-- The default MSS with its bytes swapped. -/
def decodedMss : IpVersion → UInt16
  | .v4 => 59430
  | .v6 => 54310

theorem decodedMss_ne (version : IpVersion) : decodedMss version ≠ getDefaultMss version := by
  cases version <;> decide

theorem tcpOptions_listed (cur : TcpSession) : OptionsListed (tcpOptions cur true)
    [.mss (decodedMss cur.version), .windowScale cur.recvScale] := by
  refine .inr ⟨[], ?_⟩
  have hswapped : hostWord (getDefaultMss cur.version) = htons (decodedMss cur.version) := by
    cases cur.version <;> decide
  rw [tcpOptions, if_pos rfl, hswapped]
  rfl

theorem decodedOptions_eq (h : cur.toEndpoints.Sized) :
    cur.decodedOptions = some (decodedMss cur.version, cur.recvScale) := by
  have hpayload := (TunPacket.at_buffer (.tcp cur [] true true false false) h).2
  have hdoff := doff_tcp [] true true false false h
  simp only [TunPacket.ends, TunPacket.payload, tcpSegment, Wire.at_append, length_tcpHeaderWith]
    at hpayload
  rw [TcpSession.decodedOptions]
  generalize Packet.ofBytes (TunPacket.tcp cur [] true true false false).buffer = p at hpayload hdoff ⊢
  have harea := Packet.slice_of_at hpayload.2.1
  rw [length_tcpOptions, if_pos rfl] at harea hdoff
  have hlen : (p.tcphdr (ipHeaderLength cur.version)).tcpoptlen.toNat = 4 + 3 + 1 := by
    rw [tcpoptlen_eq (by omega), TcpHdr.optionArea]
    omega
  rw [hlen, parseOptions_listed (harea ▸ tcpOptions_listed cur)]
  rfl

end SynAck

section Syn
variable {env : Env} {args : Arguments} {p : Packet} {version : IpVersion} {payload : Nat}
  {uid : Int} {allowed : Bool} {ctx : Context} {s : TcpSession} {sock : Int} {events : Events}

/-- A session that `handle_tcp` adds stores the scale that the option loop has found. -/
theorem stored_scale
    (hstored : (handleTcp env args p version payload uid allowed ctx).ngSession =
      .tcp s sock events :: ctx.ngSession) :
    ∃ mss ws, parseOptions p (payload + 20) (p.tcphdr payload).tcpoptlen.toNat
        (getDefaultMss version) 0 = some (mss, ws) ∧ s.sendScale = ws ∧ s.recvScale = ws := by
  have hgrown : (handleTcp env args p version payload uid allowed ctx).ngSession.length =
      ctx.ngSession.length + 1 := congrArg List.length hstored
  have hhandled : TcpHandled env args p version payload uid allowed ctx
    (handleTcp env args p version payload uid allowed ctx) := handleTcp_handled ..
  generalize handleTcp env args p version payload uid allowed ctx = ctx' at *
  cases hhandled with
  | urgent => exact absurd hgrown (by simp)
  | found hurg hlist => exact absurd hgrown (by simp [hlist])
  | endless => exact absurd hgrown (by simp [Context.emit])
  | unknown => exact absurd hgrown (by simp)
  | @syn mss ws opened out hurg hnone hsyn hoptions hopened =>
    cases opened with
    | none => exact absurd hgrown (by simp)
    | some c =>
      refine ⟨mss, ws, hoptions, ?_⟩
      obtain ⟨-, window, ok, d, hd, hc, -⟩ := newTcpSession_some hopened
      obtain rfl : c.tcp = s := (NgSession.tcp.inj (List.cons.inj hstored).1).1
      rw [hc, hd]
      split
      · exact ⟨rfl, rfl⟩
      · simp [writeRst_eq, synSession]

/-- A window shifted by a scale of at most 14 loses nothing. -/
theorem scaled_toNat {scale : UInt8} (h : scale.toNat ≤ 14) (window : UInt16) :
    (window.toUInt32 <<< scale.toUInt32).toNat = window.toNat * 2 ^ scale.toNat := by
  have hwindow := window.toNat_lt
  have hpow : 2 ^ scale.toNat ≤ 2 ^ 14 := Nat.pow_le_pow_right (by decide) h
  have hprod : window.toNat * 2 ^ scale.toNat ≤ window.toNat * 2 ^ 14 := Nat.mul_le_mul_left _ hpow
  rw [UInt32.toNat_shiftLeft, UInt16.toNat_toUInt32, UInt8.toNat_toUInt32, Nat.shiftLeft_eq,
    Nat.mod_eq_of_lt (show scale.toNat < 32 by omega), Nat.mod_eq_of_lt (by omega)]

end Syn

section Run

/-- No SYN-ACK of a session decodes to the default MSS, only its scale decodes; and the scale of
a SYN is stored within the limit where it was announced within the limit. -/
theorem EventLoop.synAck_options (args : Arguments) (es : List (Env × LoopEvent)) :
    (∀ cur sock events, .tcp cur sock events ∈ ((EventLoop.init args).run es).ngSession →
      cur.decodedOptions ≠ some (getDefaultMss cur.version, cur.recvScale) ∧
        cur.decodedOptions = some (decodedMss cur.version, cur.recvScale)) ∧
    ∀ env p version payload uid allowed ctx s sock events,
      (handleTcp env args p version payload uid allowed ctx).ngSession =
        .tcp s sock events :: ctx.ngSession →
      ∃ mss ws, parseOptions p (payload + 20) (p.tcphdr payload).tcpoptlen.toNat
          (getDefaultMss version) 0 = some (mss, ws) ∧
        (s.sendScale.toNat ≤ 14 ∧ s.recvScale.toNat ≤ 14 ↔ ws.toNat ≤ 14) ∧
        (ws.toNat ≤ 14 → ∀ window : UInt16,
          (window.toUInt32 <<< s.sendScale.toUInt32).toNat = window.toNat * 2 ^ ws.toNat) ∧
        ∀ opts, 5 ≤ (p.tcphdr payload).doff.toNat →
          OptionsListed (p.slice (payload + 20) (p.tcphdr payload).optionArea) opts →
          ws = lastAnnounced TcpOption.windowScale? 0 opts := by
  constructor
  · intro cur sock events hmem
    have hdecoded := decodedOptions_eq ((EventLoop.run_sizes args es).list _ hmem).sized
    refine ⟨?_, hdecoded⟩
    rw [hdecoded]
    intro heq
    exact decodedMss_ne cur.version (Prod.mk.inj (Option.some.inj heq)).1
  · intro env p version payload uid allowed ctx s sock events hstored
    obtain ⟨mss, ws, hoptions, hsend, hrecv⟩ := stored_scale hstored
    refine ⟨mss, ws, hoptions, ?_, ?_, ?_⟩
    · rw [hsend, hrecv, and_self]
    · intro hws window
      rw [hsend]
      exact scaled_toNat hws window
    · intro opts hdoff hlisted
      rw [tcpoptlen_eq hdoff, parseOptions_listed hlisted] at hoptions
      exact (Prod.mk.inj (Option.some.inj hoptions)).2.symm

/-- A SYN that announces a scale of 255. -/
def Packet.wideSyn : Packet :=
  .sample 6 [156, 64, 0, 80, 0, 0, 0, 100, 0, 0, 0, 0, 0x60, 2, 3, 232, 0, 0, 0, 0, 3, 3, 255, 0]

theorem wideSyn_session : ∃ s : TcpSession,
    ((EventLoop.init .direct).run [(.calm, .tun .wideSyn)]).ngSession =
      [.tcp s 7 ⟨false, true, true⟩] ∧ s.version = .v4 ∧ s.recvScale = 255 := by
  refine ⟨_, by with_unfolding_all rfl, ?_⟩
  exact ⟨rfl, rfl⟩

theorem wideSyn_stored : ∃ s : TcpSession,
    (handleTcp .calm .direct .wideSyn .v4 20 1000 true ⟨[], []⟩).ngSession =
      [.tcp s 7 ⟨false, true, true⟩] ∧ s.sendScale = 255 := by
  refine ⟨_, by with_unfolding_all rfl, ?_⟩
  rfl

theorem EventLoop.synAck_options_sample :
    (∃ cur : TcpSession, .tcp cur 7 ⟨false, true, true⟩ ∈
        ((EventLoop.init .direct).run [(.calm, .tun .wideSyn)]).ngSession ∧
      cur.decodedOptions = some (59430, 255)) ∧
    ∃ s mss ws, (handleTcp .calm .direct .wideSyn .v4 20 1000 true ⟨[], []⟩).ngSession =
        [.tcp s 7 ⟨false, true, true⟩] ∧
      parseOptions .wideSyn 40 4 9960 0 = some (mss, ws) ∧
      (s.sendScale.toNat ≤ 14 ∧ s.recvScale.toNat ≤ 14 ↔ ws.toNat ≤ 14) := by
  obtain ⟨hdecoded, hstored⟩ :=
    EventLoop.synAck_options .direct [(.calm, .tun .wideSyn)]
  constructor
  · obtain ⟨cur, hlist, hversion, hscale⟩ := wideSyn_session
    have hmem : .tcp cur 7 ⟨false, true, true⟩ ∈
        ((EventLoop.init .direct).run [(.calm, .tun .wideSyn)]).ngSession := by simp [hlist]
    refine ⟨cur, hmem, ?_⟩
    rw [(hdecoded _ _ _ hmem).2, hversion, hscale]
    rfl
  · obtain ⟨s, hlist, -⟩ := wideSyn_stored
    obtain ⟨mss, ws, hoptions, hiff, -⟩ := hstored _ _ _ _ _ _ _ _ _ _ hlist
    exact ⟨s, mss, ws, hlist, hoptions, hiff⟩

/-- The SYN-ACK to that SYN announces 59430 for 9960, and the scale that is stored is 255. -/
theorem EventLoop.not_synAck_options :
    (¬ ∀ (args : Arguments) (es : List (Env × LoopEvent)) (cur : TcpSession) (sock : Int)
      (events : Events), .tcp cur sock events ∈ ((EventLoop.init args).run es).ngSession →
        cur.decodedOptions = some (getDefaultMss cur.version, cur.recvScale)) ∧
    ¬ ∀ (env : Env) (args : Arguments) (p : Packet) (version : IpVersion) (payload : Nat)
      (uid : Int) (allowed : Bool) (ctx : Context) (s : TcpSession) (sock : Int) (events : Events),
      (handleTcp env args p version payload uid allowed ctx).ngSession =
        .tcp s sock events :: ctx.ngSession → s.sendScale.toNat ≤ 14 := by
  constructor
  · intro h
    obtain ⟨cur, hlist, hversion, hscale⟩ := wideSyn_session
    have hmem : .tcp cur 7 ⟨false, true, true⟩ ∈
        ((EventLoop.init .direct).run [(.calm, .tun .wideSyn)]).ngSession := by simp [hlist]
    have hsized := ((EventLoop.run_sizes .direct _).list _ hmem).sized
    have hdecoded := h _ _ _ _ _ hmem
    rw [decodedOptions_eq hsized] at hdecoded
    exact decodedMss_ne cur.version (Prod.mk.inj (Option.some.inj hdecoded)).1
  · intro h
    obtain ⟨s, hlist, hscale⟩ := wideSyn_stored
    have hle := h _ _ _ _ _ _ _ _ _ _ _ hlist
    rw [hscale] at hle
    exact absurd hle (by decide)

end Run

end NetGuard.Engine
