import NetGuard.Tcp.States

/-! # After a reset

A session that is over sends nothing more, unless its socket is reported writable while data
is still queued. A proxy whose answer cannot be read is told the next message after the reset.
-/
namespace NetGuard.Engine
open Run (Timed)

def Output.isSend : Output → Bool
  | .send _ _ _ _ | .socksSend _ _ _ => true
  | _ => false

/-- A reset of the app's side, or a segment the tun did not take: both end the session. -/
def Output.isReset : Output → Bool
  | .tun (.tcp _ _ _ _ _ rst) written => rst || !written
  | _ => false

section Output
variable {a : Cause} {o : Output}

theorem Output.isSend_of_permitted (h : o.Permitted False a) (ha : a ≠ .writable) :
    o.isSend = false := by
  cases o with
  | send => exact absurd h ha
  | socksSend => exact h.elim
  | _ => rfl

theorem Output.isReset_of_quiet (h : o.quiet = true) : o.isReset = false := by
  cases o with
  | tun => exact absurd h Bool.false_ne_true
  | _ => rfl

theorem Output.silent_of_opening (h : o.opening = true) : o.isReset = false ∧ o.isSend = false := by
  cases o with
  | tun | send | socksSend => exact absurd h Bool.false_ne_true
  | _ => exact ⟨rfl, rfl⟩

end Output

section Muted

/-- Nothing is sent between the two, and a reset between them ends the session. -/
structure Conn.Muted (c d : Conn) : Prop where
  ended : c.tcp.state.Over → d.tcp.state.Over
  out : ∃ os, d.out = c.out ++ os ∧ (∀ o ∈ os, o.isSend = false) ∧
    ((∃ o ∈ os, o.isReset = true) → d.tcp.state.Over)

variable {dial : Prop} {a : Cause} {c d e : Conn} {s t : Stage}

theorem Conn.Muted.refl : c.Muted c := ⟨id, [], by simp, by simp, by simp⟩

theorem Conn.Muted.trans (h : c.Muted d) (h' : d.Muted e) : c.Muted e := by
  obtain ⟨os, hout, hos, hreset⟩ := h.out
  obtain ⟨os', hout', hos', hreset'⟩ := h'.out
  refine ⟨h'.ended ∘ h.ended, os ++ os', by rw [hout', hout, List.append_assoc], ?_, ?_⟩
  · intro o ho
    rcases List.mem_append.mp ho with ho | ho
    · exact hos o ho
    · exact hos' o ho
  · rintro ⟨o, ho, hcut⟩
    rcases List.mem_append.mp ho with ho | ho
    · exact h'.ended (hreset ⟨o, ho, hcut⟩)
    · exact hreset' ⟨o, ho, hcut⟩

theorem Act.muted (h : Act False a s t) (ha : a ≠ .writable) : s.conn.Muted t.conn := by
  have hover : s.conn.tcp.state.Over → t.conn.tcp.state.Over := by
    have hmove : Move a s t := h.mono False.elim
    exact hmove.edges.over
  have hsame (hout : t.conn.out = s.conn.out) : s.conn.Muted t.conn :=
    ⟨hover, [], by simp [hout], by simp, by simp⟩
  have hwrote {packet : TunPacket} {written : Bool}
      (hout : t.conn.out = s.conn.out ++ [.tun packet written])
      (hreset : Output.isReset (.tun packet written) = true → t.conn.tcp.state.Over) :
      s.conn.Muted t.conn := by
    refine ⟨hover, _, hout, by simp [Output.isSend], ?_⟩
    rintro ⟨o, ho, hcut⟩
    rw [List.mem_singleton.mp ho] at hcut
    exact hreset hcut
  have hacked {cur : TcpSession} {data : List UInt8} {fin written : Bool} {state : TcpState}
      (hout : t.conn.out = s.conn.out ++ [.tun (.tcp cur data false true fin false) written])
      (hstate : t.conn.tcp.state = if written then state else .closing) :
      s.conn.Muted t.conn := by
    apply hwrote hout
    intro hcut
    obtain rfl : written = false := by simpa [Output.isReset] using hcut
    exact .inl hstate
  cases h with
  | tidy => exact hsame rfl
  | quiet o ho hpermitted =>
    refine ⟨hover, [o], rfl, by simp [Output.isSend_of_permitted hpermitted ha], ?_⟩
    rintro ⟨o', ho', hcut⟩
    rw [List.mem_singleton.mp ho', Output.isReset_of_quiet ho] at hcut
    exact absurd hcut Bool.false_ne_true
  | window => exact hsame rfl
  | queue => exact hsame rfl
  | abort => exact hsame rfl
  | @reset c fwd written =>
    apply hwrote (by rw [Conn.wrote_out, countSyn_out])
    intro _
    by_cases hclose : c.tcp.state = .close
    · exact .inr (by simp [hclose])
    · exact .inl (by simp [hclose])
  | countFin => exact hacked rfl rfl
  | holdFin => exact hsame rfl
  | lastFin => exact hacked rfl rfl
  | ackAll => exact hsame rfl
  | ackSome => exact hsame rfl
  | synAck _ _ _ _ hdial => exact hdial.elim
  | send hwritable => exact absurd hwritable ha
  | confirmFin => exact hacked rfl rfl
  | ack => exact hacked rfl rfl
  | keepAlive => exact hacked rfl rfl
  | @data c fwd _ hstate bytes hbytes hsize dns hdns written haside =>
    refine ⟨hover, .recv c.socket bytes :: dns ++ [_], by simp; rfl, ?_, ?_⟩
    · intro o ho
      simp only [List.mem_append, List.mem_cons, List.not_mem_nil, or_false] at ho
      rcases ho with (rfl | ho) | rfl
      · rfl
      · obtain ⟨u, rfl⟩ := haside o ho
        rfl
      · rfl
    · rintro ⟨o, ho, hcut⟩
      simp only [List.mem_append, List.mem_cons, List.not_mem_nil, or_false] at ho
      rcases ho with (rfl | ho) | rfl
      · simp [Output.isReset] at hcut
      · obtain ⟨u, rfl⟩ := haside o ho
        simp [Output.isReset] at hcut
      · cases written <;> simp_all [Output.isReset, TcpState.Over]
  | @fin c fwd _ hstate hforward written state hnext =>
    refine ⟨hover, [_, _], by simp; exact ⟨rfl, rfl⟩, by simp [Output.isSend], ?_⟩
    rintro ⟨o, ho, hcut⟩
    rcases hnext with ⟨-, rfl⟩ | ⟨rfl, -, -⟩ | ⟨rfl, -, -⟩
    · exact .inl rfl
    · simp at ho
      rcases ho with rfl | rfl <;> simp [Output.isReset] at hcut
    · simp at ho
      rcases ho with rfl | rfl <;> simp [Output.isReset] at hcut
  | @close c fwd _ hstate =>
    exact ⟨hover, [.close c.socket], rfl, by simp [Output.isSend], by simp [Output.isReset]⟩
  | closed => exact hsame rfl

theorem Acts.muted (h : Acts False a s t) (ha : a ≠ .writable) : s.conn.Muted t.conn := by
  induction h with
  | refl => exact .refl
  | tail _ hlast ih => exact ih.trans (hlast.muted ha)

theorem writeRst_muted (env : Env) (c : Conn) : c.Muted (writeRst env c) := by
  have hacts : Acts False .other ⟨c, false⟩ ⟨writeRst env c, false⟩ := Acts.writeRst
  exact hacts.muted nofun

end Muted

section Silent
variable {env : Env} {args : Arguments} {pre : Trace} {c d : Conn} {ev : Events}

/-- What came before and the session's own calls: no send follows a reset, and a reset means
that the session is over. -/
structure Silent (pre : Trace) (c : Conn) : Prop where
  ended : (∃ o ∈ pre ++ c.out, o.isReset = true) → c.tcp.state.Over
  sends : Timed (fun before o => o.isSend = true → ∀ b ∈ before, b.isReset = false)
    (pre ++ c.out)

theorem Silent.muted (h : Silent pre c) (hmuted : c.Muted d) : Silent pre d := by
  obtain ⟨os, hout, hos, hreset⟩ := hmuted.out
  have hlonger : pre ++ d.out = (pre ++ c.out) ++ os := by rw [hout, List.append_assoc]
  constructor
  · rw [hlonger]
    rintro ⟨o, ho, hcut⟩
    rcases List.mem_append.mp ho with ho | ho
    · exact hmuted.ended (h.ended ⟨o, ho, hcut⟩)
    · exact hreset ⟨o, ho, hcut⟩
  · rw [hlonger]
    apply h.sends.append
    intro o ho before hsend
    rw [hos o ho] at hsend
    exact absurd hsend Bool.false_ne_true

theorem Silent.fresh (h : Silent pre c) (hlive : ¬ c.tcp.state.Over) :
    ∀ o ∈ pre ++ c.out, o.isReset = false := by
  intro o ho
  by_contra hcut
  exact hlive (h.ended ⟨o, ho, by simpa using hcut⟩)

/-- A live session may send. -/
theorem Silent.send (h : Silent pre c) (hlive : ¬ c.tcp.state.Over) {o : Output}
    (hout : d.out = c.out ++ [o]) (hreset : o.isReset = false) : Silent pre d := by
  have hfresh := h.fresh hlive
  have hlonger : pre ++ d.out = (pre ++ c.out) ++ [o] := by rw [hout, List.append_assoc]
  constructor
  · rw [hlonger]
    rintro ⟨o', ho', hcut⟩
    rcases List.mem_append.mp ho' with ho' | ho'
    · rw [hfresh o' ho'] at hcut
      exact absurd hcut Bool.false_ne_true
    · rw [List.mem_singleton.mp ho', hreset] at hcut
      exact absurd hcut Bool.false_ne_true
  · rw [hlonger]
    exact h.sends.snoc fun _ => hfresh

theorem forwardLoop_silent (queue : List Segment) (bufferSize : UInt32) (fwd : Bool)
    (h : Silent pre c) (hlive : ¬ c.tcp.state.Over) :
    Silent pre (forwardLoop env queue c bufferSize fwd).1 := by
  induction queue generalizing c bufferSize fwd with
  | nil => exact ⟨h.ended, h.sends⟩
  | cons seg rest ih =>
    simp only [forwardLoop]
    split
    · split
      next => exact h.send hlive rfl rfl
      next =>
        apply Silent.muted _ (writeRst_muted env _)
        exact h.send hlive rfl rfl
      next n _ =>
        split
        · apply ih
          · exact h.send hlive rfl rfl
          · exact hlive
        · exact h.send hlive rfl rfl
    · exact ⟨h.ended, h.sends⟩

/-- No segment at the head of the queue fits into the buffer of the socket. -/
def Conn.Blocked (env : Env) (c : Conn) : Prop :=
  ∀ seg rest, c.tcp.forward = seg :: rest → seg.seq = c.tcp.remoteSeq →
    ¬ seg.unsent < getReceiveBuffer c.socket (env.sendBuf c.out) (env.unsent c.out)

theorem forwardData_muted (hblocked : ev.epollOut = true → c.Blocked env) :
    c.Muted (forwardData env ev c).1 := by
  unfold forwardData
  split
  next hout =>
    have hprobe : c.Muted (c.emit (.probe c.socket)) :=
      ⟨id, [_], rfl, by simp [Output.isSend], by simp [Output.isReset]⟩
    apply hprobe.trans
    simp only [probeBuffer]
    cases hforward : c.tcp.forward with
    | nil =>
      simp only [Conn.emit_tcp, hforward, forwardLoop]
      exact ⟨id, [], by simp, by simp, by simp⟩
    | cons seg rest =>
      have hidle : ¬ (seg.seq = (c.emit (.probe c.socket)).tcp.remoteSeq ∧
          seg.unsent < getReceiveBuffer c.socket (env.sendBuf c.out) (env.unsent c.out)) :=
        fun hfits => hblocked hout seg rest hforward hfits.1 hfits.2
      simp only [Conn.emit_tcp] at hidle
      simp only [Conn.emit_tcp, hforward, forwardLoop, if_neg hidle]
      exact ⟨id, [], by simp, by simp, by simp⟩
  next => exact .refl

theorem forwardData_silent (h : Silent pre c) (hlive : ¬ c.tcp.state.Over) :
    Silent pre (forwardData env ev c).1 := by
  unfold forwardData
  split
  · have hprobe : Silent pre (c.emit (.probe c.socket)) := h.send hlive rfl rfl
    exact forwardLoop_silent _ _ _ hprobe hlive
  · exact h

theorem checkOpen_muted (hlisten : c.tcp.state ≠ .listen) :
    (forwardData env ev c).1.Muted (checkOpen env args ev c) := by
  have hforwarded : (forwardData env ev c).1.tcp.state ≠ .listen := by
    have hacts : Acts False ev.cause ⟨c, false⟩ ⟨_, (forwardData env ev c).2⟩ :=
      Acts.forwardData hlisten
    exact Acts.not_listen hacts hlisten
  have hupdate : (forwardData env ev c).1.Muted
      (updateWindow env (forwardData env ev c).2 (forwardData env ev c).1) := by
    have hacts : Acts False .other ⟨(forwardData env ev c).1, (forwardData env ev c).2⟩
        ⟨updateWindow env (forwardData env ev c).2 (forwardData env ev c).1, false⟩ :=
      Acts.updateWindow hforwarded
    exact hacts.muted nofun
  apply hupdate.trans
  simp only [checkOpen]
  generalize updateWindow env (forwardData env ev c).2 (forwardData env ev c).1 = d
  split
  next hstate =>
    have hacts : Acts False .other ⟨d, false⟩ ⟨readSocket env args ev d, false⟩ :=
      Acts.readSocket hstate
    exact hacts.muted nofun
  next => exact .refl

end Silent

section Dialogue
variable {env : Env} {args : Arguments} {pre : Trace} {c d : Conn} {ev : Events}

theorem socksReply_muted (reply : List UInt8) :
    c.Muted (socksReply env reply (c.emit (.socksRecv c.socket reply))) ∧
      ((socksReply env reply (c.emit (.socksRecv c.socket reply))).tcp.state = c.tcp.state ∨
        (socksReply env reply (c.emit (.socksRecv c.socket reply))).tcp.socks5 = .failed) := by
  have hread (socks5 : Socks5) :
      c.Muted { c.emit (.socksRecv c.socket reply) with tcp.socks5 := socks5 } :=
    ⟨id, [_], rfl, by simp [Output.isSend], by simp [Output.isReset]⟩
  have hfailed : c.Muted (socksFailed env (c.emit (.socksRecv c.socket reply))) ∧
      ((socksFailed env (c.emit (.socksRecv c.socket reply))).tcp.state = c.tcp.state ∨
        (socksFailed env (c.emit (.socksRecv c.socket reply))).tcp.socks5 = .failed) :=
    ⟨(hread .failed).trans (writeRst_muted env _), .inr (by simp [socksFailed, writeRst_socks5])⟩
  simp only [socksReply]
  generalize 6 + (if (c.emit (.socksRecv c.socket reply)).tcp.version = .v4 then 4
    else 16) = size
  split
  · split
    · exact ⟨hread _, .inl rfl⟩
    split
    · exact ⟨hread _, .inl rfl⟩
    · exact hfailed
  split
  · split
    · exact ⟨hread _, .inl rfl⟩
    · exact hfailed
  split
  · split
    · exact ⟨hread _, .inl rfl⟩
    · exact hfailed
  · exact hfailed

theorem socksSend_silent (h : Silent pre c) (hlive : ¬ c.tcp.state.Over) (message : List UInt8) :
    Silent pre (socksSend env message c) := by
  unfold socksSend
  split
  · exact h.send hlive rfl rfl
  all_goals
    apply Silent.muted _ (writeRst_muted env _)
    exact h.send hlive rfl rfl

theorem confirmConnect_silent (h : Silent pre c) (hlive : ¬ c.tcp.state.Over) :
    Silent pre (confirmConnect env c) := by
  apply h.muted
  cases hw : env.tunWrite c.out with
  | false =>
    rw [confirmConnect_refused hw]
    exact ⟨fun _ => .inl rfl, [_], rfl, by simp [Output.isSend], fun _ => .inl rfl⟩
  | true =>
    simp only [confirmConnect, writeSynAck, writeOrClose_eq, hw, if_true]
    exact ⟨fun hover => absurd hover hlive, [_], rfl, by simp [Output.isSend],
      by simp [Output.isReset]⟩

theorem socksNext_silent (h : Silent pre c) (hlisten : c.tcp.state = .listen ∨
    c.tcp.socks5 = .failed) : Silent pre (socksNext env args c) := by
  have hlive (hsocks : c.tcp.socks5 ≠ .failed) : ¬ c.tcp.state.Over := by
    rw [hlisten.resolve_right hsocks]
    rintro (hover | hover) <;> cases hover
  cases hsocks : c.tcp.socks5 with
  | connected =>
    simp only [socksNext, hsocks]
    exact confirmConnect_silent h (hlive (by simp [hsocks]))
  | hello | auth | connect =>
    simp only [socksNext, hsocks]
    exact socksSend_silent h (hlive (by simp [hsocks])) _
  | failed | none =>
    simp only [socksNext, hsocks]
    exact h

/-- The answer of the proxy can be read, if one is awaited. -/
def Conn.Answered (env : Env) (c : Conn) : Prop :=
  c.tcp.socks5 ≠ .none → c.tcp.socks5 ≠ .failed →
    env.recv c.out 32 ≠ .retry ∧ env.recv c.out 32 ≠ .failed

theorem checkListen_silent (h : Silent pre c) (hstate : c.tcp.state = .listen)
    (hanswered : ev.epollIn = true → c.Answered env) :
    Silent pre (checkListen env args ev c) := by
  apply socksNext_silent
  · split
    · split
      · exact ⟨h.ended, h.sends⟩
      · exact h
    split
    · unfold socksRecv
      split
      · exact h.muted (socksReply_muted _).1
      · exact h.muted (socksReply_muted _).1
      all_goals
        have hread : c.Muted (c.emit (.socksRecv c.socket [])) :=
          ⟨id, [_], rfl, by simp [Output.isSend], by simp [Output.isReset]⟩
        exact h.muted (hread.trans (writeRst_muted env _))
    · exact h
  · split
    · split <;> exact .inl hstate
    next hdialogue =>
      split
      next hin =>
        have hreply (reply : List UInt8) :
            (socksReply env reply (c.emit (.socksRecv c.socket reply))).tcp.state = .listen ∨
              (socksReply env reply (c.emit (.socksRecv c.socket reply))).tcp.socks5 = .failed :=
          (socksReply_muted reply).2.imp_left (·.trans hstate)
        unfold socksRecv
        split
        · exact hreply _
        · exact hreply []
        next hretry =>
          right
          rw [writeRst_socks5]
          by_contra hfailed
          exact (hanswered hin hdialogue hfailed).1 hretry
        next hfail =>
          right
          rw [writeRst_socks5]
          by_contra hfailed
          exact (hanswered hin hdialogue hfailed).2 hfail
      next => exact .inl hstate

end Dialogue

section Run
variable {args : Arguments} {c : Conn}

/-- A readiness event that sends nothing once the session is over: no queued data fits into
the socket of a session that is over, and the answer of a proxy can be read. -/
structure Conn.SendsLive (c : Conn) (e : Env × TcpEvent) : Prop where
  drained : ∀ ev, e.2 = .socket ev → ev.epollErr = false → ev.epollOut = true →
    c.tcp.state.Over → { c with out := [] }.Blocked e.1
  answered : ∀ ev, e.2 = .socket ev → ev.epollErr = false → ev.epollIn = true →
    c.tcp.state = .listen → { c with out := [] }.Answered e.1

theorem Conn.Muted.step {d : Conn} {args : Arguments} {e : Env × TcpEvent}
    (h : ({ c with out := [] } : Conn).Muted d) (hd : e.2.handle e.1 args { c with out := [] } = d) :
    c.Muted (c.step args e) := by
  obtain ⟨hover, os, hout, hos, hreset⟩ := h
  simp only [Conn.step, hd]
  refine ⟨hover, os, ?_, hos, hreset⟩
  simp [hout]

/-- Every event but a readiness event without error sends nothing. -/
theorem Conn.step_muted (e : Env × TcpEvent) (hdialing : c.Dialing)
    (hnot : ∀ ev, e.2 = .socket ev → ev.epollErr = true) : c.Muted (c.step args e) := by
  by_cases hsocket : ∃ ev, e.2 = .socket ev
  · obtain ⟨env, event⟩ := e
    obtain ⟨ev, rfl⟩ := hsocket
    have herr := hnot ev rfl
    have htimed : ({ c with out := [] } : Conn).Muted
        { c with out := [], tcp.time := env.time [] } := ⟨id, [], rfl, by simp, by simp⟩
    apply (htimed.trans (writeRst_muted env _)).step
    simp [TcpEvent.handle, checkTcpSocket, herr]
  · have hacts : Acts False e.2.cause ⟨c, false⟩ ⟨c.step args e, false⟩ := by
      apply Acts.step args e _ hdialing
      rintro ⟨-, ev, hev, -⟩
      exact hsocket ⟨ev, hev⟩
    apply hacts.muted
    intro hwritable
    cases hevent : e.2 with
    | socket ev => exact hsocket ⟨ev, hevent⟩
    | segment tcphdr data uid allowed =>
      rw [hevent] at hwritable
      simp only [TcpEvent.cause] at hwritable
      split at hwritable <;> cases hwritable
    | _ =>
      rw [hevent] at hwritable
      cases hwritable

theorem Conn.step_over (e : Env × TcpEvent) (hdialing : c.Dialing) (hsends : c.SendsLive e)
    (hover : c.tcp.state.Over) : c.Muted (c.step args e) := by
  by_cases hnot : ∀ ev, e.2 = .socket ev → ev.epollErr = true
  · exact Conn.step_muted e hdialing hnot
  obtain ⟨ev, hev, herr⟩ : ∃ ev, e.2 = .socket ev ∧ ev.epollErr = false := by simpa using hnot
  have hlisten : c.tcp.state ≠ .listen := by
    intro hlisten
    rw [hlisten] at hover
    rcases hover with h | h <;> cases h
  have hforward : ({ c with out := [] } : Conn).Muted
      (forwardData e.1 ev { c with out := [] }).1 :=
    forwardData_muted fun hout => hsends.drained ev hev herr hout hover
  have hopen : ({ c with out := [] } : Conn).Muted
      (checkOpen e.1 args ev { c with out := [] }) := hforward.trans (checkOpen_muted hlisten)
  apply hopen.step
  simp [hev, TcpEvent.handle, checkTcpSocket, herr, hlisten]

theorem Conn.step_silent (e : Env × TcpEvent) (hdialing : c.Dialing) (hsends : c.SendsLive e)
    (h : Silent [] c) : Silent [] (c.step args e) := by
  by_cases hover : c.tcp.state.Over
  · exact h.muted (Conn.step_over e hdialing hsends hover)
  by_cases hnot : ∀ ev, e.2 = .socket ev → ev.epollErr = true
  · exact h.muted (Conn.step_muted e hdialing hnot)
  obtain ⟨env, event⟩ := e
  obtain ⟨ev, rfl, herr⟩ : ∃ ev, event = .socket ev ∧ ev.epollErr = false := by simpa using hnot
  have hnow : Silent c.out { c with out := [] } := by
    obtain ⟨hcut, hsent⟩ := h
    constructor
    all_goals rwa [List.append_nil]
  have hhandled : Silent c.out (TcpEvent.handle env args (.socket ev) { c with out := [] }) := by
    by_cases hlisten : c.tcp.state = .listen
    · simp only [TcpEvent.handle, checkTcpSocket, herr, hlisten, Bool.false_eq_true, if_false,
        if_true]
      exact checkListen_silent hnow hlisten
        fun hin => hsends.answered ev rfl herr hin hlisten
    · simp only [TcpEvent.handle, checkTcpSocket, herr, hlisten, Bool.false_eq_true, if_false]
      exact (forwardData_silent hnow hover).muted (checkOpen_muted hlisten)
  exact ⟨hhandled.ended, hhandled.sends⟩

/-- Nothing is sent to the server after a reset: within the calls of the session no send
follows a reset, and whatever comes once the session is over sends nothing. -/
def SilentAfterReset (args : Arguments) (c : Conn) (es : List (Env × TcpEvent)) : Prop :=
  Timed (fun before o => o.isSend = true → ∀ b ∈ before, b.isReset = false) (c.run args es).out ∧
  ∀ first last, es = first ++ last → (c.run args first).tcp.state.Over →
    ∃ os, (c.run args es).out = (c.run args first).out ++ os ∧ ∀ o ∈ os, o.isSend = false

theorem Conn.run_muted {es : List (Env × TcpEvent)} (hdialing : c.Dialing)
    (hrun : Run.Along (Conn.step args) Conn.SendsLive c es) (hover : c.tcp.state.Over) :
    c.Muted (c.run args es) := by
  induction es generalizing c with
  | nil => exact .refl
  | cons e es ih =>
    have hstep : c.Muted (c.step args e) := Conn.step_over e hdialing hrun.1 hover
    have hnext : (c.step args e).Dialing :=
      Run.chain_invariant (P := fun s : Stage => s.conn.Dialing) (fun _ _ => Move.dialing)
        (Moves.step args e hdialing) hdialing
    exact hstep.trans (ih hnext hrun.2 (hstep.ended hover))

theorem Syn.Listening.silent {syn : Syn} (h : syn.Listening c) : Silent [] c := by
  have hopening (o : Output) (ho : o ∈ [] ++ c.out) : o.isReset = false ∧ o.isSend = false :=
    Output.silent_of_opening (h.out o ho)
  constructor
  · rintro ⟨o, ho, hcut⟩
    rw [(hopening o ho).1] at hcut
    exact absurd hcut Bool.false_ne_true
  · apply Timed.of_forall
    intro o ho before hsend
    rw [(hopening o ho).2] at hsend
    exact absurd hsend Bool.false_ne_true

/-- In every run whose readiness events send nothing for a session that is over. -/
theorem Syn.Opens.silent_after_reset {syn : Syn} (hopens : syn.Opens args c)
    {es : List (Env × TcpEvent)} (hrun : Run.Along (Conn.step args) Conn.SendsLive c es) :
    SilentAfterReset args c es := by
  obtain ⟨d, hd, hacts⟩ := hopens.listening False
  have hstart : c.Dialing ∧ Silent [] c := ⟨hopens.dialing, hd.silent.muted (hacts.muted nofun)⟩
  have hstep (c : Conn) (e : Env × TcpEvent) (hsends : c.SendsLive e)
      (h : c.Dialing ∧ Silent [] c) :
      (c.step args e).Dialing ∧ Silent [] (c.step args e) :=
    ⟨Run.chain_invariant (P := fun s : Stage => s.conn.Dialing) (fun _ _ => Move.dialing)
      (Moves.step args e h.1) h.1, Conn.step_silent e h.1 hsends h.2⟩
  refine ⟨(hrun.invariant (P := fun c => c.Dialing ∧ Silent [] c) hstep hstart).2.sends, ?_⟩
  rintro first last rfl hover
  obtain ⟨hfirst, hlast⟩ := hrun.split
  have hdialing : (c.run args first).Dialing :=
    (hfirst.invariant (P := fun c => c.Dialing ∧ Silent [] c) hstep hstart).1
  have hmuted : (c.run args first).Muted ((c.run args first).run args last) :=
    Conn.run_muted hdialing hlast hover
  obtain ⟨os, hout, hos, -⟩ := hmuted.out
  refine ⟨os, ?_, hos⟩
  simpa [Conn.run, List.foldl_append] using hout

def resetByApp : List (Env × TcpEvent) :=
  connected 100 ++ [(.calm, .app (.acks 101 1 1000) ⟨[1, 2, 3], by decide⟩),
    (.calm, .app { TcpHdr.bare 104 1 1000 with rst := true } ⟨[], length_nil_lt⟩)]

theorem silent_after_reset_sample :
    SilentAfterReset .direct (Conn.sample 100 ⟨[], by decide⟩) resetByApp := by
  have hready (env : Env) (c : Conn) (hlive : ¬ c.tcp.state.Over) :
      c.SendsLive (env, .ready false true) := by
    refine ⟨fun _ _ _ _ hover => absurd hover hlive, ?_⟩
    rintro ev ⟨⟩ - hin
    exact absurd hin Bool.false_ne_true
  have hsegment (env : Env) (c : Conn) (tcphdr : TcpHdr) (data : Payload) :
      c.SendsLive (env, .app tcphdr data) := ⟨nofun, nofun⟩
  refine (Syn.sample_opens 100).silent_after_reset ⟨hready _ _ ?_, hsegment _ _ _ _,
    hsegment _ _ _ _, hsegment _ _ _ _, trivial⟩
  rintro (hover | hover) <;> cases hover

/-- The app resets while its data is queued: the socket that is writable still gets it. -/
theorem not_silent_after_reset :
    ¬ SilentAfterReset .direct (Conn.sample 100 ⟨[], by decide⟩)
      (resetByApp ++ [(.calm, .ready false true)]) := by
  rintro ⟨-, hsilent⟩
  have hover : ((Conn.sample 100 ⟨[], by decide⟩).run .direct resetByApp).tcp.state.Over :=
    .inl rfl
  obtain ⟨os, hout, hos⟩ := hsilent resetByApp _ rfl hover
  have hsends : (((Conn.sample 100 ⟨[], by decide⟩).run .direct
      (resetByApp ++ [(.calm, .ready false true)])).out.drop
        ((Conn.sample 100 ⟨[], by decide⟩).run .direct resetByApp).out.length).any
          Output.isSend = true := rfl
  rw [hout, List.drop_left] at hsends
  obtain ⟨o, ho, hsend⟩ := List.any_eq_true.mp hsends
  rw [hos o ho] at hsend
  exact Bool.false_ne_true hsend

end Run

end NetGuard.Engine
