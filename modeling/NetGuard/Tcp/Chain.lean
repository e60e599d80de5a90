import NetGuard.Tcp.Move

/-! # Every handler is a chain of moves

One lemma for each function of the engine that touches a TCP session. A handler of a
segment is a chain of moves caused by that segment; only a writable socket sends.
-/
namespace NetGuard.Engine
open Relation (ReflTransGen)

variable {env : Env} {args : Arguments} {dial : Prop} {a : Cause} {c : Conn} {fwd : Bool}

section Write

theorem writeRst_eq (env : Env) (c : Conn) : writeRst env c =
    (countSyn c).wrote [] false (c.tcp.state == .listen) false true
      (env.tunWrite (countSyn c).out) (if c.tcp.state = .close then .close else .closing) := by
  have hstate : (countSyn c).tcp.state = c.tcp.state := by simp
  by_cases h : c.tcp.state = .close
  · have hclose : (countSyn c).tcp.state = .close := hstate.trans h
    simp [-countSyn_tcp, -countSyn_socket, -countSyn_out, writeRst, writeTcp, Conn.wrote,
      Conn.emit, ← hclose, h]
  · simp [writeRst, writeTcp, Conn.wrote, Conn.emit, Conn.setState, h]

theorem writeOrClose_eq (env : Env) (c : Conn) (data : List UInt8) (syn fin : Bool) :
    writeOrClose env c data syn fin =
      (c.wrote data syn true fin false (env.tunWrite c.out)
        (if env.tunWrite c.out then c.tcp.state else .closing), env.tunWrite c.out) := by
  cases h : env.tunWrite c.out <;>
    simp [writeOrClose, writeTcp, Conn.wrote, Conn.emit, Conn.setState, h]

theorem confirmConnect_refused {env : Env} {c : Conn} (hw : env.tunWrite c.out = false) :
    confirmConnect env c = { c with tcp.remoteSeq := c.tcp.remoteSeq + 1 }.wrote
      [] true true false false false .closing := by
  simp [confirmConnect, writeSynAck, writeOrClose_eq, hw]

theorem Acts.writeRst : Acts dial a ⟨c, fwd⟩ ⟨writeRst env c, fwd⟩ := by
  rw [writeRst_eq]
  exact .single (.reset _)

end Write

section Segment
variable {tcphdr : TcpHdr} {data : Payload}

theorem Acts.handleFin (hfin : Arrival.FinTaken ⟨tcphdr, data⟩ c)
    (hadmitted : Arrival.Admitted ⟨tcphdr, data⟩ c) :
    Acts dial (.segment ⟨tcphdr, data⟩) ⟨c, fwd⟩ ⟨handleFin env c, fwd⟩ := by
  let seg : Arrival := ⟨tcphdr, data⟩
  let counted : Conn := { c with tcp.remoteSeq := c.tcp.remoteSeq + 1 }
  let written := env.tunWrite c.out
  by_cases hest : c.tcp.state = .established
  · by_cases hforward : c.tcp.forward = []
    · have heq : Engine.handleFin env c = counted.wrote [] false true false false written
          (if written then .closeWait else .closing) := by
        cases hw : env.tunWrite c.out <;>
          simp [Engine.handleFin, hest, hforward, writeAck, writeOrClose_eq, hw, Conn.wrote,
            Conn.emit, Conn.setState, counted, written]
      rw [heq]
      exact .single (.countFin rfl hfin hadmitted hest hforward written)
    · have heq : Engine.handleFin env c = c.setState .closeWait := by
        simp [Engine.handleFin, hest, hforward]
      rw [heq]
      exact .single (.holdFin rfl hfin hadmitted hest hforward)
  by_cases hwait : c.tcp.state = .finWait1
  · have heq : Engine.handleFin env c = counted.wrote [] false true false false written
        (if written then .close else .closing) := by
      cases hw : env.tunWrite c.out <;>
        simp [Engine.handleFin, hwait, writeAck, writeOrClose_eq, hw, Conn.wrote,
          Conn.emit, Conn.setState, counted, written]
    rw [heq]
    exact .single (.lastFin rfl hfin hadmitted hwait written)
  · have heq : Engine.handleFin env c = c := by
      cases hstate : c.tcp.state <;> simp_all [Engine.handleFin]
    rw [heq]

theorem Acts.handleAck (hfin : tcphdr.fin = false) (hack : tcphdr.ackSeq = c.tcp.localSeq) :
    Acts dial (.segment ⟨tcphdr, data⟩) ⟨c, fwd⟩ ⟨handleAck tcphdr c, fwd⟩ := by
  let seg : Arrival := ⟨tcphdr, data⟩
  have hmove (state : TcpState) (hstate : state = c.tcp.state ∨
      (c.tcp.state = .synRecv ∧ state = .established) ∨
      (c.tcp.state = .lastAck ∧ state = .closing)) :
      Acts dial (.segment seg) ⟨c, fwd⟩
        ⟨{ c with tcp.acked := tcphdr.ackSeq, tcp.state := state }, fwd⟩ :=
    .single (.ackAll rfl hfin hack state hstate)
  simp only [Engine.handleAck]
  split
  next h => exact hmove .established (.inr (.inl ⟨h, rfl⟩))
  next h => exact hmove .closing (.inr (.inr ⟨h, rfl⟩))
  next => exact hmove c.tcp.state (.inl rfl)

theorem Acts.handleOtherAck :
    Acts dial (.segment ⟨tcphdr, data⟩) ⟨c, fwd⟩ ⟨handleOtherAck env tcphdr c, fwd⟩ := by
  simp only [Engine.handleOtherAck]
  split
  · exact .refl
  split
  next hlocal =>
    split
    · exact .refl
    next hacked =>
      exact .single (.ackSome rfl hlocal (by simpa using hacked))
  · exact Acts.writeRst

theorem Acts.handleFlags (hadmitted : Arrival.Admitted ⟨tcphdr, data⟩ c) :
    Acts dial (.segment ⟨tcphdr, data⟩) ⟨c, fwd⟩ ⟨handleFlags env tcphdr c, fwd⟩ := by
  unfold Engine.handleFlags
  split
  · exact .single .abort
  next hrst =>
    split
    next hack =>
      split
      · exact .refl
      next hsyn =>
        split
        next hfin =>
          exact Acts.handleFin ⟨hfin, by simpa using hrst, by simpa using hsyn, by simpa using hack⟩
            hadmitted
        next hfin =>
          split
          next h => exact Acts.handleAck (by simpa using hfin) (by simpa [h] using hack)
          next => exact .refl
    · exact Acts.handleOtherAck

theorem Acts.handleOpen (hstate : c.tcp.state ≠ .closing ∧ c.tcp.state ≠ .close) :
    Acts dial (.segment ⟨tcphdr, data⟩) ⟨c, fwd⟩ ⟨handleOpen env tcphdr data c, fwd⟩ := by
  let seg : Arrival := ⟨tcphdr, data⟩
  let timed : Conn := if tcphdr.syn then c else { c with tcp.time := env.time c.out }
  let opened : Conn := { timed with
    tcp.sendWindow := tcphdr.window.toUInt32 <<< timed.tcp.sendScale.toUInt32
    tcp.unconfirmed := 0 }
  have htimed : Acts dial (.segment seg) ⟨c, fwd⟩ ⟨timed, fwd⟩ := by
    unfold timed
    split
    · exact .refl
    · exact .single (.tidy _ _ _ _ _ _ _ _ id (.inr rfl))
  have hopened : Acts dial (.segment seg) ⟨c, fwd⟩ ⟨opened, fwd⟩ :=
    htimed.tail (.window rfl)
  have hsame : opened.tcp.state = c.tcp.state ∧ opened.socket = c.socket := by
    unfold opened timed
    split <;> exact ⟨rfl, rfl⟩
  have heq : Engine.handleOpen env tcphdr data c =
      if data.val.isEmpty then Engine.handleFlags env tcphdr opened
      else if opened.socket < 0 then Engine.writeRst env opened
      else if opened.tcp.state = .closeWait then Engine.writeRst env opened
      else Engine.handleFlags env tcphdr
        { opened with tcp := queueTcp opened.tcp tcphdr data } := rfl
  rw [heq]
  split
  next hdata => exact hopened.trans (Acts.handleFlags (.inl (by simpa using hdata)))
  next hdata =>
    split
    · exact hopened.trans Acts.writeRst
    next hsocket =>
      split
      · exact hopened.trans Acts.writeRst
      next hwait =>
        have hqueue : Act dial (.segment seg) ⟨opened, fwd⟩
            ⟨{ opened with tcp := queueTcp opened.tcp tcphdr data }, fwd⟩ :=
          .queue rfl (by simpa using hdata) (by omega)
            ⟨hwait, by rw [hsame.1]; exact hstate.1, by rw [hsame.1]; exact hstate.2⟩
        have hadmitted : Arrival.Admitted seg
            { opened with tcp := queueTcp opened.tcp tcphdr data } :=
          .inr ⟨Int.not_lt.mp hsocket, queueTcp_idem opened.tcp tcphdr data⟩
        exact (hopened.tail hqueue).trans (Acts.handleFlags hadmitted)

theorem Acts.handleSegment (tcphdr : TcpHdr) (data : Payload) (uid : Int) (allowed : Bool) :
    Acts dial (if allowed then .segment ⟨tcphdr, data⟩ else .other) ⟨c, fwd⟩
      ⟨handleSegment env tcphdr data uid allowed c, fwd⟩ := by
  have huid (a : Cause) : Acts dial a ⟨c, fwd⟩
      ⟨if c.tcp.uid = -1 ∧ uid > 0 then { c with tcp.uid := uid } else c, fwd⟩ := by
    split
    · exact .single (.tidy _ _ _ _ _ _ _ _ id (.inr rfl))
    · exact .refl
  unfold Engine.handleSegment
  apply (huid _).trans
  generalize (if c.tcp.uid = -1 ∧ uid > 0 then { c with tcp.uid := uid } else c) = d
  cases allowed with
  | false => exact Acts.writeRst
  | true =>
    simp only [Bool.not_true, Bool.false_eq_true, if_false, if_true]
    split
    · exact Acts.writeRst
    next hstate => exact Acts.handleOpen (by simpa using hstate)

end Segment

section Listen

theorem Acts.socksSend (hdial : dial) {message : List UInt8} :
    Acts dial a ⟨c, fwd⟩ ⟨socksSend env message c, fwd⟩ := by
  unfold Engine.socksSend
  split
  · exact .single (.quiet _ rfl hdial)
  all_goals exact (ReflTransGen.single (.quiet _ rfl hdial)).trans Acts.writeRst

theorem Acts.socksFailed (hdial : dial) : Acts dial a ⟨c, fwd⟩ ⟨socksFailed env c, fwd⟩ :=
  (ReflTransGen.single (.tidy _ _ _ _ _ _ .failed _ (by simp) (.inl hdial))).trans Acts.writeRst

theorem writeRst_socks5 : (writeRst env c).tcp.socks5 = c.tcp.socks5 := by
  rw [writeRst_eq]
  unfold countSyn
  split <;> rfl

/-- A session whose SOCKS5 dialogue is over, `d`, or one where it goes on. -/
def Answered (dial : Prop) (a : Cause) (fwd : Bool) (c d : Conn) : Prop :=
  (∃ e : Conn, e.tcp.state = .listen ∧ Acts dial a ⟨c, fwd⟩ ⟨e, fwd⟩ ∧
    d = { e with tcp.socks5 := .connected }) ∨
  (Acts dial a ⟨c, fwd⟩ ⟨d, fwd⟩ ∧ d.tcp.socks5 ≠ .connected)

theorem answered_socksReply (hdial : dial) (buffer : List UInt8) (hstate : c.tcp.state = .listen) :
    Answered dial a fwd c (socksReply env buffer c) := by
  have hfailed : Answered dial a fwd c (Engine.socksFailed env c) :=
    .inr ⟨Acts.socksFailed hdial, by simp [Engine.socksFailed, writeRst_socks5]⟩
  have hnext (s : Socks5) (hs : s ≠ .connected) :
      Answered dial a fwd c { c with tcp.socks5 := s } :=
    .inr ⟨.single (.tidy _ _ _ _ _ _ s _ (fun h => absurd h hs) (.inl hdial)), hs⟩
  have hdone : Answered dial a fwd c { c with tcp.socks5 := .connected } :=
    .inl ⟨c, hstate, .refl, rfl⟩
  simp only [socksReply]
  generalize 6 + (if c.tcp.version = .v4 then 4 else 16) = replySize
  split
  · split
    · exact hnext .connect (by decide)
    split
    · exact hnext .auth (by decide)
    · exact hfailed
  split
  · split
    · exact hnext .connect (by decide)
    · exact hfailed
  split
  · split
    · exact hdone
    · exact hfailed
  · exact hfailed

theorem answered_socksRecv (hdial : dial) (hstate : c.tcp.state = .listen) (hsocks : c.tcp.socks5 ≠ .connected) :
    Answered dial a fwd c (socksRecv env c) := by
  have hemit (bytes : List UInt8) :
      Acts dial a ⟨c, fwd⟩ ⟨c.emit (.socksRecv c.socket bytes), fwd⟩ := .single (.quiet _ rfl hdial)
  have hreply (bytes : List UInt8) :
      Answered dial a fwd c (socksReply env bytes (c.emit (.socksRecv c.socket bytes))) := by
    rcases answered_socksReply hdial (c := c.emit (.socksRecv c.socket bytes)) bytes hstate with
      ⟨e, he, hmoves, hd⟩ | ⟨hmoves, hd⟩
    · exact .inl ⟨e, he, (hemit bytes).trans hmoves, hd⟩
    · exact .inr ⟨(hemit bytes).trans hmoves, hd⟩
  unfold socksRecv
  split
  · exact hreply _
  · exact hreply _
  all_goals
    exact .inr ⟨(hemit []).trans Acts.writeRst, by rw [writeRst_socks5]; exact hsocks⟩

theorem Acts.confirmConnect (hdial : dial) (hstate : c.tcp.state = .listen) :
    Acts dial .other ⟨c, fwd⟩ ⟨confirmConnect env { c with tcp.socks5 := .connected }, fwd⟩ := by
  cases hw : env.tunWrite c.out with
  | false =>
    have hmove : Act dial .other ⟨c, fwd⟩ _ :=
      .synAck rfl hstate c.tcp.time false hdial
    simpa [Engine.confirmConnect, writeSynAck, writeOrClose_eq, hw, Conn.wrote, Conn.emit]
      using ReflTransGen.single hmove
  | true =>
    let written : Conn := { c with
      tcp.socks5 := .connected
      tcp.remoteSeq := c.tcp.remoteSeq + 1 }.wrote [] true true false false true .synRecv
    have hmove : Act dial .other ⟨c, fwd⟩ _ :=
      .synAck rfl hstate (env.time written.out) true hdial
    simpa [Engine.confirmConnect, writeSynAck, writeOrClose_eq, hw, Conn.wrote, Conn.emit, written]
      using ReflTransGen.single hmove

theorem Acts.socksNext (hdial : dial) (hsocks : c.tcp.socks5 ≠ .connected) :
    Acts dial .other ⟨c, fwd⟩ ⟨socksNext env args c, fwd⟩ := by
  cases h : c.tcp.socks5 <;> simp only [Engine.socksNext, h]
  case hello | auth | connect => exact Acts.socksSend hdial
  case connected => exact absurd h hsocks
  all_goals exact .refl

theorem Acts.checkListen (hdial : dial) {ev : Events} (hstate : c.tcp.state = .listen)
    (hsocks : c.tcp.socks5 ≠ .connected) :
    Acts dial .other ⟨c, fwd⟩ ⟨checkListen env args ev c, fwd⟩ := by
  have hready : Answered dial .other fwd c
      (if c.tcp.socks5 = .none then
        if ev.epollOut then
          { c with tcp.socks5 := if args.proxy then .hello else .connected }
        else c
      else if ev.epollIn then Engine.socksRecv env c
      else c) := by
    split
    · split
      · cases args.proxy
        · exact .inl ⟨c, hstate, .refl, rfl⟩
        · exact .inr ⟨.single (.tidy _ _ _ _ _ _ .hello _ (by simp) (.inl hdial)), by simp⟩
      · exact .inr ⟨.refl, hsocks⟩
    split
    · exact answered_socksRecv hdial hstate hsocks
    · exact .inr ⟨.refl, hsocks⟩
  unfold Engine.checkListen
  rcases hready with ⟨e, he, hmoves, hd⟩ | ⟨hmoves, hd⟩
  · simp only [hd]
    exact hmoves.trans (Acts.confirmConnect hdial he)
  · exact hmoves.trans (Acts.socksNext hdial hd)

end Listen

section Forward

theorem Act.not_listen {s t : Stage} (h : Act dial a s t) (hs : s.conn.tcp.state ≠ .listen) :
    t.conn.tcp.state ≠ .listen := by
  cases h with
  | @reset c fwd written => simp only [Conn.wrote]; split <;> decide
  | @countFin c fwd seg ha hfin hadmitted hstate hforward written => cases written <;> simp [Conn.wrote]
  | @lastFin c fwd seg ha hfin hadmitted hstate written => cases written <;> simp [Conn.wrote]
  | @ackAll c fwd seg ha hfin hack state hstate =>
    rcases hstate with rfl | ⟨_, rfl⟩ | ⟨_, rfl⟩
    · exact hs
    · simp
    · simp
  | @synAck c fwd ha hstate time written => exact absurd hstate hs
  | @confirmFin c ha hstate hforward written => cases written <;> simp [Conn.wrote, hstate]
  | @ack c fwd ha hforward hlisten written => cases written <;> simp [Conn.wrote, hlisten]
  | @keepAlive c fwd ha hstate written => cases written <;> simp_all [Conn.wrote]
  | @data c fwd ha hstate bytes hbytes hsize dns hdns written =>
    cases written <;> simp_all [Conn.wrote]
  | @fin c fwd ha hstate hforward written state hnext =>
    rcases hnext with ⟨_, rfl⟩ | ⟨_, _, rfl⟩ | ⟨_, _, rfl⟩ <;> simp
  | queue ha hdata hsocket hstate => simpa [queueTcp_eq] using hs
  | abort => simp [Conn.setState]
  | holdFin => simp [Conn.setState]
  | closed => simp [Conn.setState]
  | _ => exact hs

theorem Acts.not_listen {s t : Stage} (h : Acts dial a s t) (hs : s.conn.tcp.state ≠ .listen) :
    t.conn.tcp.state ≠ .listen :=
  Run.chain_invariant (P := fun s : Stage => s.conn.tcp.state ≠ .listen)
    (fun _ _ => Act.not_listen) h hs

theorem getReceiveBuffer_le (socket : Int) (sendBuf unsent : Fin (2 ^ 31)) :
    (getReceiveBuffer socket sendBuf unsent).toNat < 2 ^ 31 := by
  unfold getReceiveBuffer
  split
  · simp
  have hsize : (if sendBuf.val = 0 then 163840 else sendBuf.val) < 2 ^ 31 := by
    split <;> omega
  generalize (if sendBuf.val = 0 then 163840 else sendBuf.val) = size at hsize
  simp only
  split
  · rw [UInt32.toNat_ofNat']
    omega
  · simp

theorem Segment.sent_le_of_unsent_lt {seg : Segment} {bufferSize : UInt32}
    (h : seg.unsent < bufferSize) (hbuf : bufferSize.toNat < 2 ^ 31) :
    seg.sent.toNat ≤ seg.data.val.length ∧
      seg.unsent.toNat = seg.data.val.length - seg.sent.toNat := by
  have hlt := UInt32.lt_iff_toNat_lt.mp h
  have hlen := seg.data.property
  have hsent := seg.sent.toNat_lt
  simp only [Segment.unsent, UInt32.toNat_sub, UInt16.toNat_toUInt32, Segment.len_toNat] at hlt ⊢
  omega

theorem Segment.len_eq_sent_iff {seg : Segment} {n : ℕ}
    (hn : seg.sent.toNat + n ≤ seg.data.val.length) :
    ({ seg with sent := seg.sent + UInt16.ofNat n } : Segment).len = seg.sent + UInt16.ofNat n ↔
      seg.sent.toNat + n = seg.data.val.length := by
  have hlen := seg.data.property
  rw [← UInt16.toNat_inj, Segment.len_toNat, UInt16.toNat_add, UInt16.toNat_ofNat']
  simp only
  omega

theorem Acts.forwardLoop (queue : List Segment) : ∀ {c : Conn} {bufferSize : UInt32} {fwd : Bool},
    c.tcp.state ≠ .listen → bufferSize.toNat < 2 ^ 31 →
    Acts dial .writable ⟨{ c with tcp.forward := queue }, fwd⟩
      ⟨(forwardLoop env queue c bufferSize fwd).1, (forwardLoop env queue c bufferSize fwd).2⟩ := by
  induction queue with
  | nil => intro c bufferSize fwd _ _; exact .refl
  | cons seg rest ih =>
    intro c bufferSize fwd hlisten hbuf
    unfold Engine.forwardLoop
    split
    next hcond =>
      obtain ⟨hseq, hunsent⟩ := hcond
      obtain ⟨hsent, hsize⟩ := Segment.sent_le_of_unsent_lt hunsent hbuf
      simp only
      split
      next => exact .single (.quiet (c := { c with tcp.forward := seg :: rest }) _ rfl rfl)
      next =>
        exact (ReflTransGen.single (.quiet (c := { c with tcp.forward := seg :: rest }) _ rfl rfl)).trans
          Acts.writeRst
      next n heq =>
        have hle : seg.sent.toNat + n.val ≤ seg.data.val.length := by
          have hn := n.isLt
          simp only [List.length_drop] at hn
          omega
        let waiting : Conn := { c with tcp.forward := seg :: rest }
        have hmove : Act dial .writable ⟨waiting, fwd⟩ _ :=
          Act.send (c := waiting) rfl n.val rfl hseq hsent hle hlisten (c.tcp.sent + UInt64.ofNat n)
        have hfull := Segment.len_eq_sent_iff hle
        by_cases hdone : seg.sent.toNat + n.val = seg.data.val.length
        · simp only [if_pos hdone] at hmove
          rw [if_pos (hfull.mpr hdone)]
          have hnext : seg.seq + (seg.sent + UInt16.ofNat n).toUInt32 =
              c.tcp.remoteSeq + seg.len.toUInt32 := by
            rw [← hfull.mpr hdone, hseq]
            rfl
          have hsmall : (bufferSize - UInt32.ofNat n).toNat < 2 ^ 31 := by
            have hlt := UInt32.lt_iff_toNat_lt.mp hunsent
            have hbuffer := bufferSize.toNat_lt
            rw [UInt32.toNat_sub, UInt32.toNat_ofNat']
            omega
          rw [hnext]
          let sentConn : Conn := { c.emit (.send c.socket (seg.seq + seg.sent.toUInt32)
              (seg.data.val.drop seg.sent.toNat) (some n)) with
            tcp.sent := c.tcp.sent + UInt64.ofNat n
            tcp.remoteSeq := c.tcp.remoteSeq + seg.len.toUInt32 }
          exact .head hmove (ih (c := sentConn) hlisten hsmall)
        · simp only [if_neg hdone] at hmove
          rw [if_neg (fun h => hdone (hfull.mp h))]
          exact .single hmove
    next => exact .refl

theorem Acts.forwardData {ev : Events} (hlisten : c.tcp.state ≠ .listen) :
    Acts dial ev.cause ⟨c, false⟩
      ⟨(forwardData env ev c).1, (forwardData env ev c).2⟩ := by
  unfold Engine.forwardData Events.cause
  cases ev.epollOut with
  | true =>
    refine .head (.quiet (.probe c.socket) rfl trivial) ?_
    exact Acts.forwardLoop (c := c.emit (.probe c.socket)) c.tcp.forward hlisten
      (getReceiveBuffer_le c.socket (env.sendBuf c.out) (env.unsent c.out))
  | false => exact .refl

theorem Acts.ready {s t : Stage} (ev : Events) (h : Acts dial .other s t) :
    Acts dial ev.cause s t := by
  unfold Events.cause
  cases ev.epollOut
  · exact h
  · exact Acts.writable h

theorem Acts.confirmForward (hlisten : c.tcp.state ≠ .listen) :
    Acts dial .other ⟨c, fwd⟩ ⟨confirmForward env fwd c, false⟩ := by
  have htime (d : Conn) (written : Bool) : Acts dial .other ⟨d, false⟩
      ⟨if written then { d with tcp.time := env.time d.out } else d, false⟩ := by
    cases written
    · exact .refl
    · exact .single (.tidy _ _ _ _ _ _ _ _ id (.inr rfl))
  unfold Engine.confirmForward
  by_cases hfin : fwd ∧ c.tcp.forward.isEmpty ∧ c.tcp.state = .closeWait
  · obtain ⟨rfl, hforward, hstate⟩ := hfin
    rw [if_pos ⟨rfl, hforward, hstate⟩]
    simp only [writeAck, writeOrClose_eq]
    exact .head (.confirmFin rfl hstate (by simpa using hforward) (env.tunWrite c.out)) (htime _ _)
  · simp only [if_neg hfin, writeAck, writeOrClose_eq]
    refine .head (.ack rfl ?_ hlisten (env.tunWrite c.out)) (htime _ _)
    intro hfwd hstate hforward
    exact hfin ⟨hfwd, by simpa using hforward, hstate⟩

theorem Acts.updateWindow (hlisten : c.tcp.state ≠ .listen) :
    Acts dial .other ⟨c, fwd⟩ ⟨updateWindow env fwd c, false⟩ := by
  let probed := c.emit (.probe c.socket)
  let window := getReceiveWindow probed.tcp (probeBuffer env c).1
  have hprobe : Acts dial .other ⟨c, fwd⟩ ⟨{ probed with tcp.recvWindow := window }, fwd⟩ :=
    .head (.quiet (.probe c.socket) rfl trivial) (.single (.tidy _ _ _ _ _ _ _ _ id (.inr rfl)))
  have heq : Engine.updateWindow env fwd c =
      if fwd ∨ (probed.tcp.recvWindow = 0 ∧ window > 0) then
        Engine.confirmForward env fwd { probed with tcp.recvWindow := window }
      else { probed with tcp.recvWindow := window } := rfl
  rw [heq]
  split
  · exact hprobe.trans (Acts.confirmForward hlisten)
  next h =>
    have hfwd : fwd = false := by
      cases fwd
      · rfl
      · exact absurd (.inl rfl) h
    simpa [hfwd] using hprobe

end Forward

section Read

theorem Acts.quiets {os : List Output} (hos : ∀ o ∈ os, ∃ u, o = .upcall u) :
    Acts dial a ⟨c, fwd⟩ ⟨{ c with out := c.out ++ os }, fwd⟩ := by
  induction os generalizing c with
  | nil =>
    simp only [List.append_nil]
    exact .refl
  | cons o os ih =>
    have hrest := ih (c := c.emit o) (fun p hp => hos p (by simp [hp]))
    obtain ⟨u, rfl⟩ := hos o (by simp)
    refine .head (.quiet (.upcall u) rfl trivial) ?_
    simpa [Conn.emit] using hrest

theorem writeRst_state (hstate : c.tcp.state ≠ .close) :
    (writeRst env c).tcp.state = .closing := by
  rw [writeRst_eq]
  simp [Conn.wrote, hstate]

theorem Acts.readEof (hstate : c.tcp.state = .established ∨ c.tcp.state = .closeWait) :
    Acts dial .other ⟨c, fwd⟩ ⟨readEof env c, fwd⟩ := by
  by_cases hforward : c.tcp.forward = []
  · have hfin (written : Bool) (state : TcpState) (hnext) :=
      ReflTransGen.single (show Act dial .other ⟨c, fwd⟩ _ from
        .fin rfl hstate hforward written state hnext)
    cases hw : env.tunWrite c.out with
    | false =>
      simpa [Engine.readEof, hforward, writeFinAck, writeOrClose_eq, hw, Conn.wrote, Conn.emit]
        using hfin false .closing (.inl ⟨rfl, rfl⟩)
    | true =>
      rcases hstate with h | h
      · simpa [Engine.readEof, hforward, writeFinAck, writeOrClose_eq, hw, Conn.wrote, Conn.emit,
          Conn.setState, h] using hfin true .finWait1 (.inr (.inl ⟨rfl, h, rfl⟩))
      · simpa [Engine.readEof, hforward, writeFinAck, writeOrClose_eq, hw, Conn.wrote, Conn.emit,
          Conn.setState, h] using hfin true .lastAck (.inr (.inr ⟨rfl, h, rfl⟩))
  · have hclosing : (Engine.writeRst env c).tcp.state = .closing :=
      writeRst_state (by rcases hstate with h | h <;> simp [h])
    have heq : Engine.readEof env c =
        { (Engine.writeRst env c).emit (.close (Engine.writeRst env c).socket) with
          socket := -1 } := by
      simp [Engine.readEof, hforward]
    rw [heq]
    exact Acts.writeRst.tail (.close rfl hclosing)

theorem inspectDns_upcalls (bytes : List UInt8) (c : Conn) :
    ∃ dns, inspectDns bytes c = { c with out := c.out ++ dns } ∧
      ∀ o ∈ dns, ∃ u, o = .upcall u := by
  unfold inspectDns
  split
  · exact ⟨_, rfl, by simp⟩
  · exact ⟨[], by simp, by simp⟩

theorem forwardBytes_eq (env : Env) (bytes : List UInt8) (c : Conn) : forwardBytes env bytes c =
    { c.wrote bytes false true false false (env.tunWrite c.out)
        (if env.tunWrite c.out then c.tcp.state else .closing) with
      tcp.localSeq := if env.tunWrite c.out then c.tcp.localSeq + UInt32.ofNat bytes.length
        else c.tcp.localSeq
      tcp.unconfirmed := if env.tunWrite c.out then c.tcp.unconfirmed + 1
        else c.tcp.unconfirmed } := by
  cases h : env.tunWrite c.out <;>
    simp [forwardBytes, writeData, writeOrClose_eq, Conn.wrote, Conn.emit, h]

theorem Acts.readData {bytes : List UInt8} (hbytes : bytes ≠ [])
    (hsize : bytes.length ≤ (readSize c.tcp).toNat)
    (hstate : c.tcp.state = .established ∨ c.tcp.state = .closeWait) :
    Acts dial .other ⟨c, fwd⟩ ⟨readData env args bytes (c.emit (.recv c.socket bytes)), fwd⟩ := by
  let received : Conn := { c with tcp.received := c.tcp.received + UInt64.ofNat bytes.length }
  obtain ⟨dns, hinspect, hdns⟩ := inspectDns_upcalls bytes
    (received.emit (.recv c.socket bytes))
  have hquiet : ∀ o ∈ dns, o.quiet = true := by
    intro o ho
    obtain ⟨u, rfl⟩ := hdns o ho
    rfl
  have hforwarded : Acts dial .other ⟨c, fwd⟩ ⟨forwardBytes env bytes
      (inspectDns bytes (received.emit (.recv c.socket bytes))), fwd⟩ := by
    have hreceived : Act dial .other ⟨c, fwd⟩ ⟨received, fwd⟩ := .tidy _ _ _ _ _ _ _ _ id (.inr rfl)
    refine .head hreceived (.single ?_)
    rw [hinspect, forwardBytes_eq]
    simpa [Conn.emit, received] using
      (show Act dial .other ⟨received, fwd⟩ _ from
        Act.data (c := received) rfl hstate bytes hbytes hsize dns hquiet _ hdns)
  apply hforwarded.trans
  obtain ⟨os, hlog, hos⟩ := logIncoming_upcalls env args
    (forwardBytes env bytes (inspectDns bytes (received.emit (.recv c.socket bytes)))).tcp.query
    bytes.length
    (forwardBytes env bytes (inspectDns bytes (received.emit (.recv c.socket bytes)))).tcp.uid
    (forwardBytes env bytes (inspectDns bytes (received.emit (.recv c.socket bytes)))).out
  have hquiets : Acts dial .other ⟨forwardBytes env bytes
      (inspectDns bytes (received.emit (.recv c.socket bytes))), fwd⟩ _ := Acts.quiets hos
  rw [← hlog] at hquiets
  exact hquiets

theorem Acts.readSocket {ev : Events}
    (hstate : c.tcp.state = .established ∨ c.tcp.state = .closeWait) :
    Acts dial .other ⟨c, fwd⟩ ⟨readSocket env args ev c, fwd⟩ := by
  unfold Engine.readSocket
  split
  · simp only
    have htime : Acts dial .other ⟨c, fwd⟩ ⟨{ c with tcp.time := env.time c.out }, fwd⟩ :=
      .single (.tidy _ _ _ _ _ _ _ _ id (.inr rfl))
    apply htime.trans
    split
    next bytes hbound _ =>
      exact Acts.readData (c := { c with tcp.time := env.time c.out }) hbound.1 hbound.2 hstate
    next => exact .head (.quiet (.recv c.socket []) rfl trivial) (Acts.readEof hstate)
    next => exact .single (.quiet _ rfl trivial)
    next => exact .head (.quiet (.recv c.socket []) rfl trivial) Acts.writeRst
  · exact .refl

theorem Acts.checkOpen {ev : Events} (hlisten : c.tcp.state ≠ .listen) :
    Acts dial ev.cause ⟨c, false⟩
      ⟨checkOpen env args ev c, false⟩ := by
  unfold Engine.checkOpen
  have hforward : Acts dial ev.cause ⟨c, false⟩
      ⟨(Engine.forwardData env ev c).1, (Engine.forwardData env ev c).2⟩ :=
    Acts.forwardData hlisten
  have hupdate : Acts dial .other
      ⟨(Engine.forwardData env ev c).1, (Engine.forwardData env ev c).2⟩
      ⟨Engine.updateWindow env (Engine.forwardData env ev c).2 (Engine.forwardData env ev c).1,
        false⟩ := Acts.updateWindow (Acts.not_listen hforward hlisten)
  apply (hforward.trans (Acts.ready ev hupdate)).trans
  simp only
  split
  next hstate => exact Acts.ready ev (Acts.readSocket hstate)
  next => exact .refl

theorem Acts.checkTcpSocket {ev : Events}
    (hdial : c.tcp.state = .listen → ev.epollErr = false → dial)
    (hsocks : c.tcp.state = .listen → c.tcp.socks5 ≠ .connected) :
    Acts dial ev.cause ⟨c, false⟩
      ⟨checkTcpSocket env args ev c, false⟩ := by
  unfold Engine.checkTcpSocket
  split
  · exact .head (.tidy _ _ _ _ _ _ _ _ id (.inr rfl)) Acts.writeRst
  next herr =>
  split
  next hstate =>
    have hdial' := hdial hstate (by simpa using herr)
    exact Acts.ready ev (Acts.checkListen hdial' hstate (hsocks hstate))
  next hstate => exact Acts.checkOpen hstate

end Read

section Monitor

theorem Acts.keepAlive (hstate : c.tcp.state = .established ∨ c.tcp.state = .closeWait) :
    Acts dial .other ⟨c, fwd⟩ ⟨keepAlive env c, fwd⟩ := by
  unfold Engine.keepAlive
  simp only
  split
  · let stamped : Conn := { c with tcp.lastKeepAlive := env.ms c.out }
    have hmove : Act dial .other ⟨stamped, fwd⟩ _ :=
      Act.keepAlive (c := stamped) rfl hstate (env.tunWrite c.out)
    have hstamp : Act dial .other ⟨c, fwd⟩ ⟨stamped, fwd⟩ :=
      .tidy _ _ _ _ _ (env.ms c.out) _ _ id (.inr rfl)
    refine .head hstamp (.single ?_)
    simpa [writeAck, writeOrClose_eq, Conn.wrote, Conn.emit, stamped] using hmove
  · exact .refl

theorem Acts.monitorEvents (env : Env) : Acts dial .other ⟨c, fwd⟩ ⟨(monitorEvents env c).2.2, fwd⟩ := by
  unfold Engine.monitorEvents
  split
  · exact .refl
  split
  next hstate =>
    have hkeep : Acts dial .other ⟨c, fwd⟩
        ⟨if getSendWindow c.tcp > 0 then c else Engine.keepAlive env c, fwd⟩ := by
      split
      · exact .refl
      · exact Acts.keepAlive hstate
    apply hkeep.trans
    simp only
    generalize (if getSendWindow c.tcp > 0 then c else Engine.keepAlive env c) = d
    cases d.tcp.forward with
    | nil => exact .refl
    | cons seg rest => exact .single (.quiet _ rfl trivial)
  next => exact .refl

theorem Acts.monitorTcpSession : Acts dial .other ⟨c, fwd⟩ ⟨(monitorTcpSession env c).1, fwd⟩ := by
  unfold Engine.monitorTcpSession
  apply (Acts.monitorEvents env).trans
  obtain ⟨events, recheck, d⟩ := Engine.monitorEvents env c
  simp only
  split
  · have hchange : Acts dial .other ⟨d, fwd⟩
        ⟨{ d.emit (.epollCtl d.socket events (env.epollCtl d.out)) with events := events }, fwd⟩ :=
      .head (.quiet (.epollCtl d.socket events (env.epollCtl d.out)) rfl trivial) (.single (.tidy _ _ _ _ _ _ _ events id (.inr rfl)))
    cases hok : env.epollCtl d.out
    · rw [hok] at hchange
      exact hchange.tail .abort
    · rw [hok] at hchange
      exact hchange
  · exact .refl

theorem Acts.closeSession (env : Env) : Acts dial .other ⟨c, fwd⟩ ⟨closeSession env c, fwd⟩ := by
  unfold Engine.closeSession
  split
  next hstate =>
    have hclose : Acts dial .other ⟨c, fwd⟩
        ⟨if c.socket ≥ 0 then { c.emit (.close c.socket) with socket := -1 } else c, fwd⟩ := by
      split
      · exact .single (.close rfl hstate)
      · exact .refl
    have hclosing : (if c.socket ≥ 0 then
        ({ c.emit (.close c.socket) with socket := -1 } : Conn) else c).tcp.state = .closing := by
      split <;> exact hstate
    have hshut : (if c.socket ≥ 0 then
        ({ c.emit (.close c.socket) with socket := -1 } : Conn) else c).socket < 0 := by
      split
      · exact Int.negSucc_lt_zero 0
      next hopen => exact Int.not_le.mp hopen
    exact (hclose.tail (.closed rfl hclosing hshut)).tail (.tidy _ _ _ _ _ _ _ _ id (.inr rfl))
  next => exact .refl

theorem Acts.checkTcpSession {sessions maxsessions : Int} :
    Acts dial .other ⟨c, fwd⟩ ⟨(checkTcpSession env sessions maxsessions c).1, fwd⟩ := by
  unfold Engine.checkTcpSession
  simp only
  generalize getTcpTimeout c.tcp sessions maxsessions = timeout
  have hidle : Acts dial .other ⟨c, fwd⟩
      ⟨if c.tcp.state ≠ .closing ∧ c.tcp.state ≠ .close ∧ c.tcp.time + timeout < env.time c.out then
        if c.tcp.state = .listen then c.setState .closing else Engine.writeRst env c
      else c, fwd⟩ := by
    split
    · split
      · exact .single .abort
      · exact Acts.writeRst
    · exact .refl
  apply (hidle.trans (Acts.closeSession env)).trans
  generalize (if c.tcp.state ≠ .closing ∧ c.tcp.state ≠ .close ∧
      c.tcp.time + timeout < env.time c.out then
    if c.tcp.state = .listen then c.setState .closing else Engine.writeRst env c
    else c) = idle
  generalize Engine.closeSession env idle = closed
  split
  · exact .single (.tidy _ _ _ _ _ _ _ _ id (.inr rfl))
  · exact .refl

theorem Acts.checkTcpAllowed : Acts dial .other ⟨c, fwd⟩ ⟨checkTcpAllowed env args c, fwd⟩ := by
  unfold Engine.checkTcpAllowed
  split
  · exact .refl
  · simp only
    split
    · exact .single (.quiet _ rfl trivial)
    · exact .head (.quiet (.upcall (.isAddressAllowed c.tcp.query c.tcp.uid)) rfl trivial) Acts.writeRst

end Monitor

def TcpEvent.cause : TcpEvent → Cause
  | .segment tcphdr data _ allowed =>
    if allowed && !tcphdr.urg then .segment ⟨tcphdr, data⟩ else .other
  | .socket ev => ev.cause
  | _ => .other

/-- The event goes on with the handshake: its socket is ready, without error, in `LISTEN`. -/
def TcpEvent.Dials (e : TcpEvent) (c : Conn) : Prop :=
  c.tcp.state = .listen ∧ ∃ ev, e = .socket ev ∧ ev.epollErr = false

theorem Acts.handle (e : TcpEvent) (hdial : e.Dials c → dial)
    (hsocks : c.tcp.state = .listen → c.tcp.socks5 ≠ .connected) :
    Acts dial e.cause ⟨c, false⟩ ⟨e.handle env args c, false⟩ := by
  cases e with
  | segment tcphdr data uid allowed =>
    by_cases hurg : tcphdr.urg = true
    · simp only [TcpEvent.handle, hurg, if_true]
      exact .refl
    · simpa [TcpEvent.handle, TcpEvent.cause, hurg] using
        Acts.handleSegment tcphdr data uid allowed
  | socket ev => exact Acts.checkTcpSocket (fun hstate herr => hdial ⟨hstate, ev, rfl, herr⟩) hsocks
  | monitor =>
    simp only [TcpEvent.handle]
    split
    · exact Acts.monitorTcpSession
    · exact .refl
  | sweep sessions maxsessions => exact Acts.checkTcpSession
  | recheck => exact Acts.checkTcpAllowed

theorem Acts.step (args : Arguments) (e : Env × TcpEvent) (hdial : e.2.Dials c → dial)
    (hsocks : c.tcp.state = .listen → c.tcp.socks5 ≠ .connected) :
    Acts dial e.2.cause ⟨c, false⟩ ⟨c.step args e, false⟩ := by
  have hacts : Acts dial e.2.cause ⟨{ c with out := [] }, false⟩
      ⟨e.2.handle e.1 args { c with out := [] }, false⟩ := Acts.handle e.2 hdial hsocks
  have h := Acts.after c.out hacts
  simpa [Stage.after, Conn.after, Conn.step] using h

theorem Moves.step (args : Arguments) (e : Env × TcpEvent)
    (hsocks : c.tcp.state = .listen → c.tcp.socks5 ≠ .connected) :
    Moves e.2.cause ⟨c, false⟩ ⟨c.step args e, false⟩ :=
  Acts.step args e (fun _ => trivial) hsocks

end NetGuard.Engine
