import NetGuard.Tcp.Queue

/-! # What the engine acknowledges to the app

Every number an acknowledgement covers is the SYN's, that of a byte the server's socket
has accepted, or that of a FIN of the app, as long as a FIN is taken only where the data
received so far ends. The handler itself does not look at the number of a FIN.
-/
namespace NetGuard.Engine
open Serial

variable {args : Arguments} {c : Conn} {isn : UInt32} {past : List (Env × TcpEvent)}

section Delivered

/-- The output handed the byte with the number `s` to the server's socket. -/
def Output.Accepts (s : UInt32) : Output → Prop
  | .send _ seq _ (some n) => ∃ i < n, s = shift seq i
  | _ => False

def Trace.Accepts (out : Trace) (s : UInt32) : Prop := ∃ o ∈ out, o.Accepts s

theorem Trace.Accepts.append {out : Trace} {s : UInt32} (h : out.Accepts s) (os : Trace) :
    Trace.Accepts (out ++ os) s := by
  obtain ⟨o, ho, hs⟩ := h
  exact ⟨o, by simp [ho], hs⟩

def Arrival.finSeq (seg : Arrival) : UInt32 := shift seg.tcphdr.seq seg.data.val.length

/-- The app has sent a FIN with the number `s`. -/
def FinSent (past : List (Env × TcpEvent)) (s : UInt32) : Prop :=
  ∃ e ∈ past, ∃ seg, e.2.cause = .segment seg ∧ seg.tcphdr.fin = true ∧ s = seg.finSeq

theorem FinSent.append {s : UInt32} (h : FinSent past s) (es : List (Env × TcpEvent)) :
    FinSent (past ++ es) s := by
  obtain ⟨e, he, hseg⟩ := h
  exact ⟨e, by simp [he], hseg⟩

/-- The number `s` is the SYN's, an accepted byte's or a FIN's. -/
def Delivered (isn : UInt32) (past : List (Env × TcpEvent)) (out : Trace) (s : UInt32) : Prop :=
  s = isn ∨ out.Accepts s ∨ FinSent past s

theorem Delivered.append {out : Trace} {s : UInt32} (h : Delivered isn past out s) (os : Trace) :
    Delivered isn past (out ++ os) s := by
  rcases h with h | h | h
  · exact .inl h
  · exact .inr (.inl (h.append os))
  · exact .inr (.inr h)

theorem Delivered.later {out : Trace} {s : UInt32} (h : Delivered isn past out s)
    (es : List (Env × TcpEvent)) : Delivered isn (past ++ es) out s := by
  rcases h with h | h | h
  · exact .inl h
  · exact .inr (.inl h)
  · exact .inr (.inr (h.append es))

/-- A segment with the ACK flag acknowledges only what was delivered before it. -/
def Output.AcksDelivered (isn : UInt32) (past : List (Env × TcpEvent)) (pre : Trace) :
    Output → Prop
  | .tun (.tcp cur _ _ true _ _) _ =>
    ∀ s, ahead isn s < ahead isn cur.remoteSeq → Delivered isn past pre s
  | _ => True

theorem Output.AcksDelivered.later {pre : Trace} {o : Output} (h : o.AcksDelivered isn past pre)
    (es : List (Env × TcpEvent)) : o.AcksDelivered isn (past ++ es) pre := by
  unfold Output.AcksDelivered at h ⊢
  split
  · intro s hs
    exact (h s hs).later es
  · trivial

theorem Output.acksDelivered_close (fd : Int) (pre : Trace) :
    Output.AcksDelivered isn past pre (.close fd) := trivial

theorem Output.acksDelivered_of_quiet {o : Output} (h : o.quiet = true) (pre : Trace) :
    o.AcksDelivered isn past pre := by
  cases o with
  | tun packet written => simp [Output.quiet] at h
  | _ => trivial

theorem Output.acksDelivered_of_opening {o : Output} (h : o.opening = true) (pre : Trace) :
    o.AcksDelivered isn past pre := by
  cases o with
  | tun packet written => simp [Output.opening] at h
  | _ => trivial

/-- Everything before the number `r` is delivered; counted from the SYN it is the `N`-th. -/
structure Reaches (isn : UInt32) (past : List (Env × TcpEvent)) (out : Trace) (r : UInt32)
    (N : ℕ) : Prop where
  number : r = shift isn N
  delivered : ∀ k < N, Delivered isn past out (shift isn k)

namespace Reaches
variable {out : Trace} {r : UInt32} {N : ℕ}

theorem append (h : Reaches isn past out r N) (os : Trace) : Reaches isn past (out ++ os) r N :=
  ⟨h.number, fun k hk => (h.delivered k hk).append os⟩

theorem count (h : Reaches isn past out r N) (hr : Delivered isn past out r) :
    Reaches isn past out (r + 1) (N + 1) := by
  refine ⟨?_, ?_⟩
  · rw [h.number, ← shift_add]
    rfl
  · intro k hk
    rcases Nat.lt_succ_iff_lt_or_eq.mp hk with hlt | rfl
    · exact h.delivered k hlt
    · exact h.number ▸ hr

theorem advance (h : Reaches isn past out r N) (len : ℕ) (hr : ∀ i < len, out.Accepts (shift r i)) :
    Reaches isn past out (shift r len) (N + len) := by
  refine ⟨by rw [h.number, shift_add], ?_⟩
  intro k hk
  rcases Nat.lt_or_ge k N with hlt | hge
  · exact h.delivered k hlt
  · have haccepts := hr (k - N) (by omega)
    rw [h.number, shift_add, Nat.add_sub_cancel' hge] at haccepts
    exact .inr (.inl haccepts)

theorem acks (h : Reaches isn past out r N) {c : TcpSession}
    (hcur : c.remoteSeq = r ∨ (0 < N ∧ c.remoteSeq = r - 1)) (data : List UInt8)
    (syn ack fin rst written : Bool) :
    Output.AcksDelivered isn past out (.tun (.tcp c data syn ack fin rst) written) := by
  cases ack with
  | false => trivial
  | true =>
    intro s hs
    obtain ⟨M, hM, hcur⟩ : ∃ M ≤ N, c.remoteSeq = shift isn M := by
      rcases hcur with hcur | ⟨hpos, hcur⟩
      · exact ⟨N, Nat.le_refl N, hcur.trans h.number⟩
      · refine ⟨N - 1, Nat.sub_le N 1, ?_⟩
        have hisn := isn.toNat_lt
        rw [hcur, h.number]
        apply UInt32.toNat_inj.mp
        simp only [UInt32.toNat_sub, UInt32.toNat_one, shift_toNat]
        omega
    have hdelivered := h.delivered (ahead isn s) (by
      rw [hcur, ahead_shift] at hs
      have hmod := Nat.mod_le M (2 ^ 32)
      omega)
    rwa [shift_ahead] at hdelivered

end Reaches

end Delivered

section End
variable {seq : UInt32} {psh : Bool} {data : Payload} {queue : List Segment}

/-- Where the received data ends: behind the last queued segment, or at `r` without one. -/
def queueEnd (r : UInt32) : List Segment → UInt32
  | [] => r
  | g :: rest => queueEnd (shift g.seq g.data.val.length) rest

theorem queueEnd_placeSegment (seq : UInt32) (psh : Bool) (data : Payload) (queue : List Segment)
    (r : UInt32) :
    queueEnd r (placeSegment seq psh data queue) = queueEnd r queue ∨
      queueEnd r (placeSegment seq psh data queue) = shift seq data.val.length := by
  induction queue generalizing r with
  | nil => exact .inr rfl
  | cons s rest ih =>
    simp only [placeSegment]
    split
    · exact ih (shift s.seq s.data.val.length)
    split
    · exact .inl rfl
    split
    next heq =>
      cases rest with
      | nil => exact .inr (by rw [← heq.1]; rfl)
      | cons next rest => exact .inl rfl
    · exact .inl rfl

theorem queueEnd_placeSegment_last (hbefore : ∀ s ∈ queue.dropLast, compareU32 s.seq seq < 0)
    (hlast : ∀ s ∈ queue.getLast?, compareU32 s.seq seq ≤ 0) (r : UInt32) :
    queueEnd r (placeSegment seq psh data queue) = shift seq data.val.length := by
  induction queue generalizing r with
  | nil => rfl
  | cons s rest ih =>
    cases rest with
    | nil =>
      have hle := hlast s (by simp)
      simp only [placeSegment]
      split
      · rfl
      next hlt =>
        have hseq : s.seq = seq := by
          by_contra hne
          have hpos := compareU32_pos_iff.mpr ⟨hne, hlt⟩
          omega
        rw [if_neg (Int.not_lt.mpr hle)]
        split
        · simp only [queueEnd, hseq]
        next hsame =>
          have hlen : s.data.val.length = data.val.length := by simpa [hseq] using hsame
          simp only [queueEnd, hseq, hlen]
    | cons next rest =>
      have hlt := hbefore s (by simp)
      rw [placeSegment, if_pos hlt]
      exact ih (fun g hg => hbefore g (by simp [hg])) (fun g hg => hlast g (by simpa using hg)) _

end End

/-- The data of the segment goes to the end of the forward list. -/
def Arrival.GoesLast (seg : Arrival) (c : Conn) : Prop :=
  seg.Queues c ∧ (∀ g ∈ c.tcp.forward.dropLast, compareU32 g.seq seg.tcphdr.seq < 0) ∧
    ∀ g ∈ c.tcp.forward.getLast?, compareU32 g.seq seg.tcphdr.seq ≤ 0

/-- A FIN that is acted on comes where the received data ends, the segment's own included. -/
def Arrival.FinInPlace (seg : Arrival) (c : Conn) : Prop :=
  seg.FinTaken c → (seg.data.val = [] ∨ 0 ≤ c.socket) →
    (c.tcp.state = .established → seg.finSeq = queueEnd c.tcp.remoteSeq c.tcp.forward ∨
      seg.GoesLast c) ∧
    (c.tcp.state = .finWait1 → seg.finSeq = c.tcp.remoteSeq)

section InPlace
variable {seg : Arrival} {d : Conn}

theorem Arrival.FinInPlace.reached (hplace : seg.FinInPlace d) (hr : seg.Reached d c)
    (hfin : seg.FinTaken c) (hadmitted : seg.Admitted c) :
    (c.tcp.state = .established → seg.finSeq = queueEnd d.tcp.remoteSeq d.tcp.forward ∨
      seg.GoesLast d) ∧ (c.tcp.state = .finWait1 → seg.finSeq = c.tcp.remoteSeq) := by
  have hstate : c.tcp.state = d.tcp.state := by
    rcases hr.state with hsame | ⟨hnofin, -, -⟩
    · exact hsame
    · simp [hfin.1] at hnofin
  have htaken : seg.FinTaken d := by
    obtain ⟨h1, h2, h3, h4⟩ := hfin
    exact ⟨h1, h2, h3, hr.localSeq ▸ h4⟩
  have hsocket : seg.data.val = [] ∨ 0 ≤ d.socket := by
    rcases hadmitted with hdata | ⟨hsocket, -⟩
    · exact .inl hdata
    · exact .inr (hr.socket ▸ hsocket)
  rw [hstate, hr.remoteSeq]
  exact hplace htaken hsocket

theorem Arrival.finSeq_eq_queueEnd (hr : seg.Reached d c) (hadmitted : seg.Admitted c)
    (hplace : seg.finSeq = queueEnd d.tcp.remoteSeq d.tcp.forward ∨ seg.GoesLast d) :
    seg.finSeq = queueEnd c.tcp.remoteSeq c.tcp.forward := by
  have hsame (hforward : c.tcp.forward = d.tcp.forward) (hold : ¬ seg.Queues d) :
      seg.finSeq = queueEnd c.tcp.remoteSeq c.tcp.forward := by
    rw [hforward, hr.remoteSeq]
    rcases hplace with hend | hlast
    · exact hend
    · exact absurd hlast.1 hold
  by_cases hdata : seg.data.val = []
  · rcases hr.forward with hforward | ⟨hne, -⟩
    · exact hsame hforward fun hqueues => hqueues.data hdata
    · exact absurd hdata hne
  have hforward : c.tcp.forward = (queueTcp d.tcp seg.tcphdr seg.data).forward := by
    rcases hadmitted with hnone | ⟨-, hsettled⟩
    · exact absurd hnone hdata
    · rw [← hr.queued, hsettled]
  by_cases hold : compareU32 seg.tcphdr.seq d.tcp.remoteSeq < 0
  · refine hsame ?_ fun hqueues => hqueues.fresh hold
    rw [hforward, queueTcp, if_pos hold]
  rw [hforward, queueTcp, if_neg hold, hr.remoteSeq]
  rcases hplace with hend | ⟨-, hbefore, hlast⟩
  · rcases queueEnd_placeSegment seg.tcphdr.seq seg.tcphdr.psh seg.data d.tcp.forward
      d.tcp.remoteSeq with hkept | hnew
    · exact hend.trans hkept.symm
    · exact hnew.symm
  · exact (queueEnd_placeSegment_last hbefore hlast d.tcp.remoteSeq).symm

end InPlace

def TcpState.Counted (state : TcpState) : Prop :=
  state = .synRecv ∨ state = .established ∨ state = .closeWait

/-- What holds within a handler: how far `remote_seq` reaches, which bytes of the queue
were sent, and where the FIN is that waits for the queue to drain. -/
structure Acknowledged (isn : UInt32) (past : List (Env × TcpEvent)) (s : Stage) : Prop where
  reach : ∃ N, Reaches isn past s.conn.out s.conn.tcp.remoteSeq N ∧
    (s.conn.tcp.state = .listen → N = 0) ∧ (s.conn.tcp.state.Counted → 0 < N)
  sent : ∀ g ∈ s.conn.tcp.forward, ∀ i < g.sent.toNat, s.conn.out.Accepts (shift g.seq i)
  fin : s.conn.tcp.state = .closeWait → (s.fwd = true ∨ s.conn.tcp.forward ≠ []) →
    FinSent past (queueEnd s.conn.tcp.remoteSeq s.conn.tcp.forward)
  acks : Run.Timed (Output.AcksDelivered isn past) s.conn.out

theorem Acknowledged.later {s : Stage} (h : Acknowledged isn past s) (es : List (Env × TcpEvent)) :
    Acknowledged isn (past ++ es) s := by
  obtain ⟨⟨N, hN, hflags⟩, hsent, hfin, hacks⟩ := h
  refine ⟨⟨N, ⟨hN.number, fun k hk => (hN.delivered k hk).later es⟩, hflags⟩, hsent,
    fun hclose hwaits => (hfin hclose hwaits).append es, ?_⟩
  exact hacks.mono fun pre o ho => ho.later es

theorem Acknowledged.extend {s t : Stage} (hs : Acknowledged isn past s) (os : Trace)
    (hout : t.conn.out = s.conn.out ++ os)
    (hacks : Run.Timed (Output.AcksDelivered isn past) (s.conn.out ++ os))
    (hforward : t.conn.tcp.forward = s.conn.tcp.forward)
    (hreach : ∃ N, Reaches isn past s.conn.out t.conn.tcp.remoteSeq N ∧
      (t.conn.tcp.state = .listen → N = 0) ∧ (t.conn.tcp.state.Counted → 0 < N))
    (hfin : t.conn.tcp.state = .closeWait → (t.fwd = true ∨ t.conn.tcp.forward ≠ []) →
      FinSent past (queueEnd t.conn.tcp.remoteSeq t.conn.tcp.forward)) : Acknowledged isn past t := by
  obtain ⟨N, hN, hflags⟩ := hreach
  refine ⟨⟨N, hout ▸ hN.append os, hflags⟩, ?_, hfin, hout ▸ hacks⟩
  intro g hg i hi
  rw [hout]
  exact (hs.sent g (hforward ▸ hg) i hi).append os

def Seen (past : List (Env × TcpEvent)) (a : Cause) (s : Stage) : Prop :=
  ∀ seg, a = .segment seg → s.fwd = false ∧ ∃ e ∈ past, e.2.cause = .segment seg

theorem Seen.finSent {a : Cause} {s : Stage} {seg : Arrival} (h : Seen past a s)
    (ha : a = .segment seg) (hfin : seg.FinTaken c) : FinSent past seg.finSeq := by
  obtain ⟨-, e, he, hcause⟩ := h seg ha
  exact ⟨e, he, seg, hcause, hfin.1, rfl⟩

theorem Move.seen {a : Cause} {s t : Stage} (h : Move a s t) (hs : Seen past a s) :
    Seen past a t := by
  intro seg ha
  obtain ⟨hfwd, hpast⟩ := hs seg ha
  refine ⟨?_, hpast⟩
  cases h with
  | send ha' => simp [ha'] at ha
  | confirmFin => rfl
  | ack => rfl
  | _ => exact hfwd

theorem Acknowledged.send {fwd : Bool} {seg : Segment} {rest : List Segment} {n : ℕ}
    (hs : Acknowledged isn past ⟨c, fwd⟩) (hforward : c.tcp.forward = seg :: rest)
    (hseq : seg.seq = c.tcp.remoteSeq) (hn : seg.sent.toNat + n ≤ seg.data.val.length)
    (hlisten : c.tcp.state ≠ .listen) (sent : UInt64) :
    Acknowledged isn past ⟨{ c.emit (.send c.socket (seg.seq + seg.sent.toUInt32)
          (seg.data.val.drop seg.sent.toNat) (some n)) with
        tcp.sent := sent
        tcp.remoteSeq := if seg.sent.toNat + n = seg.data.val.length
          then c.tcp.remoteSeq + seg.len.toUInt32 else c.tcp.remoteSeq
        tcp.forward := if seg.sent.toNat + n = seg.data.val.length
          then rest else { seg with sent := seg.sent + UInt16.ofNat n } :: rest }, true⟩ := by
  obtain ⟨⟨N, hN, -, hopen⟩, hsent, hfin, hacks⟩ := hs
  dsimp only at hN hopen hsent hfin hacks
  rw [hforward] at hsent hfin
  let o : Output := .send c.socket (seg.seq + seg.sent.toUInt32)
    (seg.data.val.drop seg.sent.toNat) (some n)
  have hnow (i : ℕ) (hi : i < seg.sent.toNat + n) :
      Trace.Accepts (c.out ++ [o]) (shift seg.seq i) := by
    rcases Nat.lt_or_ge i seg.sent.toNat with hlt | hge
    · exact (hsent seg (by simp) i hlt).append [o]
    · refine ⟨o, by simp, i - seg.sent.toNat, by omega, ?_⟩
      rw [shift_toUInt32, shift_add, Nat.add_sub_cancel' hge]
  have hrest : ∀ g ∈ rest, ∀ i < g.sent.toNat, Trace.Accepts (c.out ++ [o]) (shift g.seq i) :=
    fun g hg i hi => (hsent g (by simp [hg]) i hi).append [o]
  have hacks' : Run.Timed (Output.AcksDelivered isn past) (c.out ++ [o]) := hacks.snoc trivial
  have hfin' (h : c.tcp.state = .closeWait) :
      FinSent past (queueEnd (shift seg.seq seg.data.val.length) rest) := hfin h (.inr (by simp))
  by_cases hdone : seg.sent.toNat + n = seg.data.val.length
  · have hreach := (hN.append [o]).advance seg.data.val.length
      (fun i hi => hseq ▸ hnow i (by omega))
    have hnext : c.tcp.remoteSeq + seg.len.toUInt32 = shift seg.seq seg.data.val.length := by
      rw [Segment.add_len, hseq]
    rw [← hseq, ← hnext] at hreach
    rw [← hnext] at hfin'
    simp only [hdone, if_true]
    refine ⟨⟨_, hreach, fun h => absurd h hlisten, ?_⟩, hrest, fun h _ => hfin' h, hacks'⟩
    intro h
    exact Nat.add_pos_left (hopen h) _
  · have hlen := seg.data.property
    have hnew : (seg.sent + UInt16.ofNat n).toNat = seg.sent.toNat + n := by
      rw [UInt16.toNat_add, UInt16.toNat_ofNat']
      omega
    simp only [hdone, if_false]
    refine ⟨⟨N, hN.append [o], fun h => absurd h hlisten, hopen⟩, ?_,
      fun h _ => hfin' h, hacks'⟩
    intro g hg i hi
    rcases List.mem_cons.mp hg with rfl | hg
    · exact hnow i (hnew ▸ hi)
    · exact hrest g hg i hi

theorem Move.acknowledged {a : Cause} {s t : Stage} (h : Move a s t) (hseen : Seen past a s)
    (hunder : a.Under Arrival.FinInPlace s.conn) (hs : Acknowledged isn past s) :
    Acknowledged isn past t := by
  obtain ⟨N, hN, hlisten, hopen⟩ := hs.reach
  cases h with
  | quiet o ho =>
    exact hs.extend _ rfl (hs.acks.snoc (Output.acksDelivered_of_quiet ho _)) rfl
      ⟨N, hN, hlisten, hopen⟩ hs.fin
  | @queue c fwd seg ha hdata hsocket hstate =>
    rw [queueTcp_eq]
    refine ⟨⟨N, hN, hlisten, hopen⟩, ?_, fun h => absurd h hstate.1, hs.acks⟩
    intro g hg i hi
    dsimp only at hg
    split at hg
    · exact hs.sent g hg i hi
    · rcases mem_placeSegment hg with hg | rfl | ⟨old, hold, -, rfl⟩
      · exact hs.sent g hg i hi
      · simp at hi
      · exact hs.sent old hold i hi
  | abort =>
    exact ⟨⟨N, hN, by simp, by simp [TcpState.Counted]⟩, hs.sent, by simp, hs.acks⟩
  | @reset c fwd written =>
    obtain ⟨M, hM⟩ : ∃ M, Reaches isn past c.out (countSyn c).tcp.remoteSeq M := by
      by_cases hnow : c.tcp.state = .listen
      · obtain rfl := hlisten hnow
        refine ⟨1, ?_⟩
        simpa [hnow] using hN.count (.inl (by simpa using hN.number))
      · exact ⟨N, by simpa [hnow] using hN⟩
    let rst : Output :=
      .tun (.tcp (countSyn c).tcp [] false (c.tcp.state == .listen) false true) written
    refine hs.extend [rst] (by simp [rst]) (hs.acks.snoc (hM.acks (.inl rfl) _ _ _ _ _ _)) (by simp)
      ⟨M, by simpa using hM, ?_, ?_⟩ ?_ <;>
      by_cases hclose : c.tcp.state = .close <;> simp [hclose, TcpState.Counted]
  | @countFin c fwd seg ha hfin hadmitted hstate hforward written =>
    obtain ⟨d, hplace, hr⟩ := hunder seg ha (by simp [TcpState.Taking, hstate])
    have hend := Arrival.finSeq_eq_queueEnd hr hadmitted
      ((hplace.reached hr hfin hadmitted).1 hstate)
    rw [hforward] at hend
    have hcounted := hseen.finSent ha hfin
    rw [hend] at hcounted
    have hnext := hN.count (.inr (.inr hcounted))
    refine hs.extend _ rfl (hs.acks.snoc (hnext.acks (.inl rfl) _ _ _ _ _ _)) rfl
      ⟨N + 1, hnext, ?_, fun _ => Nat.succ_pos N⟩ ?_
    · cases written <;> simp
    · intro _ hwaits
      have hfwd : fwd = false := (hseen seg ha).1
      simp [hfwd, hforward] at hwaits
  | @holdFin c fwd seg ha hfin hadmitted hstate hforward =>
    obtain ⟨d, hplace, hr⟩ := hunder seg ha (by simp [TcpState.Taking, hstate])
    have hend := Arrival.finSeq_eq_queueEnd hr hadmitted
      ((hplace.reached hr hfin hadmitted).1 hstate)
    exact ⟨⟨N, hN, by simp, fun _ => hopen (.inr (.inl hstate))⟩, hs.sent,
      fun _ _ => hend ▸ hseen.finSent ha hfin, hs.acks⟩
  | @lastFin c fwd seg ha hfin hadmitted hstate written =>
    obtain ⟨d, hplace, hr⟩ := hunder seg ha (by simp [TcpState.Taking, hstate])
    have hend := (hplace.reached hr hfin hadmitted).2 hstate
    have hnext := hN.count (.inr (.inr (hend ▸ hseen.finSent ha hfin)))
    refine hs.extend _ rfl (hs.acks.snoc (hnext.acks (.inl rfl) _ _ _ _ _ _)) rfl ⟨N + 1, hnext, ?_, ?_⟩ ?_ <;>
      cases written <;> simp
  | @ackAll c fwd seg ha hfin hack state hstate =>
    rcases hstate with rfl | ⟨hold, rfl⟩ | ⟨_, rfl⟩
    · exact ⟨⟨N, hN, hlisten, hopen⟩, hs.sent, hs.fin, hs.acks⟩
    · exact ⟨⟨N, hN, by simp, fun _ => hopen (.inl hold)⟩, hs.sent, by simp, hs.acks⟩
    · exact ⟨⟨N, hN, by simp, by simp [TcpState.Counted]⟩, hs.sent, by simp, hs.acks⟩
  | @synAck c fwd ha hstate time written =>
    obtain rfl := hlisten hstate
    have hnext := hN.count (.inl (by simpa using hN.number))
    refine hs.extend _ rfl (hs.acks.snoc (hnext.acks (.inl rfl) _ _ _ _ _ _)) rfl
      ⟨1, hnext, ?_, fun _ => Nat.one_pos⟩ ?_ <;> cases written <;> simp
  | @send c fwd seg rest ha n hforward hseq hsent hn hnot sent =>
    exact hs.send hforward hseq hn hnot sent
  | @confirmFin c ha hstate hforward written =>
    have hfin := hs.fin hstate (.inl rfl)
    dsimp only at hfin
    rw [hforward] at hfin
    have hnext := hN.count (.inr (.inr hfin))
    refine hs.extend _ rfl (hs.acks.snoc (hnext.acks (.inl rfl) _ _ _ _ _ _)) rfl
      ⟨N + 1, hnext, ?_, fun _ => Nat.succ_pos N⟩ ?_
    · cases written <;> simp [hstate]
    · intro _ hwaits
      simp [hforward] at hwaits
  | @ack c fwd ha hforward hnot written =>
    have hacks := hs.acks.snoc (hN.acks (.inl rfl) [] false true false false written)
    cases written with
    | false =>
      exact hs.extend _ rfl hacks rfl ⟨N, hN, by simp, by simp [TcpState.Counted]⟩ (by simp)
    | true =>
      refine hs.extend _ rfl hacks rfl ⟨N, hN, hlisten, hopen⟩ ?_
      intro hclose hwaits
      exact hs.fin hclose (.inr (by simpa using hwaits))
  | @keepAlive c fwd ha hstate written =>
    have hpos := hopen (.inr hstate)
    let kept : TcpSession := { c.tcp with remoteSeq := c.tcp.remoteSeq - 1 }
    have hacks := hs.acks.snoc (hN.acks (c := kept) (.inr ⟨hpos, rfl⟩) [] false true false false
      written)
    cases written with
    | false =>
      exact hs.extend _ rfl hacks rfl ⟨N, hN, by simp, by simp [TcpState.Counted]⟩ (by simp)
    | true => exact hs.extend _ rfl hacks rfl ⟨N, hN, hlisten, hopen⟩ hs.fin
  | @data c fwd ha hstate bytes hbytes hsize dns hdns written =>
    let segment : Output := .tun (.tcp c.tcp bytes false true false false) written
    have hread : Run.Timed (Output.AcksDelivered isn past) (c.out ++ .recv c.socket bytes :: dns) :=
        hs.acks.append (by
      rintro o ho pre
      rcases List.mem_cons.mp ho with rfl | ho
      · trivial
      · exact Output.acksDelivered_of_quiet (hdns o ho) pre)
    have hacks : Run.Timed (Output.AcksDelivered isn past)
        (c.out ++ (.recv c.socket bytes :: dns ++ [segment])) := by
      rw [← List.append_assoc]
      exact hread.snoc ((hN.append _).acks (.inl rfl) _ _ _ _ _ _)
    cases written with
    | false =>
      exact hs.extend _ (by simp [segment]) hacks rfl ⟨N, hN, by simp, by simp [TcpState.Counted]⟩
        (by simp)
    | true => exact hs.extend _ (by simp [segment]) hacks rfl ⟨N, hN, hlisten, hopen⟩ hs.fin
  | @fin c fwd ha hstate hforward written state hnext =>
    let finAck : Output := .tun (.tcp c.tcp [] false true true false) written
    have hacks : Run.Timed (Output.AcksDelivered isn past)
        (c.out ++ [finAck, .close c.socket]) := by
      have hfin := hs.acks.snoc (hN.acks (.inl rfl) [] false true true false written)
      simpa [finAck] using hfin.snoc (Output.acksDelivered_close c.socket _)
    refine hs.extend _ (by simp [finAck]) hacks rfl ⟨N, hN, ?_, ?_⟩ ?_ <;>
      rcases hnext with ⟨_, rfl⟩ | ⟨_, _, rfl⟩ | ⟨_, _, rfl⟩ <;> simp [TcpState.Counted]
  | @close c fwd ha hstate =>
    have hacks := hs.acks.snoc (Output.acksDelivered_close c.socket _)
    exact hs.extend _ rfl hacks rfl ⟨N, hN, hlisten, hopen⟩ hs.fin
  | closed ha hstate =>
    exact ⟨⟨N, hN, by simp, by simp [TcpState.Counted]⟩, hs.sent, by simp, hs.acks⟩
  | _ => exact ⟨⟨N, hN, hlisten, hopen⟩, hs.sent, hs.fin, hs.acks⟩

theorem Syn.Listening.acknowledged {syn : Syn} (h : syn.Listening c) :
    Acknowledged syn.tcphdr.seq [] ⟨c, false⟩ := by
  refine ⟨⟨0, ⟨by simpa using h.remoteSeq, by simp⟩, fun _ => rfl, ?_⟩, ?_, ?_, ?_⟩
  · simp [TcpState.Counted, h.state]
  · intro g hg i hi
    dsimp only at hg
    rw [h.forward] at hg
    split at hg
    · simp at hg
    · obtain rfl := List.mem_singleton.mp hg
      simp at hi
  · simp [h.state]
  · exact Run.Timed.of_forall fun o ho => Output.acksDelivered_of_opening (h.out o ho)

/-- As long as every FIN that is acted on comes where the received data ends, an
acknowledgement covers only the SYN, bytes that were accepted before it was written, and
FINs of the app. -/
theorem Syn.Opens.acks_delivered {syn : Syn} (hopens : syn.Opens args c)
    {es : List (Env × TcpEvent)}
    (hrun : Run.Along (Conn.step args)
      (fun c e => ∀ seg, e.2.cause = .segment seg → seg.FinInPlace c) c es)
    {pre post : Trace} {cur : TcpSession} {data : List UInt8} {sy fin rst written : Bool}
    (hout : (c.run args es).out = pre ++ .tun (.tcp cur data sy true fin rst) written :: post)
    {s : UInt32} (hs : ahead syn.tcphdr.seq s < ahead syn.tcphdr.seq cur.remoteSeq) :
    s = syn.tcphdr.seq ∨ pre.Accepts s ∨ FinSent es s := by
  have hinv := hopens.run_history
    (P := fun past c => Acknowledged syn.tcphdr.seq past ⟨c, false⟩)
    (Q := fun past a s => Seen past a s ∧ a.Under Arrival.FinInPlace s.conn ∧
      Acknowledged syn.tcphdr.seq past s)
    (fun _ _ _ _ hmove hs => ⟨hmove.seen hs.1, hmove.under hs.2.1,
      hmove.acknowledged hs.1 hs.2.1 hs.2.2⟩)
    (fun past c e hplace hs => ⟨fun seg ha => ⟨rfl, e, by simp, ha⟩, Cause.Under.start hplace,
      hs.later [e]⟩)
    (fun _ _ _ hs => hs.2.2)
    (fun _ hd => ⟨nofun, Cause.Under.start (by simp), hd.acknowledged⟩) hrun
  exact hinv.acks pre _ post hout s hs

/-- Three bytes and a FIN behind them, then the socket takes the bytes: the number after
the FIN's is acknowledged. -/
theorem acks_delivered_sample :
    let es := connected 100 ++ [(.calm, .app (.acks 101 1 1000) ⟨[1, 2, 3], by decide⟩),
      (.calm, .app { TcpHdr.acks 104 1 1000 with fin := true } ⟨[], by decide⟩),
      (.calm, .ready false true)]
    ∃ (pre post : Trace) (cur : TcpSession),
      ((Conn.sample 100 ⟨[], by decide⟩).run .direct es).out =
        pre ++ .tun (.tcp cur [] false true false false) true :: post ∧ cur.remoteSeq = 105 ∧
      ∀ s, ahead 100 s < 5 → s = 100 ∨ pre.Accepts s ∨ FinSent es s := by
  have hrun : Run.Along (Conn.step .direct)
      (fun c e => ∀ seg, e.2.cause = .segment seg → seg.FinInPlace c)
      (Conn.sample 100 ⟨[], by decide⟩)
      (connected 100 ++ [(.calm, .app (.acks 101 1 1000) ⟨[1, 2, 3], by decide⟩),
        (.calm, .app { TcpHdr.acks 104 1 1000 with fin := true } ⟨[], by decide⟩),
        (.calm, .ready false true)]) := by
    refine ⟨nofun, ?_, ?_, ?_, nofun, trivial⟩
    · rintro _ ⟨⟩ hfin
      exact absurd hfin.1 (by decide)
    · rintro _ ⟨⟩ hfin
      exact absurd hfin.1 (by decide)
    · rintro _ ⟨⟩ - -
      exact ⟨fun _ => .inl (by decide), nofun⟩
  have hout : ∃ cur : TcpSession, ((Conn.sample 100 ⟨[], by decide⟩).run .direct
      (connected 100 ++ [(.calm, .app (.acks 101 1 1000) ⟨[1, 2, 3], by decide⟩),
        (.calm, .app { TcpHdr.acks 104 1 1000 with fin := true } ⟨[], by decide⟩),
        (.calm, .ready false true)])).out[9]? =
        some (.tun (.tcp cur [] false true false false) true) ∧ cur.remoteSeq = 105 :=
    ⟨_, rfl, rfl⟩
  obtain ⟨cur, hcur, hremote⟩ := hout
  obtain ⟨hlt, hget⟩ := List.getElem?_eq_some_iff.mp hcur
  have hsplit := (List.take_append_drop 9 _).symm.trans
    (congrArg _ (List.drop_eq_getElem_cons hlt))
  rw [hget] at hsplit
  refine ⟨_, _, cur, hsplit, hremote, ?_⟩
  intro s hs
  have hdelivered := Syn.Opens.acks_delivered (Syn.sample_opens 100) hrun hsplit (s := s)
  exact hdelivered (by rw [hremote]; exact hs)

/-- A FIN that comes before ten missing bytes: the first of them is acknowledged. -/
theorem not_acks_delivered : ¬ ∀ (args : Arguments) (syn : Syn) (c : Conn)
    (es : List (Env × TcpEvent)) (pre post : Trace) (cur : TcpSession) (data : List UInt8)
    (sy fin rst written : Bool) (s : UInt32), syn.Opens args c →
      (c.run args es).out = pre ++ .tun (.tcp cur data sy true fin rst) written :: post →
      ahead syn.tcphdr.seq s < ahead syn.tcphdr.seq cur.remoteSeq →
      s = syn.tcphdr.seq ∨ pre.Accepts s ∨ FinSent es s := by
  intro h
  have hout : ∃ (pre : Trace) (cur : TcpSession), ((Conn.sample 100 ⟨[], by decide⟩).run .direct
      (connected 100 ++
        [(.calm, .app { TcpHdr.acks 111 1 1000 with fin := true } ⟨[], by decide⟩)])).out =
        pre ++ [.tun (.tcp cur [] false true false false) true] ∧ cur.remoteSeq = 102 ∧
        ∀ o ∈ pre, ¬ o.Accepts 101 := by
    refine ⟨(Conn.sample 100 ⟨[], by decide⟩).out ++ [.tun (.tcp _ [] true true false false) true], _,
      rfl, rfl, ?_⟩
    simp [Conn.sample, Output.Accepts]
  obtain ⟨pre, cur, hsplit, hremote, hnone⟩ := hout
  have hdelivered := h .direct (.sample 100 ⟨[], by decide⟩) _ _ pre [] cur [] false false false true
    101 (Syn.sample_opens 100) hsplit (by rw [hremote]; decide)
  rcases hdelivered with hsyn | ⟨o, ho, haccepts⟩ | ⟨e, he, seg, hcause, hfin, hseq⟩
  · exact absurd hsyn (by decide)
  · exact hnone o ho haccepts
  · simp only [connected, List.cons_append, List.nil_append, List.mem_cons, List.not_mem_nil,
      or_false] at he
    rcases he with rfl | rfl | rfl
    · cases hcause
    · obtain rfl := Cause.segment.inj hcause
      exact absurd hfin (by decide)
    · obtain rfl := Cause.segment.inj hcause
      exact absurd hseq (by decide)

end NetGuard.Engine
