import NetGuard.Loop.Calls
import NetGuard.Tcp.Order

/-! # Delivery of the forward list

A forward list without gaps empties: whatever else happens to the session, each time the
socket is reported writable and takes at least a byte, less of the list is left, and what
the server gets are the bytes of the list in their order.
-/
namespace NetGuard.Engine

section Pending

/-- The bytes of the list that are still to be sent. -/
def pending (queue : List Segment) : List UInt8 :=
  queue.flatMap fun g => g.data.val.drop g.sent.toNat

/-- The segments follow each other without a gap from `base` on, each with bytes to send. -/
def Contiguous : UInt32 → List Segment → Prop
  | _, [] => True
  | base, g :: rest =>
    g.seq = base ∧ g.sent.toNat < g.data.val.length ∧ Contiguous (base + g.len.toUInt32) rest

@[simp] theorem pending_nil : pending [] = [] := rfl

@[simp] theorem pending_cons (g : Segment) (rest : List Segment) :
    pending (g :: rest) = g.data.val.drop g.sent.toNat ++ pending rest := rfl

theorem Contiguous.pending_eq_nil {base : UInt32} {queue : List Segment}
    (h : Contiguous base queue) : pending queue = [] ↔ queue = [] := by
  constructor
  · intro hpending
    cases queue with
    | nil => rfl
    | cons g rest =>
      obtain ⟨-, hsent, -⟩ := h
      have hnone := (List.append_eq_nil_iff.mp hpending).1
      rw [List.drop_eq_nil_iff] at hnone
      omega
  · rintro rfl
    rfl

end Pending

section Conserved

/-- What the session has delivered and what it has yet to deliver make up the bytes. -/
structure Delivering (bytes : List UInt8) (c : Conn) : Prop where
  past : c.tcp.state ≠ .listen
  finished : c.tcp.state = .finWait1 → c.tcp.forward = []
  contiguous : Contiguous c.tcp.remoteSeq c.tcp.forward
  conserved : Trace.accepted c.out ++ pending c.tcp.forward = bytes

variable {bytes : List UInt8} {c d : Conn}

theorem Delivering.keep (h : Delivering bytes c) (hpast : d.tcp.state ≠ .listen)
    (hfinished : d.tcp.state = .finWait1 → c.tcp.state = .finWait1 ∨ c.tcp.forward = [])
    (hseq : d.tcp.remoteSeq = c.tcp.remoteSeq ∨ c.tcp.forward = [])
    (hforward : d.tcp.forward = c.tcp.forward)
    (haccepted : Trace.accepted d.out = Trace.accepted c.out) : Delivering bytes d where
  past := hpast
  finished hstate := by
    rw [hforward]
    exact (hfinished hstate).elim h.finished id
  contiguous := by
    rw [hforward]
    rcases hseq with hseq | hnone
    · rw [hseq]
      exact h.contiguous
    · rw [hnone]
      trivial
  conserved := by rw [haccepted, hforward, h.conserved]

theorem Delivering.send {seg : Segment} {rest : List Segment} {n : ℕ} (h : Delivering bytes c)
    (hforward : c.tcp.forward = seg :: rest)
    (hn : seg.sent.toNat + n ≤ seg.data.val.length) (sent : UInt64) :
    Delivering bytes { c.emit (.send c.socket (seg.seq + seg.sent.toUInt32)
        (seg.data.val.drop seg.sent.toNat) (some n)) with
      tcp.sent := sent
      tcp.remoteSeq := if seg.sent.toNat + n = seg.data.val.length
        then c.tcp.remoteSeq + seg.len.toUInt32 else c.tcp.remoteSeq
      tcp.forward := if seg.sent.toNat + n = seg.data.val.length
        then rest else { seg with sent := seg.sent + UInt16.ofNat n } :: rest } := by
  have hcontiguous := h.contiguous
  have hconserved := h.conserved
  rw [hforward] at hcontiguous hconserved
  obtain ⟨hseq, hsent, hrest⟩ := hcontiguous
  have hlen := seg.data.property
  have hsum : (seg.sent + UInt16.ofNat n).toNat = seg.sent.toNat + n := by
    rw [UInt16.toNat_add, UInt16.toNat_ofNat']
    omega
  have hfinished (hstate : c.tcp.state = .finWait1) : False := by
    have hnone := h.finished hstate
    rw [hforward] at hnone
    exact absurd hnone (List.cons_ne_nil _ _)
  have hsplit : (seg.data.val.drop seg.sent.toNat).take n ++ seg.data.val.drop (seg.sent.toNat + n) =
      seg.data.val.drop seg.sent.toNat := by
    rw [← List.drop_drop, List.take_append_drop]
  have hleft : (seg.data.val.drop seg.sent.toNat).take n ++
      pending (if seg.sent.toNat + n = seg.data.val.length
        then rest else { seg with sent := seg.sent + UInt16.ofNat n } :: rest) =
      seg.data.val.drop seg.sent.toNat ++ pending rest := by
    split
    next hall => rw [List.take_of_length_le (by rw [List.length_drop]; omega)]
    next => rw [pending_cons, hsum, ← List.append_assoc, hsplit]
  refine ⟨h.past, fun hstate => absurd hstate hfinished, ?_, ?_⟩
  · dsimp only
    split
    · exact hrest
    next hnot => exact ⟨hseq, by dsimp only; omega, hrest⟩
  · dsimp only
    rw [Conn.emit_out, Trace.accepted_append, ← hconserved, List.append_assoc]
    refine congrArg (Trace.accepted c.out ++ ·) ?_
    simpa [Output.accepted] using hleft

theorem Move.delivering {a : Cause} {s t : Stage} (h : Move a s t)
    (ha : ∀ seg, a = .segment seg → seg.data.val = []) (hs : Delivering bytes s.conn) :
    Delivering bytes t.conn := by
  cases h with
  | quiet o ho =>
    exact hs.keep hs.past (fun h => .inl h) (.inl rfl) rfl (by simp [Output.accepted_of_quiet ho])
  | queue hseg hdata => exact absurd (ha _ hseg) hdata
  | abort => exact hs.keep nofun nofun (.inl rfl) rfl rfl
  | @reset c fwd written =>
    refine hs.keep ?_ ?_ (.inl (by simp [hs.past])) (by simp) (by simp)
    · by_cases hclose : c.tcp.state = .close <;> simp [hclose]
    · by_cases hclose : c.tcp.state = .close <;> simp [hclose]
  | countFin _ hfin hadmitted hstate hforward written =>
    refine hs.keep ?_ ?_ (.inr hforward) rfl (by simp) <;> cases written <;> simp
  | holdFin => exact hs.keep nofun nofun (.inl rfl) rfl rfl
  | lastFin _ hfin hadmitted hstate written =>
    refine hs.keep ?_ ?_ (.inr (hs.finished hstate)) rfl (by simp) <;> cases written <;> simp
  | ackAll _ hfin hack state hstate =>
    rcases hstate with rfl | ⟨_, rfl⟩ | ⟨_, rfl⟩
    · exact hs.keep hs.past (fun h => .inl h) (.inl rfl) rfl rfl
    · exact hs.keep nofun nofun (.inl rfl) rfl rfl
    · exact hs.keep nofun nofun (.inl rfl) rfl rfl
  | synAck _ hstate => exact absurd hstate hs.past
  | send _ n hforward hseq hsent hn hlisten sent => exact hs.send hforward hn sent
  | @confirmFin c _ hstate hforward written =>
    refine hs.keep ?_ ?_ (.inr hforward) rfl (by simp) <;> cases written <;> simp [hstate]
  | @ack c fwd _ hforward hlisten written =>
    refine hs.keep ?_ ?_ (.inl rfl) rfl (by simp)
    · cases written <;> simp [hs.past]
    · cases written <;> simp +contextual
  | @keepAlive c fwd _ hstate written =>
    refine hs.keep ?_ ?_ (.inl rfl) rfl (by simp)
    · cases written <;> simp [hs.past]
    · cases written <;> simp +contextual
  | @data c fwd _ hstate bytes hbytes hsize dns hdns written =>
    have hnone : Trace.accepted dns = [] :=
      Trace.accepted_of_forall fun o ho => Output.accepted_of_quiet (hdns o ho)
    refine hs.keep ?_ ?_ (.inl rfl) rfl (by simp [hnone])
    · cases written <;> simp [hs.past]
    · cases written <;> simp +contextual
  | @fin c fwd _ hstate hforward written state hnext =>
    refine hs.keep ?_ (fun _ => .inr hforward) (.inl rfl) rfl (by simp)
    rcases hnext with ⟨_, rfl⟩ | ⟨_, _, rfl⟩ | ⟨_, _, rfl⟩ <;> simp
  | close _ hstate => exact hs.keep hs.past (fun h => .inl h) (.inl rfl) rfl (by simp)
  | closed _ hstate => exact hs.keep nofun nofun (.inl rfl) rfl rfl
  | _ => exact hs.keep hs.past (fun h => .inl h) (.inl rfl) rfl rfl

end Conserved

section Drains
variable {env : Env} {args : Arguments} {c : Conn}

/-- The socket has room for the head of the list, and takes at least a byte of it. -/
def Conn.Accepts (c : Conn) (env : Env) : Prop :=
  ∀ seg rest, c.tcp.forward = seg :: rest →
    seg.unsent < getReceiveBuffer c.socket (env.sendBuf []) (env.unsent []) ∧
    ∃ n, 1 ≤ n.val ∧
      env.send [.probe c.socket] (seg.data.val.drop seg.sent.toNat).length = .accepted n

theorem forwardLoop_takes {seg : Segment} {rest : List Segment} {bufferSize : UInt32}
    {n : Fin ((seg.data.val.drop seg.sent.toNat).length + 1)} (hseq : seg.seq = c.tcp.remoteSeq)
    (hroom : seg.unsent < bufferSize) (fwd : Bool)
    (hsend : env.send c.out (seg.data.val.drop seg.sent.toNat).length = .accepted n) :
    ∃ os, (forwardLoop env (seg :: rest) c bufferSize fwd).1.out =
      c.out ++ .send c.socket (seg.seq + seg.sent.toUInt32)
        (seg.data.val.drop seg.sent.toNat) (some n.val) :: os := by
  have hgo : seg.seq = c.tcp.remoteSeq ∧ seg.unsent < bufferSize := ⟨hseq, hroom⟩
  simp only [forwardLoop, if_pos hgo, hsend]
  split
  · obtain ⟨os, hos⟩ := forwardLoop_out env rest
      { (c.emit (.send c.socket (seg.seq + seg.sent.toUInt32)
          (seg.data.val.drop seg.sent.toNat) (some n.val))) with
        tcp.sent := c.tcp.sent + UInt64.ofNat n.val
        tcp.remoteSeq := seg.seq + (seg.sent + UInt16.ofNat n.val).toUInt32 }
      (bufferSize - UInt32.ofNat n.val) true
    exact ⟨os, hos.trans (by simp)⟩
  · exact ⟨[], rfl⟩

/-- A writable socket that accepts gets bytes, unless the session ends. -/
theorem checkTcpSocket_accepted {ev : Events} (hpast : c.tcp.state ≠ .listen)
    (hcontiguous : Contiguous c.tcp.remoteSeq c.tcp.forward) (hforward : c.tcp.forward ≠ [])
    (hout : c.out = []) (hwritable : ev.epollOut = true) (haccepts : c.Accepts env)
    (hover : ¬ (checkTcpSocket env args ev c).tcp.state.Over) :
    Trace.accepted (checkTcpSocket env args ev c).out ≠ [] := by
  have herr : ¬ ev.epollErr = true := by
    intro herr
    apply hover
    simp only [checkTcpSocket, if_pos herr, writeRst_eq, Conn.wrote_tcp]
    split
    · exact .inr rfl
    · exact .inl rfl
  have hopen : checkTcpSocket env args ev c = checkOpen env args ev c := by
    simp only [checkTcpSocket, if_neg herr, if_neg hpast]
  obtain ⟨seg, rest, hqueue⟩ := List.exists_cons_of_ne_nil hforward
  obtain ⟨hroom, n, hn, hsend⟩ := haccepts seg rest hqueue
  rw [hqueue] at hcontiguous
  obtain ⟨hseq, hsent, -⟩ := hcontiguous
  have hprobed : (probeBuffer env c).2.out = [.probe c.socket] := by
    simp [probeBuffer, hout]
  obtain ⟨os, hos⟩ : ∃ os, (forwardData env ev c).1.out = [.probe c.socket] ++
      .send c.socket (seg.seq + seg.sent.toUInt32) (seg.data.val.drop seg.sent.toNat)
        (some n.val) :: os := by
    simp only [forwardData, if_pos hwritable]
    rw [show (probeBuffer env c).2.tcp.forward = seg :: rest from hqueue, ← hprobed]
    refine forwardLoop_takes (c := (probeBuffer env c).2) hseq ?_ false ?_
    · simpa [probeBuffer, hout] using hroom
    · rw [hprobed]
      exact hsend
  obtain ⟨os', hos'⟩ := (@checkOpen_forwarded env args ev c).extends
  rw [hopen, show (checkOpen env args ev c).out = _ from hos', hos]
  have htaken : (seg.data.val.drop seg.sent.toNat).take n.val ≠ [] := by
    rw [ne_eq, List.take_eq_nil_iff, List.drop_eq_nil_iff]
    omega
  intro hnone
  rw [Trace.accepted_append, Trace.accepted_append, Trace.accepted_cons] at hnone
  have hsent := (List.append_eq_nil_iff.mp (List.append_eq_nil_iff.mp hnone).1).2
  exact htaken (List.append_eq_nil_iff.mp hsent).1

/-- The condition on an event: no data of the app comes in, and a writable socket accepts. -/
def Conn.Drains (c : Conn) (e : Env × TcpEvent) : Prop :=
  (∀ seg, e.2.cause = .segment seg → seg.data.val = []) ∧
    ∀ ev, e.2 = .socket ev → ev.epollOut = true → c.Accepts e.1

def TcpEvent.writable : TcpEvent → Bool
  | .socket ev => ev.epollOut
  | _ => false

/-- How much of the list is left, as long as the session lasts. -/
def Conn.backlog (c : Conn) : ℕ :=
  if c.tcp.state = .closing ∨ c.tcp.state = .close then 0 else (pending c.tcp.forward).length

theorem Conn.backlog_over (h : c.tcp.state.Over) : c.backlog = 0 := if_pos h

theorem Conn.backlog_going (h : ¬ c.tcp.state.Over) :
    c.backlog = (pending c.tcp.forward).length := if_neg h

theorem Conn.backlog_le_pending (c : Conn) : c.backlog ≤ (pending c.tcp.forward).length := by
  by_cases h : c.tcp.state.Over
  · rw [Conn.backlog_over h]
    exact Nat.zero_le _
  · rw [Conn.backlog_going h]

theorem Conn.run_extends (args : Arguments) (c : Conn) (es : List (Env × TcpEvent)) :
    ∃ os, (c.run args es).out = c.out ++ os := by
  refine Run.invariant (P := fun d : Conn => ∃ os, d.out = c.out ++ os) ?_ es ⟨[], by simp⟩
  rintro d e ⟨os, hos⟩
  refine ⟨os ++ (e.2.handle e.1 args { d with out := [] }).out, ?_⟩
  rw [← List.append_assoc, ← hos]
  rfl

variable {bytes : List UInt8} (args)

theorem Delivering.step (h : Delivering bytes c) (e : Env × TcpEvent) (hdrains : c.Drains e) :
    Delivering bytes (c.step args e) :=
  Run.chain_invariant (P := fun s : Stage => Delivering bytes s.conn)
    (fun _ _ hmove hs => hmove.delivering hdrains.1 hs)
    (Moves.step args e fun hlisten => absurd hlisten h.past) h

theorem Delivering.length (h : Delivering bytes c) (e : Env × TcpEvent) (hdrains : c.Drains e) :
    ∃ os, (c.step args e).out = c.out ++ os ∧
      (Trace.accepted os).length + (pending (c.step args e).tcp.forward).length =
        (pending c.tcp.forward).length := by
  have hnext := (h.step args e hdrains).conserved
  refine ⟨(e.2.handle e.1 args { c with out := [] }).out, rfl, ?_⟩
  have hout : (c.step args e).out = c.out ++ (e.2.handle e.1 args { c with out := [] }).out := rfl
  rw [hout, ← h.conserved, Trace.accepted_append, List.append_assoc] at hnext
  rw [← List.append_cancel_left hnext, List.length_append]

theorem Delivering.step_over (h : Delivering bytes c) (e : Env × TcpEvent)
    (hover : c.tcp.state.Over) : (c.step args e).tcp.state.Over :=
  Run.chain_invariant (P := fun s : Stage => s.conn.tcp.state.Over)
    (fun _ _ hmove => hmove.edges.over)
    (Moves.step args e fun hlisten => absurd hlisten h.past) hover

theorem Delivering.backlog_le (h : Delivering bytes c) (e : Env × TcpEvent)
    (hdrains : c.Drains e) : (c.step args e).backlog ≤ c.backlog := by
  obtain ⟨os, -, hlength⟩ := h.length args e hdrains
  by_cases hnow : (c.step args e).tcp.state.Over
  · rw [Conn.backlog_over hnow]
    exact Nat.zero_le _
  · rw [Conn.backlog_going hnow, Conn.backlog_going fun hover => hnow (h.step_over args e hover)]
    omega

theorem Delivering.backlog_lt (h : Delivering bytes c) (e : Env × TcpEvent)
    (hdrains : c.Drains e) (hwritable : e.2.writable = true) (hleft : c.backlog ≠ 0) :
    (c.step args e).backlog < c.backlog := by
  obtain ⟨env, event⟩ := e
  cases event with
  | socket ev =>
    have hgoing : ¬ c.tcp.state.Over := fun hover => hleft (Conn.backlog_over hover)
    by_cases hnow : (c.step args (env, .socket ev)).tcp.state.Over
    · rw [Conn.backlog_over hnow]
      exact Nat.pos_of_ne_zero hleft
    rw [Conn.backlog_going hgoing] at hleft ⊢
    rw [Conn.backlog_going hnow]
    have hforward : c.tcp.forward ≠ [] := by
      rw [ne_eq, ← h.contiguous.pending_eq_nil]
      exact fun hnone => hleft (congrArg List.length hnone)
    obtain ⟨os, hout, hlength⟩ := h.length args (env, .socket ev) hdrains
    have hsent : Trace.accepted os ≠ [] := by
      obtain rfl := List.append_cancel_left hout
      exact checkTcpSocket_accepted (c := { c with out := [] }) h.past h.contiguous hforward rfl
        hwritable (hdrains.2 ev rfl hwritable) hnow
    have hpos := List.length_pos_iff.mpr hsent
    omega
  | _ => exact absurd hwritable Bool.false_ne_true

/-- A forward list without gaps is delivered: after as many writable events as it has bytes,
in which the socket takes at least one, and whatever else happens in between, the list is
empty and the server got exactly its bytes in order, unless the session was ended. -/
theorem Conn.uplink_drains (args : Arguments) {c : Conn} (hpast : c.tcp.state ≠ .listen)
    (hfinished : c.tcp.state ≠ .finWait1) (hqueue : Contiguous c.tcp.remoteSeq c.tcp.forward)
    {es : List (Env × TcpEvent)} (hrun : Run.Along (Conn.step args) Conn.Drains c es)
    (hcount : (pending c.tcp.forward).length ≤ es.countP fun e => e.2.writable)
    (hgoing : ¬ (c.run args es).tcp.state.Over) :
    (c.run args es).tcp.forward = [] ∧ ∃ os, (c.run args es).out = c.out ++ os ∧
      Trace.accepted os = pending c.tcp.forward := by
  have hstart : Delivering (Trace.accepted c.out ++ pending c.tcp.forward) c :=
    ⟨hpast, fun hstate => absurd hstate hfinished, hqueue, rfl⟩
  have hboth := hrun.with_invariant
    (fun c e hdrains (h : Delivering _ c) => h.step args e hdrains) hstart
  have hend : Delivering (Trace.accepted c.out ++ pending c.tcp.forward) (c.run args es) :=
    hrun.invariant (fun c e hdrains (h : Delivering _ c) => h.step args e hdrains) hstart
  have hleft : (c.run args es).backlog ≤ c.backlog - es.countP fun e => e.2.writable :=
    hboth.countdown (fun c e h => h.2.backlog_le args e h.1)
      (fun c e h hwritable hleft => h.2.backlog_lt args e h.1 hwritable hleft)
  have hempty : pending (c.run args es).tcp.forward = [] := by
    have hmost := c.backlog_le_pending
    have hzero : (c.run args es).backlog = 0 := by omega
    rw [Conn.backlog_going hgoing] at hzero
    exact List.length_eq_zero_iff.mp hzero
  obtain ⟨os, hos⟩ := Conn.run_extends args c es
  refine ⟨hend.contiguous.pending_eq_nil.mp hempty, os, hos, ?_⟩
  have hconserved := hend.conserved
  rw [hos, hempty, List.append_nil, Trace.accepted_append] at hconserved
  exact List.append_cancel_left hconserved

theorem length_one_lt (b : UInt8) : [b].length < 2 ^ 16 := by
  simp

/-- The sample session with two bytes of the app that came in the wrong order. -/
def Conn.sampleBacklog : Conn :=
  (Conn.sample 100 ⟨[], length_nil_lt⟩).run .direct (connected 100 ++
    [(.calm, .app (.acks 102 1 1000) ⟨[2], length_one_lt 2⟩),
      (.calm, .app (.acks 101 1 1000) ⟨[1], length_one_lt 1⟩)])

theorem Conn.uplink_drains_sample :
    ∃ os, (Conn.sampleBacklog.run .direct
        [(.calm, .ready false true), (.calm, .ready false true)]).out =
      Conn.sampleBacklog.out ++ os ∧ Trace.accepted os = [1, 2] := by
  have hrun : Run.Along (Conn.step .direct) Conn.Drains Conn.sampleBacklog
      [(.calm, .ready false true), (.calm, .ready false true)] := by
    refine ⟨⟨?_, ?_⟩, ⟨?_, ?_⟩, trivial⟩
    · rintro _ ⟨⟩
    · rintro _ ⟨⟩ - seg rest ⟨⟩
      exact ⟨by decide, ⟨1, by decide⟩, by decide, rfl⟩
    · rintro _ ⟨⟩
    · rintro _ ⟨⟩ - seg rest hforward
      cases hforward
  have hqueue : Contiguous Conn.sampleBacklog.tcp.remoteSeq Conn.sampleBacklog.tcp.forward :=
    ⟨rfl, by decide, rfl, by decide, trivial⟩
  exact (Conn.uplink_drains .direct (by decide) (by decide) hqueue
    hrun (by decide) (by rintro (h | h) <;> cases h)).2

end Drains

end NetGuard.Engine
