import NetGuard.Tcp.Session

/-! # The stream from the server to the app

The data segments written to the tun carry the bytes of the server in order and under
consecutive sequence numbers, and a FIN ends them.
-/
namespace NetGuard.Engine
open Serial

variable {args : Arguments} {c : Conn}

section Trace

/-- The data segment an output put on the tun: its sequence number and its bytes. -/
def Output.dataSegment : Output → List (UInt32 × List UInt8)
  | .tun (.tcp cur data _ _ _ _) true => if data.isEmpty then [] else [(cur.localSeq, data)]
  | _ => []

/-- The bytes an output took from the server. -/
def Output.received : Output → List UInt8
  | .recv _ bytes => bytes
  | _ => []

def Output.isFin : Output → Bool
  | .tun (.tcp _ _ _ _ fin _) written => fin && written
  | _ => false

def Trace.dataSegments (out : Trace) : List (UInt32 × List UInt8) := out.flatMap Output.dataSegment

def Trace.received (out : Trace) : List UInt8 := out.flatMap Output.received

@[simp] theorem Trace.dataSegments_append (xs ys : Trace) :
    Trace.dataSegments (xs ++ ys) = xs.dataSegments ++ ys.dataSegments := by
  simp [Trace.dataSegments]

@[simp] theorem Trace.received_append (xs ys : Trace) :
    Trace.received (xs ++ ys) = xs.received ++ ys.received := by
  simp [Trace.received]

@[simp] theorem Trace.dataSegments_nil : Trace.dataSegments [] = [] := rfl

@[simp] theorem Trace.dataSegments_cons (o : Output) (out : Trace) :
    Trace.dataSegments (o :: out) = o.dataSegment ++ out.dataSegments := rfl

@[simp] theorem Trace.received_nil : Trace.received [] = [] := rfl

@[simp] theorem Trace.received_cons (o : Output) (out : Trace) :
    Trace.received (o :: out) = o.received ++ out.received := rfl

/-- An output that adds nothing to the stream to the app. -/
def Output.Aside (o : Output) : Prop :=
  o.dataSegment = [] ∧ o.received = [] ∧ o.isFin = false

theorem Output.aside_of_quiet {o : Output} (h : o.quiet = true) : o.Aside := by
  cases o with
  | tun packet written => simp [Output.quiet] at h
  | recv fd bytes => exact ⟨rfl, List.isEmpty_iff.mp h, rfl⟩
  | _ => exact ⟨rfl, rfl, rfl⟩

theorem Output.aside_of_opening {o : Output} (h : o.opening = true) : o.Aside := by
  cases o with
  | tun packet written => simp [Output.opening] at h
  | recv fd bytes => simp [Output.opening] at h
  | _ => exact ⟨rfl, rfl, rfl⟩

@[simp] theorem Output.aside_empty (cur : TcpSession) (syn ack rst written : Bool) :
    Output.Aside (.tun (.tcp cur [] syn ack false rst) written) := by
  cases written <;> exact ⟨rfl, rfl, rfl⟩

@[simp] theorem Output.aside_send (fd : Int) (seq : UInt32) (offered : List UInt8)
    (accepted : Option ℕ) : Output.Aside (.send fd seq offered accepted) := ⟨rfl, rfl, rfl⟩

@[simp] theorem Output.aside_close (fd : Int) : Output.Aside (.close fd) := ⟨rfl, rfl, rfl⟩

theorem Trace.dataSegments_of_aside {out : Trace} (h : ∀ o ∈ out, o.Aside) :
    out.dataSegments = [] := by
  simpa [Trace.dataSegments, List.flatMap_eq_nil_iff] using fun o ho => (h o ho).1

theorem Trace.received_of_aside {out : Trace} (h : ∀ o ∈ out, o.Aside) : out.received = [] := by
  simpa [Trace.received, List.flatMap_eq_nil_iff] using fun o ho => (h o ho).2.1

/-- A FIN carries no data and comes right behind the bytes before it; data comes only
where there was no FIN before. -/
def Output.InOrder (start : UInt32) (pre : Trace) (o : Output) : Prop :=
  (∀ cur data syn ack rst, o = .tun (.tcp cur data syn ack true rst) true →
    data = [] ∧ cur.localSeq = shift start (items pre.dataSegments).length) ∧
  (o.dataSegment ≠ [] → ∀ p ∈ pre, p.isFin = false)

theorem Output.Aside.inOrder {o : Output} (h : o.Aside) (start : UInt32) (pre : Trace) :
    o.InOrder start pre := by
  refine ⟨?_, fun hdata => absurd h.1 hdata⟩
  rintro cur data syn ack rst rfl
  simpa [Output.isFin] using h.2.2

end Trace

def TcpState.Streaming (state : TcpState) : Prop :=
  state = .synRecv ∨ state = .established ∨ state = .closeWait

structure Downlink (start : UInt32) (s : Stage) : Prop where
  consecutive : Consecutive (start + 1) s.conn.out.dataSegments
  bytes : items s.conn.out.dataSegments <+: s.conn.out.received
  order : Run.Timed (Output.InOrder (start + 1)) s.conn.out
  unopened : s.conn.tcp.state = .listen →
    s.conn.tcp.localSeq = start ∧ ∀ o ∈ s.conn.out, o.Aside
  streaming : s.conn.tcp.state.Streaming →
    s.conn.tcp.localSeq = shift (start + 1) (items s.conn.out.dataSegments).length ∧
    items s.conn.out.dataSegments = s.conn.out.received ∧ ∀ o ∈ s.conn.out, o.isFin = false

/-- Outputs aside of the stream keep it, unless the state starts to stream. -/
theorem Downlink.append {start : UInt32} {s t : Stage} (hs : Downlink start s) (os : Trace)
    (hout : t.conn.out = s.conn.out ++ os) (hos : ∀ o ∈ os, o.Aside)
    (hlisten : t.conn.tcp.state = .listen →
      s.conn.tcp.state = .listen ∧ t.conn.tcp.localSeq = s.conn.tcp.localSeq)
    (hstreaming : t.conn.tcp.state.Streaming →
      s.conn.tcp.state.Streaming ∧ t.conn.tcp.localSeq = s.conn.tcp.localSeq) :
    Downlink start t := by
  have hdata : t.conn.out.dataSegments = s.conn.out.dataSegments := by
    rw [hout, Trace.dataSegments_append, Trace.dataSegments_of_aside hos, List.append_nil]
  have hreceived : t.conn.out.received = s.conn.out.received := by
    rw [hout, Trace.received_append, Trace.received_of_aside hos, List.append_nil]
  refine ⟨hdata ▸ hs.consecutive, ?_, ?_, ?_, ?_⟩
  · rw [hdata, hreceived]
    exact hs.bytes
  · rw [hout]
    exact hs.order.append (fun o ho => (hos o ho).inOrder (start + 1))
  · intro h
    obtain ⟨hold, hseq⟩ := hlisten h
    obtain ⟨hlocal, haside⟩ := hs.unopened hold
    refine ⟨hseq.trans hlocal, ?_⟩
    intro o ho
    rw [hout] at ho
    rcases List.mem_append.mp ho with h | h
    · exact haside o h
    · exact hos o h
  · intro h
    obtain ⟨hold, hseq⟩ := hstreaming h
    obtain ⟨hlocal, hbytes, hfin⟩ := hs.streaming hold
    rw [hseq, hdata, hreceived]
    refine ⟨hlocal, hbytes, ?_⟩
    intro o ho
    rw [hout] at ho
    rcases List.mem_append.mp ho with h | h
    · exact hfin o h
    · exact (hos o h).2.2

theorem Downlink.of_aside {start : UInt32} {s : Stage} (hout : ∀ o ∈ s.conn.out, o.Aside)
    (hlisten : s.conn.tcp.state = .listen → s.conn.tcp.localSeq = start)
    (hstreaming : s.conn.tcp.state.Streaming → s.conn.tcp.localSeq = start + 1) :
    Downlink start s := by
  have hdata := Trace.dataSegments_of_aside hout
  have hreceived := Trace.received_of_aside hout
  refine ⟨hdata ▸ trivial, by simp [hdata, items], ?_, fun h => ⟨hlisten h, hout⟩, ?_⟩
  · exact Run.Timed.of_forall (fun o ho => (hout o ho).inOrder (start + 1))
  · intro h
    refine ⟨?_, by simp [hdata, hreceived, items], fun o ho => (hout o ho).2.2⟩
    simpa [hdata, items] using hstreaming h

theorem Output.inOrder_of_no_fin {o : Output} (start : UInt32) (hfin : o.isFin = false)
    {pre : Trace} (hpre : o.dataSegment ≠ [] → ∀ p ∈ pre, p.isFin = false) :
    o.InOrder start pre := by
  refine ⟨?_, hpre⟩
  rintro cur data syn ack rst rfl
  simp [Output.isFin] at hfin

theorem Downlink.read {start : UInt32} {s : Stage} (hs : Downlink start s)
    (hstreaming : s.conn.tcp.state.Streaming) (fd : Int) (bytes : List UInt8) {dns : Trace}
    (hdns : ∀ o ∈ dns, o.Aside) :
    Trace.dataSegments (s.conn.out ++ .recv fd bytes :: dns) = s.conn.out.dataSegments ∧
      Trace.received (s.conn.out ++ .recv fd bytes :: dns) = s.conn.out.received ++ bytes ∧
      Run.Timed (Output.InOrder (start + 1)) (s.conn.out ++ .recv fd bytes :: dns) ∧
      ∀ o ∈ s.conn.out ++ .recv fd bytes :: dns, o.isFin = false := by
  obtain ⟨-, -, hfin⟩ := hs.streaming hstreaming
  have hcons : Output.recv fd bytes :: dns = [.recv fd bytes] ++ dns := rfl
  refine ⟨?_, ?_, hs.order.append ?_, ?_⟩
  · rw [hcons, Trace.dataSegments_append, Trace.dataSegments_append,
      Trace.dataSegments_of_aside hdns]
    simp [Output.dataSegment]
  · rw [hcons, Trace.received_append, Trace.received_append, Trace.received_of_aside hdns]
    simp [Output.received]
  · intro o ho pre
    rcases List.mem_cons.mp ho with rfl | h
    · exact Output.inOrder_of_no_fin _ rfl (fun h => absurd rfl h)
    · exact (hdns o h).inOrder (start + 1) pre
  · intro o ho
    rcases List.mem_append.mp ho with h | h
    · exact hfin o h
    rcases List.mem_cons.mp h with rfl | h
    · rfl
    · exact (hdns o h).2.2

theorem Move.downlink {start : UInt32} {a : Cause} {s t : Stage} (h : Move a s t)
    (hs : Downlink start s) : Downlink start t := by
  have hsame {c d : Conn} {fwd fwd' : Bool} (hd : Downlink start ⟨c, fwd⟩) (hout : d.out = c.out)
      (hseq : d.tcp.localSeq = c.tcp.localSeq) (hstate : d.tcp.state = c.tcp.state) :
      Downlink start ⟨d, fwd'⟩ :=
    hd.append [] (by simp [hout]) (by simp) (fun h => ⟨hstate ▸ h, hseq⟩)
      (fun h => ⟨hstate ▸ h, hseq⟩)
  cases h with
  | tidy => exact hsame hs rfl rfl rfl
  | quiet o ho =>
    exact hs.append _ rfl (by simpa using Output.aside_of_quiet ho) (fun h => ⟨h, rfl⟩)
      (fun h => ⟨h, rfl⟩)
  | window ha => exact hsame hs rfl rfl rfl
  | queue ha hdata hsocket hnot => exact hsame hs rfl (by simp [queueTcp_eq]) (by simp [queueTcp_eq])
  | abort =>
    exact hs.append [] (by simp) (by simp) (by simp) (by simp [TcpState.Streaming])
  | @reset c fwd written =>
    let rst : Output :=
      .tun (.tcp (countSyn c).tcp [] false (c.tcp.state == .listen) false true) written
    refine hs.append [rst] (by simp [rst]) (by simp [rst]) (fun h => ?_) (fun h => ?_) <;>
      by_cases hclose : c.tcp.state = .close <;> simp [TcpState.Streaming, hclose] at h
  | @countFin c fwd seg ha hfin hadmitted hstate hforward written =>
    refine hs.append _ rfl (by simp) ?_ (fun _ => ⟨.inr (.inl hstate), rfl⟩)
    intro h
    cases written <;> simp at h
  | holdFin ha hfin hadmitted hstate hforward =>
    exact hs.append [] (by simp) (by simp) (by simp) (fun _ => ⟨.inr (.inl hstate), rfl⟩)
  | lastFin ha hfin hadmitted hstate written =>
    refine hs.append _ rfl (by simp) (fun h => ?_) (fun h => ?_) <;>
      cases written <;> simp [TcpState.Streaming] at h
  | @ackAll c fwd seg ha hfin hack state hstate =>
    refine hs.append [] (by simp) (by simp) ?_ ?_
    · intro h
      rcases hstate with rfl | ⟨_, rfl⟩ | ⟨_, rfl⟩
      · exact ⟨h, rfl⟩
      all_goals simp at h
    · intro h
      rcases hstate with rfl | ⟨hold, rfl⟩ | ⟨_, rfl⟩
      · exact ⟨h, rfl⟩
      · exact ⟨.inl hold, rfl⟩
      · simp [TcpState.Streaming] at h
  | ackSome ha hlocal hacked => exact hsame hs rfl rfl rfl
  | @synAck c fwd ha hstate time written =>
    obtain ⟨hlocal, haside⟩ := hs.unopened hstate
    refine Downlink.of_aside ?_ ?_ ?_
    · simpa [or_imp, forall_and] using haside
    · intro h
      cases written <;> simp at h
    · intro h
      cases written
      · simp [TcpState.Streaming] at h
      · simpa using hlocal
  | send ha n hforward hseq hsent hn hlisten sent =>
    exact hs.append _ rfl (by simp) (fun h => ⟨h, rfl⟩) (fun h => ⟨h, rfl⟩)
  | confirmFin ha hstate hforward written =>
    refine hs.append _ rfl (by simp) ?_ (fun _ => ⟨.inr (.inr hstate), rfl⟩)
    intro h
    cases written <;> simp [hstate] at h
  | @ack c fwd ha hforward hlisten written =>
    refine hs.append _ rfl (by simp) ?_ ?_
    · intro h
      cases written <;> simp [hlisten] at h
    · intro h
      cases written
      · simp [TcpState.Streaming] at h
      · exact ⟨h, rfl⟩
  | @keepAlive c fwd ha hstate written =>
    refine hs.append _ rfl (by simp) ?_ (fun _ => ⟨.inr hstate, rfl⟩)
    intro h
    cases written
    · simp at h
    · rcases hstate with hold | hold <;> simp [hold] at h
  | @data c fwd ha hstate bytes hbytes hsize dns hdns written =>
    obtain ⟨hlocal, hall, -⟩ := hs.streaming (.inr hstate)
    obtain ⟨hdata, hreceived, horder, hfin⟩ := hs.read (.inr hstate) c.socket bytes
      (fun o ho => Output.aside_of_quiet (hdns o ho))
    let segment : Output := .tun (.tcp c.tcp bytes false true false false) written
    have hreceived' : Trace.received (c.out ++ .recv c.socket bytes :: dns ++ [segment]) =
        c.out.received ++ bytes := by
      rw [Trace.received_append, hreceived]
      simp [segment, Output.received]
    have hdata' : Trace.dataSegments (c.out ++ .recv c.socket bytes :: dns ++ [segment]) =
        c.out.dataSegments ++ segment.dataSegment := by
      rw [Trace.dataSegments_append, hdata]
      simp
    have horder' := horder.snoc (Output.inOrder_of_no_fin (o := segment) (start + 1)
      (by simp [segment, Output.isFin]) (fun _ => hfin))
    cases written with
    | false =>
      have hnone : segment.dataSegment = [] := rfl
      rw [hnone, List.append_nil] at hdata'
      refine ⟨hdata' ▸ hs.consecutive, ?_, horder', by simp, by simp [TcpState.Streaming]⟩
      change items (Trace.dataSegments (c.out ++ .recv c.socket bytes :: dns ++ [segment])) <+:
        Trace.received (c.out ++ .recv c.socket bytes :: dns ++ [segment])
      rw [hdata', hreceived', hall]
      exact List.prefix_append _ _
    | true =>
      have hblock : segment.dataSegment = [(c.tcp.localSeq, bytes)] := by
        simp [segment, Output.dataSegment, hbytes]
      rw [hblock] at hdata'
      have hitems : items (Trace.dataSegments (c.out ++ .recv c.socket bytes :: dns ++ [segment])) =
          Trace.received (c.out ++ .recv c.socket bytes :: dns ++ [segment]) := by
        rw [hdata', hreceived', items_append, items_singleton, hall]
      refine ⟨hdata' ▸ hs.consecutive.snoc hlocal, hitems ▸ List.prefix_rfl, horder', ?_,
        fun _ => ⟨?_, hitems, ?_⟩⟩
      · intro h
        rcases hstate with hold | hold <;> simp [hold] at h
      · change c.tcp.localSeq + UInt32.ofNat bytes.length = shift (start + 1)
          (items (Trace.dataSegments (c.out ++ .recv c.socket bytes :: dns ++ [segment]))).length
        rw [hdata', items_append, items_singleton, List.length_append, ← shift_add, ← hlocal]
        rfl
      · intro o ho
        rcases List.mem_append.mp ho with h | h
        · exact hfin o h
        · rw [List.mem_singleton.mp h]
          rfl
  | @fin c fwd ha hstate hforward written state hnext =>
    obtain ⟨hlocal, hall, hfin⟩ := hs.streaming (.inr hstate)
    let finAck : Output := .tun (.tcp c.tcp [] false true true false) written
    have hnone : finAck.dataSegment = [] := by cases written <;> rfl
    have hdata : Trace.dataSegments (c.out ++ [finAck] ++ [.close c.socket]) =
        c.out.dataSegments := by
      simp [hnone, (Output.aside_close c.socket).1]
    have hreceived : Trace.received (c.out ++ [finAck] ++ [.close c.socket]) = c.out.received := by
      simp [finAck, Output.received]
    have hbehind : finAck.InOrder (start + 1) c.out := by
      refine ⟨?_, fun h => absurd hnone h⟩
      intro cur data syn ack rst heq
      simp only [finAck, Output.tun.injEq, TunPacket.tcp.injEq] at heq
      obtain ⟨⟨rfl, rfl, -⟩, -⟩ := heq
      exact ⟨rfl, hlocal⟩
    have hclosed : state = .finWait1 ∨ state = .lastAck ∨ state = .closing := by
      rcases hnext with ⟨_, h⟩ | ⟨_, _, h⟩ | ⟨_, _, h⟩ <;> simp [h]
    refine ⟨hdata ▸ hs.consecutive, ?_, (hs.order.snoc hbehind).append (by
      simpa using (Output.aside_close c.socket).inOrder (start + 1)), ?_, ?_⟩
    · change items (Trace.dataSegments (c.out ++ [finAck] ++ [.close c.socket])) <+:
        Trace.received (c.out ++ [finAck] ++ [.close c.socket])
      rw [hdata, hreceived]
      exact hs.bytes
    · intro h
      rcases hclosed with rfl | rfl | rfl <;> simp at h
    · intro h
      rcases hclosed with rfl | rfl | rfl <;> simp [TcpState.Streaming] at h
  | close ha hstate =>
    exact hs.append _ rfl (by simp) (fun h => ⟨h, rfl⟩) (fun h => ⟨h, rfl⟩)
  | closed ha hstate =>
    exact hs.append [] (by simp) (by simp) (by simp) (by simp [TcpState.Streaming])

theorem Move.localStart {a : Cause} {s t : Stage} (h : Move a s t) :
    t.conn.tcp.localStart = s.conn.tcp.localStart := by
  cases h with
  | queue => simp [queueTcp_eq]
  | reset => simp
  | _ => rfl

theorem Syn.Listening.downlink {syn : Syn} (h : syn.Listening c) :
    Downlink c.tcp.localStart ⟨c, false⟩ :=
  Downlink.of_aside (fun o ho => Output.aside_of_opening (h.out o ho)) (fun _ => h.localSeq)
    (fun hs => by simp [TcpState.Streaming, h.state] at hs)

theorem Output.InOrder.no_data {start : UInt32} {pre post : Trace} {fin : Output}
    (h : Run.Timed (Output.InOrder start) (pre ++ fin :: post)) (hfin : fin.isFin = true) :
    post.dataSegments = [] := by
  apply List.flatMap_eq_nil_iff.mpr
  intro o ho
  obtain ⟨between, rest, rfl⟩ := List.append_of_mem ho
  by_contra hdata
  have hno := (h (pre ++ fin :: between) o rest (by simp)).2 hdata fin (by simp)
  simp [hfin] at hno

theorem Conn.run_localStart (hdialing : c.Dialing) (es : List (Env × TcpEvent)) :
    (c.run args es).tcp.localStart = c.tcp.localStart :=
  Conn.run_history (C := fun _ _ => True) (P := fun _ d => d.tcp.localStart = c.tcp.localStart)
    (Q := fun _ _ s => s.conn.tcp.localStart = c.tcp.localStart)
    (fun _ _ _ _ hmove hs => hmove.localStart.trans hs) (fun _ _ _ _ h => h) (fun _ _ _ h => h)
    hdialing rfl (Run.Along.of_forall (fun _ _ => trivial) c es)

/-- Whatever the app, the server and the tun do, the data segments on the tun are
consecutive from `local_start + 1`, their bytes are a prefix of what the server sent, and
a FIN comes right behind the last byte with no data after it. -/
theorem Syn.Opens.downlink_intact {syn : Syn} (hopens : syn.Opens args c)
    (es : List (Env × TcpEvent)) :
    Consecutive (c.tcp.localStart + 1) (c.run args es).out.dataSegments ∧
    items (c.run args es).out.dataSegments <+: (c.run args es).out.received ∧
    ∀ (pre post : Trace) (cur : TcpSession) (data : List UInt8) (sy ack rst : Bool),
      (c.run args es).out = pre ++ .tun (.tcp cur data sy ack true rst) true :: post →
      data = [] ∧ post.dataSegments = [] ∧
        cur.localSeq = shift (c.tcp.localStart + 1) (items pre.dataSegments).length := by
  have hinv := hopens.run_history (C := fun _ _ => True)
    (P := fun _ c => Downlink c.tcp.localStart ⟨c, false⟩)
    (Q := fun _ _ s => Downlink s.conn.tcp.localStart s)
    (fun _ _ _ _ hmove hs => hmove.localStart ▸ hmove.downlink hs)
    (fun _ _ _ _ h => h) (fun _ _ _ h => h) (fun _ hd => hd.downlink)
    (Run.Along.of_forall (fun _ _ => trivial) c es)
  rw [Conn.run_localStart hopens.dialing] at hinv
  refine ⟨hinv.consecutive, hinv.bytes, ?_⟩
  intro pre post cur data sy ack rst heq
  have horder := heq ▸ hinv.order
  obtain ⟨hempty, hseq⟩ := (hinv.order pre _ post heq).1 cur data sy ack rst rfl
  exact ⟨hempty, Output.InOrder.no_data horder rfl, hseq⟩

/-- Two bytes of the server and its FIN on the sample session. -/
theorem downlink_intact_sample :
    let c := Conn.sample 100 ⟨[], by decide⟩
    let es := connected 100 ++ [(Env.calm.byte 9, .ready true false),
      (Env.calm.byte 8, .ready true false), ({ Env.calm with recv := fun _ _ => .eof }, .ready true false)]
    (c.run .direct es).out.dataSegments = [(1, [9]), (2, [8])] ∧
      Consecutive (c.tcp.localStart + 1) (c.run .direct es).out.dataSegments :=
  ⟨rfl, (Syn.Opens.downlink_intact (Syn.sample_opens 100) _).1⟩

end NetGuard.Engine
