import NetGuard.Tcp.Session
import NetGuard.Library.Ascending
import Mathlib.Algebra.Ring.Nat

/-! # The forward list

What a segment of the app does to the forward list, and the rule by which a condition
on the session before a segment reaches the place where its data is queued.
-/
namespace NetGuard.Engine
open Serial

section Accepted

/-- The bytes an output handed to the server's socket. -/
def Output.accepted : Output → List UInt8
  | .send _ _ offered (some n) => offered.take n
  | _ => []

def Trace.accepted (out : Trace) : List UInt8 := out.flatMap Output.accepted

@[simp] theorem Trace.accepted_nil : Trace.accepted [] = [] := rfl

@[simp] theorem Trace.accepted_cons (o : Output) (out : Trace) :
    Trace.accepted (o :: out) = o.accepted ++ out.accepted := rfl

@[simp] theorem Trace.accepted_append (xs ys : Trace) :
    Trace.accepted (xs ++ ys) = xs.accepted ++ ys.accepted := by
  simp [Trace.accepted]

@[simp] theorem Output.accepted_tun (packet : TunPacket) (written : Bool) :
    Output.accepted (.tun packet written) = [] := rfl

@[simp] theorem Output.accepted_recv (fd : Int) (bytes : List UInt8) :
    Output.accepted (.recv fd bytes) = [] := rfl

@[simp] theorem Output.accepted_close (fd : Int) : Output.accepted (.close fd) = [] := rfl

theorem Output.accepted_of_quiet {o : Output} (h : o.quiet = true) : o.accepted = [] := by
  cases o with
  | send fd seq offered accepted =>
    cases accepted with
    | none => rfl
    | some n => simp [Output.quiet] at h
  | _ => rfl

theorem Output.accepted_of_opening {o : Output} (h : o.opening = true) : o.accepted = [] := by
  cases o with
  | send fd seq offered accepted => simp [Output.opening] at h
  | _ => rfl

theorem Trace.accepted_of_forall {out : Trace} (h : ∀ o ∈ out, o.accepted = []) :
    out.accepted = [] := by
  simpa [Trace.accepted, List.flatMap_eq_nil_iff] using h

end Accepted

theorem shift_toUInt32 (r : UInt32) (w : UInt16) : r + w.toUInt32 = shift r w.toNat := by
  have hw : w.toUInt32 = UInt32.ofNat w.toNat := by
    apply UInt32.toNat_inj.mp
    have hsmall := w.toNat_lt
    rw [UInt32.toNat_ofNat', Nat.mod_eq_of_lt (by omega), UInt16.toNat_toUInt32]
  rw [hw, shift]

theorem Segment.add_len (g : Segment) (r : UInt32) :
    r + g.len.toUInt32 = shift r g.data.val.length := by
  rw [shift_toUInt32, Segment.len_toNat]

section Place
variable {b : UInt32} {hi lo : ℕ} {seq : UInt32} {psh : Bool} {data : Payload}
  {queue : List Segment} {R : ℕ → Segment → Prop}

theorem mem_placeSegment {g : Segment} (h : g ∈ placeSegment seq psh data queue) :
    g ∈ queue ∨ g = ⟨seq, 0, psh, data⟩ ∨
      ∃ s ∈ queue, s.seq = seq ∧ g = { s with data := data } := by
  induction queue with
  | nil => exact .inr (.inl (by simpa [placeSegment] using h))
  | cons s rest ih =>
    simp only [placeSegment] at h
    split at h
    · rcases List.mem_cons.mp h with rfl | h
      · exact .inl (by simp)
      · rcases ih h with h | h | ⟨old, hold, hseq, rfl⟩
        · exact .inl (by simp [h])
        · exact .inr (.inl h)
        · exact .inr (.inr ⟨old, by simp [hold], hseq, rfl⟩)
    split at h
    · rcases List.mem_cons.mp h with rfl | h
      · exact .inr (.inl rfl)
      · exact .inl h
    split at h
    next heq =>
      rcases List.mem_cons.mp h with rfl | h
      · exact .inr (.inr ⟨s, by simp, heq.1, rfl⟩)
      · exact .inl (by simp [h])
    · exact .inl h

theorem mem_placeSegment_of_ne {g : Segment} (hne : g.seq ≠ seq) :
    g ∈ placeSegment seq psh data queue ↔ g ∈ queue := by
  induction queue with
  | nil =>
    simp only [placeSegment, List.mem_singleton, List.not_mem_nil, iff_false]
    rintro rfl
    exact hne rfl
  | cons s rest ih =>
    simp only [placeSegment]
    split
    · rw [List.mem_cons, List.mem_cons, ih]
    split
    · rw [List.mem_cons, or_iff_right]
      rintro rfl
      exact hne rfl
    split
    next heq =>
      have hnew : g ≠ { s with data := data } := by
        rintro rfl
        exact hne heq.1
      have hold : g ≠ s := by
        rintro rfl
        exact hne heq.1
      rw [List.mem_cons, List.mem_cons, or_iff_right hnew, or_iff_right hold]
    · exact Iff.rfl

/-- The data is in the queue behind the scan, unless as much was there at its number. -/
theorem exists_placeSegment
    (hother : ∀ g ∈ queue, g.seq = seq → g.data.val.length ≠ data.val.length) :
    ∃ g ∈ placeSegment seq psh data queue, g.seq = seq ∧ g.data = data := by
  induction queue with
  | nil => exact ⟨_, List.mem_singleton_self _, rfl, rfl⟩
  | cons s rest ih =>
    obtain ⟨hs, hrest⟩ := List.forall_mem_cons.mp hother
    simp only [placeSegment]
    split
    · obtain ⟨g, hg, hplaced⟩ := ih hrest
      exact ⟨g, List.mem_cons_of_mem s hg, hplaced⟩
    split
    · exact ⟨_, List.mem_cons_self, rfl, rfl⟩
    split
    next heq => exact ⟨_, List.mem_cons_self, heq.1, rfl⟩
    next hnot hafter hsame =>
      have hseq : s.seq = seq := by
        by_contra hne
        have hsign := compareU32_pos_iff.mpr ⟨hne, hnot⟩
        exact hafter hsign
      refine absurd ⟨hseq, ?_⟩ hsame
      rw [Segment.len_toNat]
      exact hs hseq

/-- In a queue ordered by positions within half the circle, a segment of a position
there takes its place. -/
theorem Ascending.placeSegment {m : ℕ} (hseq : ∀ n g, R n g → g.seq = shift b n)
    (hwide : hi < lo + (2 ^ 31 - 1)) (hlo : lo ≤ m) (hhi : m ≤ hi) (hnew : R m ⟨seq, 0, psh, data⟩)
    (hreplace : ∀ g, R m g → R m { g with data := data }) (h : Ascending R hi lo queue) :
    Ascending R hi lo (placeSegment seq psh data queue) := by
  have hm : seq = shift b m := hseq m _ hnew
  induction queue generalizing lo with
  | nil => exact ⟨m, hlo, hhi, hnew, trivial⟩
  | cons s rest ih =>
    obtain ⟨n, hn, hnhi, hs, hrest⟩ := h
    have hns := hseq n s hs
    rcases Nat.lt_trichotomy n m with hlt | rfl | hgt
    · have hdist : ahead s.seq seq = m - n := by
        rw [hns, hm, ahead_shift_shift _ (Nat.le_of_lt hlt), Nat.mod_eq_of_lt (by omega)]
      have hbefore : compareU32 s.seq seq < 0 := compareU32_before (by omega) (by omega)
      simp only [Engine.placeSegment, hbefore, if_true]
      exact ⟨n, hn, hnhi, hs, ih (by omega) (by omega) hrest⟩
    · have hsame : s.seq = seq := hns.trans hm.symm
      have hzero : compareU32 s.seq seq = 0 := by simp [compareU32, hsame]
      simp only [Engine.placeSegment, hzero, Int.lt_irrefl, gt_iff_lt, if_false]
      split
      · exact ⟨n, hn, hnhi, hreplace s hs, hrest⟩
      · exact ⟨n, hn, hnhi, hs, hrest⟩
    · have hne : s.seq ≠ seq := by
        rw [hns, hm]
        exact (shift_ne hgt (by omega)).symm
      have hback : ahead seq s.seq = n - m := by
        rw [hns, hm, ahead_shift_shift _ (Nat.le_of_lt hgt), Nat.mod_eq_of_lt (by omega)]
      have hafter : compareU32 s.seq seq > 0 := compareU32_after (by
        have hswap := ahead_swap hne
        omega)
      have hnot : ¬ compareU32 s.seq seq < 0 := by omega
      simp only [Engine.placeSegment, hnot, gt_iff_lt, hafter, if_true, if_false]
      exact ⟨m, hlo, hhi, hnew, n, hgt, hnhi, hs, hrest⟩

end Place

section Reached

/-- How far the handler of a segment has come before it answers: the session is as it
was, up to the window and the acknowledgement, and the data may be queued. -/
structure Arrival.Reached (seg : Arrival) (d c : Conn) : Prop where
  forward : c.tcp.forward = d.tcp.forward ∨
    (seg.data.val ≠ [] ∧ c.tcp.forward = (queueTcp d.tcp seg.tcphdr seg.data).forward)
  remoteSeq : c.tcp.remoteSeq = d.tcp.remoteSeq
  localSeq : c.tcp.localSeq = d.tcp.localSeq
  socket : c.socket = d.socket
  accepted : c.out.accepted = d.out.accepted
  state : c.tcp.state = d.tcp.state ∨
    (seg.tcphdr.fin = false ∧ d.tcp.state = .synRecv ∧ c.tcp.state = .established)

def TcpState.Taking (state : TcpState) : Prop :=
  state ≠ .closeWait ∧ state ≠ .closing ∧ state ≠ .close

structure Arrival.Queues (seg : Arrival) (c : Conn) : Prop where
  data : seg.data.val ≠ []
  socket : 0 ≤ c.socket
  state : c.tcp.state.Taking
  fresh : ¬ compareU32 seg.tcphdr.seq c.tcp.remoteSeq < 0

/-- The session before the segment met the condition `K`, and only what `Reached` allows
has changed since. -/
def Cause.Under (K : Arrival → Conn → Prop) (a : Cause) (c : Conn) : Prop :=
  ∀ seg, a = .segment seg → c.tcp.state.Taking → ∃ d, K seg d ∧ seg.Reached d c

variable {K : Arrival → Conn → Prop} {a : Cause} {c d : Conn} {seg : Arrival}

theorem Arrival.Reached.refl (seg : Arrival) (c : Conn) : seg.Reached c c :=
  ⟨.inl rfl, rfl, rfl, rfl, rfl, .inl rfl⟩

theorem Cause.Under.start (hK : ∀ seg, a = .segment seg → K seg c) : a.Under K c :=
  fun seg ha _ => ⟨c, hK seg ha, .refl seg c⟩

theorem Arrival.Reached.queued (h : seg.Reached d c) :
    (queueTcp c.tcp seg.tcphdr seg.data).forward = (queueTcp d.tcp seg.tcphdr seg.data).forward := by
  rcases h.forward with hforward | ⟨-, hforward⟩
  · simp [queueTcp_eq, h.remoteSeq, hforward]
  · have hidem := congrArg TcpSession.forward (queueTcp_idem d.tcp seg.tcphdr seg.data)
    simp only [queueTcp_eq] at hforward hidem ⊢
    rw [h.remoteSeq, hforward]
    exact hidem

theorem Arrival.Reached.queues (h : seg.Reached d c) (hc : seg.Queues c) : seg.Queues d := by
  obtain ⟨hdata, hsocket, hstate, hfresh⟩ := hc
  refine ⟨hdata, h.socket ▸ hsocket, ?_, h.remoteSeq ▸ hfresh⟩
  rcases h.state with hsame | ⟨-, hold, -⟩
  · exact hsame ▸ hstate
  · simp [TcpState.Taking, hold]

/-- When data is queued now, it was not before, or queueing changes nothing. -/
theorem Cause.Under.queue (h : a.Under K c) (ha : a = .segment seg) (hdata : seg.data.val ≠ [])
    (hsocket : 0 ≤ c.socket) (hstate : c.tcp.state.Taking) :
    queueTcp c.tcp seg.tcphdr seg.data = c.tcp ∨
      ∃ d, K seg d ∧ seg.Queues d ∧ seg.Reached d c ∧ c.tcp.forward = d.tcp.forward := by
  by_cases hold : compareU32 seg.tcphdr.seq c.tcp.remoteSeq < 0
  · exact .inl (by simp [queueTcp, hold])
  obtain ⟨d, hK, hreached⟩ := h seg ha hstate
  rcases hreached.forward with hforward | ⟨-, hforward⟩
  · exact .inr ⟨d, hK, hreached.queues ⟨hdata, hsocket, hstate, hold⟩, hreached, hforward⟩
  · refine .inl ?_
    have hsame : (queueTcp c.tcp seg.tcphdr seg.data).forward = c.tcp.forward :=
      hreached.queued.trans hforward.symm
    rw [queueTcp_eq] at hsame ⊢
    dsimp only at hsame
    rw [hsame]

theorem Move.under {s t : Stage} (h : Move a s t) (hs : a.Under K s.conn) : a.Under K t.conn := by
  intro seg ha htaking
  cases h with
  | tidy =>
    obtain ⟨d, hK, hr⟩ := hs seg ha htaking
    exact ⟨d, hK, hr.forward, hr.remoteSeq, hr.localSeq, hr.socket, hr.accepted, hr.state⟩
  | quiet o ho =>
    obtain ⟨d, hK, hr⟩ := hs seg ha htaking
    refine ⟨d, hK, hr.forward, hr.remoteSeq, hr.localSeq, hr.socket, ?_, hr.state⟩
    simpa [Output.accepted_of_quiet ho] using hr.accepted
  | window =>
    obtain ⟨d, hK, hr⟩ := hs seg ha htaking
    exact ⟨d, hK, hr.forward, hr.remoteSeq, hr.localSeq, hr.socket, hr.accepted, hr.state⟩
  | @queue c fwd seg' ha' hdata hsocket hstate =>
    obtain rfl : seg' = seg := by simpa [ha'] using ha
    obtain ⟨d, hK, hr⟩ := hs seg' ha hstate
    refine ⟨d, hK, .inr ⟨hdata, hr.queued⟩, ?_, ?_, hr.socket, hr.accepted, ?_⟩
    · simpa [queueTcp_eq] using hr.remoteSeq
    · simpa [queueTcp_eq] using hr.localSeq
    · simpa [queueTcp_eq] using hr.state
  | abort => simp [TcpState.Taking] at htaking
  | @reset c fwd written =>
    by_cases hclose : c.tcp.state = .close <;> simp [TcpState.Taking, hclose] at htaking
  | countFin _ _ _ _ _ written => cases written <;> simp [TcpState.Taking] at htaking
  | holdFin => simp [TcpState.Taking] at htaking
  | lastFin _ _ _ _ written => cases written <;> simp [TcpState.Taking] at htaking
  | @ackAll c fwd seg' ha' hfin hack state hstate =>
    obtain rfl : seg' = seg := by simpa [ha'] using ha
    rcases hstate with rfl | ⟨hold, rfl⟩ | ⟨_, rfl⟩
    · obtain ⟨d, hK, hr⟩ := hs seg' ha htaking
      exact ⟨d, hK, hr.forward, hr.remoteSeq, hr.localSeq, hr.socket, hr.accepted, hr.state⟩
    · obtain ⟨d, hK, hr⟩ := hs seg' ha (by simp [TcpState.Taking, hold])
      refine ⟨d, hK, hr.forward, hr.remoteSeq, hr.localSeq, hr.socket, hr.accepted, .inr ⟨hfin, ?_, rfl⟩⟩
      rcases hr.state with hsame | ⟨_, _, hnew⟩
      · exact hsame.symm.trans hold
      · simp [hold] at hnew
    · simp [TcpState.Taking] at htaking
  | ackSome =>
    obtain ⟨d, hK, hr⟩ := hs seg ha htaking
    exact ⟨d, hK, hr.forward, hr.remoteSeq, hr.localSeq, hr.socket, hr.accepted, hr.state⟩
  | send ha' => simp [ha'] at ha
  | synAck ha' => simp [ha, Cause.isSegment] at ha'
  | confirmFin ha' => simp [ha, Cause.isSegment] at ha'
  | ack ha' => simp [ha, Cause.isSegment] at ha'
  | keepAlive ha' => simp [ha, Cause.isSegment] at ha'
  | data ha' => simp [ha, Cause.isSegment] at ha'
  | fin ha' => simp [ha, Cause.isSegment] at ha'
  | close ha' => simp [ha, Cause.isSegment] at ha'
  | closed ha' => simp [ha, Cause.isSegment] at ha'

end Reached

end NetGuard.Engine
