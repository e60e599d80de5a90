import NetGuard.Tcp.Order

/-! # The place of a segment

`queue_tcp` keeps the forward list in the order of the serial numbers, on both sides of
`remote_seq` and across the wrap. The span of its segments is narrow enough for
`compare_u32`, which sees positions in it in their order.
-/
namespace NetGuard.Engine
open Serial

section Span
variable {base remoteSeq seq : UInt32} {lo : ℕ} {queue : List Segment}

/-- Within 2^30 of `remote_seq`, behind it or before it. -/
def Near (remoteSeq seq : UInt32) : Prop :=
  ahead remoteSeq seq < 2 ^ 30 ∨ ahead seq remoteSeq < 2 ^ 30

/-- Where the span of what is near starts. -/
def spanStart (remoteSeq : UInt32) : UInt32 := remoteSeq - 0x3FFFFFFF

theorem near_iff : Near remoteSeq seq ↔ ahead (spanStart remoteSeq) seq < 2 ^ 31 - 1 := by
  have hremote := remoteSeq.toNat_lt
  have hseq := seq.toNat_lt
  have hback : (0x3FFFFFFF : UInt32).toNat = 2 ^ 30 - 1 := rfl
  simp only [Near, spanStart, ahead_eq, UInt32.toNat_sub, hback]
  omega

def Increasing (queue : List Segment) : Prop := queue.Pairwise fun g h => Lt g.seq h.seq

theorem increasing_iff (hnear : ∀ g ∈ queue, Near remoteSeq g.seq) :
    Increasing queue ↔ InOrder (spanStart remoteSeq) 0 queue := by
  have hclose (g : Segment) (hg : g ∈ queue) :
      ahead (spanStart remoteSeq) g.seq ≤ 2 ^ 31 - 2 := by
    have hlt := near_iff.mp (hnear g hg)
    omega
  have hpairs : Increasing queue ↔ queue.Pairwise fun g h =>
      ahead (spanStart remoteSeq) g.seq < ahead (spanStart remoteSeq) h.seq := by
    apply List.Pairwise.iff_of_mem
    intro g h hg hh
    have hg' := hclose g hg
    have hh' := hclose h hh
    exact lt_iff_ahead_lt (by omega) (by omega)
  rw [inOrder_iff, hpairs]
  constructor
  · intro h
    exact ⟨fun g hg => ⟨Nat.zero_le _, hclose g hg⟩, h⟩
  · rintro ⟨-, h⟩
    exact h

theorem compareU32_neg_of_near (hnear : Near remoteSeq seq) :
    compareU32 seq remoteSeq < 0 ↔ ¬ Le remoteSeq seq := by
  by_cases hsame : seq = remoteSeq
  · subst hsame
    simp [compareU32, Le]
  have hswap := ahead_swap hsame
  have hpos : 0 < ahead seq remoteSeq := by
    rw [Nat.pos_iff_ne_zero, Ne, ahead_eq_zero]
    exact fun h => hsame h.symm
  constructor
  · intro hneg hle
    have hback := ahead_of_compareU32_neg hneg
    rw [Le] at hle
    rcases hnear with hahead | hbehind <;> omega
  · intro hbefore
    rw [Le] at hbefore
    have hdist : ahead seq remoteSeq < 2 ^ 30 := by
      rcases hnear with hahead | hbehind <;> omega
    exact compareU32_before hpos (by omega)

/-- What is queued at the number with the same length stays as it is. -/
theorem InOrder.placeSegment_same {g : Segment} {psh : Bool} {data : Payload}
    (h : InOrder base lo queue) (hlo : ahead base g.seq ≤ 2 ^ 31 - 2) (hg : g ∈ queue)
    (hlen : g.data.val.length = data.val.length) :
    Engine.placeSegment g.seq psh data queue = queue := by
  obtain ⟨hbounds, hpairs⟩ := inOrder_iff.mp h
  clear h
  induction queue with
  | nil => simp at hg
  | cons s rest ih =>
    obtain ⟨hs, hrest⟩ := List.forall_mem_cons.mp hbounds
    obtain ⟨hfirst, hpairs⟩ := List.pairwise_cons.mp hpairs
    rcases List.mem_cons.mp hg with rfl | hmem
    · have hzero : compareU32 g.seq g.seq = 0 := by simp [compareU32]
      simp [Engine.placeSegment, hzero, hlen]
    · have hlt : Lt s.seq g.seq := (lt_iff_ahead_lt (by omega) (by omega)).mpr (hfirst g hmem)
      have hdist : ahead s.seq g.seq < 2 ^ 31 - 1 := by
        rw [ahead_eq_sub (Nat.le_of_lt (hfirst g hmem))]
        omega
      have hbefore : compareU32 s.seq g.seq < 0 := compareU32_before hlt.1 hdist
      simp only [Engine.placeSegment, hbefore, if_true, ih hmem hrest hpairs]

end Span

section Queue
variable {cur : TcpSession} {tcphdr : TcpHdr} {data : Payload}

/-- What queueing a segment makes of the forward list. -/
structure Placed (cur : TcpSession) (tcphdr : TcpHdr) (data : Payload) (queue : List Segment) :
    Prop where
  increasing : Increasing queue
  nodup : (queue.map Segment.seq).Nodup
  others : ∀ g, g.seq ≠ tcphdr.seq → (g ∈ queue ↔ g ∈ cur.forward)
  before : ¬ Le cur.remoteSeq tcphdr.seq → queue = cur.forward
  queued : ∀ g ∈ cur.forward, g.seq = tcphdr.seq → g.data.val.length = data.val.length →
    queue = cur.forward
  present : Le cur.remoteSeq tcphdr.seq →
    (∀ g ∈ cur.forward, g.seq = tcphdr.seq → g.data.val.length ≠ data.val.length) →
    ∃ g ∈ queue, g.seq = tcphdr.seq ∧ g.data = data

theorem Increasing.nodup {queue : List Segment} (h : Increasing queue) :
    (queue.map Segment.seq).Nodup := by
  rw [List.Nodup, List.pairwise_map]
  exact h.imp Lt.ne

/-- The forward list stays strictly increasing, and only the segment at the new number
changes. -/
theorem queueTcp_placed (hincreasing : Increasing cur.forward)
    (hqueue : ∀ g ∈ cur.forward, Near cur.remoteSeq g.seq)
    (hseq : Near cur.remoteSeq tcphdr.seq) :
    Placed cur tcphdr data (queueTcp cur tcphdr data).forward := by
  have horder := (increasing_iff hqueue).mp hincreasing
  have hclose := near_iff.mp hseq
  rw [queueTcp_eq]
  simp only [compareU32_neg_of_near hseq]
  by_cases hle : Le cur.remoteSeq tcphdr.seq
  · rw [if_neg (not_not_intro hle)]
    have hplaced : InOrder (spanStart cur.remoteSeq) 0
        (placeSegment tcphdr.seq tcphdr.psh data cur.forward) :=
      horder.placeSegment (Nat.zero_le _) hclose
    have hnear : ∀ g ∈ placeSegment tcphdr.seq tcphdr.psh data cur.forward,
        Near cur.remoteSeq g.seq := by
      intro g hg
      exact near_iff.mpr (hplaced.ahead_lt hg)
    have hincreasing' := (increasing_iff hnear).mpr hplaced
    refine ⟨hincreasing', hincreasing'.nodup, fun g hne => mem_placeSegment_of_ne hne,
      fun hnot => absurd hle hnot, ?_, fun _ hother => exists_placeSegment hother⟩
    intro g hg hsame hlen
    rw [← hsame]
    exact horder.placeSegment_same (by rw [hsame]; omega) hg hlen
  · rw [if_pos hle]
    exact ⟨hincreasing, hincreasing.nodup, fun _ _ => Iff.rfl, fun _ => rfl, fun _ _ _ _ => rfl,
      fun h => absurd h hle⟩

/-- Two segments on both sides of the wrap. -/
def TcpSession.sampleForward : TcpSession :=
  { (Conn.sample 100 ⟨[], length_nil_lt⟩).tcp with
    remoteSeq := 0xFFFFFFF0
    forward := [⟨0xFFFFFFF8, 0, false, ⟨[], length_nil_lt⟩⟩, ⟨8, 0, false, ⟨[], length_nil_lt⟩⟩] }

/-- A segment between them. -/
theorem queueTcp_placed_sample :
    Placed .sampleForward (.bare 2 1 1000) ⟨[7], by decide⟩
        (queueTcp .sampleForward (.bare 2 1 1000) ⟨[7], by decide⟩).forward ∧
      (queueTcp .sampleForward (.bare 2 1 1000) ⟨[7], by decide⟩).forward.map Segment.seq =
        [0xFFFFFFF8, 2, 8] := by
  refine ⟨queueTcp_placed ?_ ?_ ?_, rfl⟩
  · rw [Increasing]
    decide
  · simp only [Near]
    decide
  · simp only [Near]
    decide

end Queue

end NetGuard.Engine
