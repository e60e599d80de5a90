import NetGuard.Tcp.Queue

/-! # Bytes waiting in the forward list

No queued segment has more bytes sent than it holds, as long as no segment is shortened
below what of it was sent, and then the advertised window is what the socket buffer has
left for the app.
-/
namespace NetGuard.Engine
open Serial

variable {args : Arguments} {c : Conn}

section Unsent
variable {queue : List Segment}

def unsentBytes (queue : List Segment) : ℕ :=
  (queue.map fun g => g.data.val.length - g.sent.toNat).sum

@[simp] theorem unsentBytes_nil : unsentBytes [] = 0 := rfl

@[simp] theorem unsentBytes_cons (g : Segment) (rest : List Segment) :
    unsentBytes (g :: rest) = g.data.val.length - g.sent.toNat + unsentBytes rest := by
  simp [unsentBytes]

theorem Segment.unsent_toNat {g : Segment} (h : g.sent.toNat ≤ g.data.val.length) :
    g.unsent.toNat = g.data.val.length - g.sent.toNat := by
  have hle : g.sent.toUInt32 ≤ g.len.toUInt32 := by
    simpa [UInt32.le_iff_toNat_le] using h
  rw [Segment.unsent, UInt32.toNat_sub_of_le _ _ hle]
  simp

theorem toForward_toNat (hsent : ∀ g ∈ queue, g.sent.toNat ≤ g.data.val.length) :
    (toForward queue).toNat = unsentBytes queue % 2 ^ 32 := by
  have hfold (sum : UInt32) : (queue.foldl (fun sum q => sum + q.unsent) sum).toNat =
      (sum.toNat + unsentBytes queue) % 2 ^ 32 := by
    induction queue generalizing sum with
    | nil => simp
    | cons g rest ih =>
      have hg := Segment.unsent_toNat (hsent g (by simp))
      rw [List.foldl_cons, ih (fun g hg => hsent g (by simp [hg])), UInt32.toNat_add, hg,
        unsentBytes_cons]
      omega
  simp [toForward, hfold]

theorem unsentBytes_placeSegment (seq : UInt32) (psh : Bool) (data : Payload)
    (queue : List Segment) :
    unsentBytes (placeSegment seq psh data queue) ≤ unsentBytes queue + data.val.length := by
  induction queue with
  | nil => simp [placeSegment]
  | cons s rest ih =>
    simp only [placeSegment]
    split
    · simp only [unsentBytes_cons]
      omega
    split
    · simp only [unsentBytes_cons, UInt16.toNat_zero]
      omega
    split <;> simp only [unsentBytes_cons] <;> omega

theorem min_shifted_window {buffer : UInt32} {scale : UInt8} (hbuffer : buffer.toNat < 2 ^ 31)
    (hscale : scale.toNat < 32) :
    (if buffer > 0xFFFF <<< scale.toUInt32 then 0xFFFF <<< scale.toUInt32 else buffer).toNat =
      min buffer.toNat (65535 * 2 ^ scale.toNat) := by
  have hmax : ((0xFFFF : UInt32) <<< scale.toUInt32).toNat = 65535 * 2 ^ scale.toNat % 2 ^ 32 := by
    simp [UInt32.toNat_shiftLeft, Nat.shiftLeft_eq, Nat.mod_eq_of_lt hscale]
  by_cases hsmall : scale.toNat ≤ 16
  · have hpow : 2 ^ scale.toNat ≤ 2 ^ 16 := Nat.pow_le_pow_right (by decide) hsmall
    rw [Nat.mod_eq_of_lt (by omega)] at hmax
    split
    next h =>
      have hlt := UInt32.lt_iff_toNat_lt.mp h
      omega
    next h =>
      have hle := UInt32.le_iff_toNat_le.mp (UInt32.not_lt.mp h)
      omega
  · -- the shift drops high bits here, but what remains is more than any socket buffer
    have hwrapped : 2 ^ 31 ≤ 65535 * 2 ^ scale.toNat % 2 ^ 32 := by
      have hcases : ∀ k : ℕ, k < 32 → ¬ k ≤ 16 → 2 ^ 31 ≤ 65535 * 2 ^ k % 2 ^ 32 := by decide
      exact hcases scale.toNat hscale hsmall
    have hpow : 2 ^ 17 ≤ 2 ^ scale.toNat := Nat.pow_le_pow_right (by decide) (by omega)
    rw [if_neg (by
      intro h
      have hlt := UInt32.lt_iff_toNat_lt.mp h
      omega)]
    omega

end Unsent

/-- Queueing the segment keeps the books: it does not cut off bytes that were sent, and
all waiting bytes together fit in 32 bits. -/
def Arrival.Fits (seg : Arrival) (c : Conn) : Prop :=
  seg.Queues c →
    (∀ g ∈ c.tcp.forward, g.seq = seg.tcphdr.seq → g.sent.toNat ≤ seg.data.val.length) ∧
      unsentBytes c.tcp.forward + seg.data.val.length < 2 ^ 32

structure Accounted (scale : UInt8) (s : Stage) : Prop where
  scale : s.conn.tcp.recvScale = scale
  sent : ∀ g ∈ s.conn.tcp.forward, g.sent.toNat ≤ g.data.val.length
  total : unsentBytes s.conn.tcp.forward < 2 ^ 32

theorem Accounted.queueTcp {scale : UInt8} {fwd : Bool} {seg : Arrival}
    (hs : Accounted scale ⟨c, fwd⟩)
    (hold : ∀ g ∈ c.tcp.forward, g.seq = seg.tcphdr.seq → g.sent.toNat ≤ seg.data.val.length)
    (hroom : unsentBytes c.tcp.forward + seg.data.val.length < 2 ^ 32) :
    Accounted scale ⟨{ c with tcp := queueTcp c.tcp seg.tcphdr seg.data }, fwd⟩ := by
  rw [queueTcp_eq]
  split
  · exact hs
  refine ⟨hs.scale, ?_, ?_⟩
  · intro g hg
    rcases mem_placeSegment hg with hg | rfl | ⟨s, hmem, hseq, rfl⟩
    · exact hs.sent g hg
    · simp
    · exact hold s hmem hseq
  · exact Nat.lt_of_le_of_lt (unsentBytes_placeSegment _ _ _ _) hroom

theorem Move.accounted {scale : UInt8} {a : Cause} {s t : Stage} (h : Move a s t)
    (hunder : a.Under Arrival.Fits s.conn) (hs : Accounted scale s) : Accounted scale t := by
  obtain ⟨hscale, hsent, htotal⟩ := hs
  cases h with
  | @queue c fwd seg ha hdata hsocket hstate =>
    rcases hunder.queue ha hdata hsocket hstate with hsame | ⟨d, hfits, hqueues, -, hforward⟩
    · rw [hsame]
      exact ⟨hscale, hsent, htotal⟩
    · obtain ⟨hold, hroom⟩ := hfits hqueues
      rw [← hforward] at hold hroom
      exact Accounted.queueTcp ⟨hscale, hsent, htotal⟩ hold hroom
  | reset written => exact ⟨by simpa using hscale, by simpa using hsent, by simpa using htotal⟩
  | @send c fwd seg rest ha n hforward hseq hle hn hlisten sent =>
    simp only [hforward, List.forall_mem_cons, unsentBytes_cons] at hsent htotal
    by_cases hdone : seg.sent.toNat + n = seg.data.val.length
    · refine ⟨hscale, ?_, ?_⟩ <;> simp only [hdone, if_true]
      · exact hsent.2
      · omega
    · have hlen := seg.data.property
      have hnew : (seg.sent + UInt16.ofNat n).toNat = seg.sent.toNat + n := by
        rw [UInt16.toNat_add, UInt16.toNat_ofNat']
        omega
      refine ⟨hscale, ?_, ?_⟩ <;> simp only [hdone, if_false, List.forall_mem_cons,
        unsentBytes_cons, hnew]
      · exact ⟨hn, hsent.2⟩
      · omega
  | _ => exact ⟨hscale, hsent, htotal⟩

theorem Syn.Listening.accounted {syn : Syn} (h : syn.Listening c) :
    Accounted syn.ws ⟨c, false⟩ := by
  have hlen := syn.data.property
  refine ⟨h.recvScale, ?_, ?_⟩ <;> simp only [h.forward] <;> split
  · simp
  · simp
  · simp
  · simp only [unsentBytes_cons, UInt16.toNat_zero, unsentBytes_nil]
    omega

/-- As long as every arriving segment fits, no segment has more sent than it holds, and
the window is the free socket buffer, up to the largest window the scale can express,
less the bytes that wait. -/
theorem Syn.Opens.accounting {syn : Syn} (hopens : syn.Opens args c) (hscale : syn.ws.toNat < 32)
    {es : List (Env × TcpEvent)}
    (hrun : Run.Along (Conn.step args) (fun c e => ∀ seg, e.2.cause = .segment seg → seg.Fits c)
      c es) :
    (∀ g ∈ (c.run args es).tcp.forward, g.sent ≤ g.len ∧
      g.unsent.toNat = g.len.toNat - g.sent.toNat) ∧
    ∀ sendBuf unsent, (getReceiveWindow (c.run args es).tcp
        (getReceiveBuffer (c.run args es).socket sendBuf unsent)).toNat =
      min (getReceiveBuffer (c.run args es).socket sendBuf unsent).toNat
        (65535 * 2 ^ (c.run args es).tcp.recvScale.toNat) -
      unsentBytes (c.run args es).tcp.forward := by
  have hinv := hopens.run_history (P := fun _ c => Accounted syn.ws ⟨c, false⟩)
    (Q := fun _ a s => a.Under Arrival.Fits s.conn ∧ Accounted syn.ws s)
    (fun _ _ _ _ hmove hs => ⟨hmove.under hs.1, hmove.accounted hs.1 hs.2⟩)
    (fun _ _ _ hfits hs => ⟨Cause.Under.start hfits, hs⟩) (fun _ _ _ hs => hs.2)
    (fun _ hd => ⟨Cause.Under.start (by simp), hd.accounted⟩) hrun
  generalize c.run args es = d at hinv
  obtain ⟨hscaled, hsent, htotal⟩ := hinv
  refine ⟨fun g hg => ⟨?_, ?_⟩, ?_⟩
  · simpa [UInt16.le_iff_toNat_le] using hsent g hg
  · simpa using Segment.unsent_toNat (hsent g hg)
  · intro sendBuf unsent
    have hbuffer := getReceiveBuffer_le d.socket sendBuf unsent
    generalize getReceiveBuffer d.socket sendBuf unsent = buffer at hbuffer ⊢
    have hwindow := min_shifted_window hbuffer (hscaled ▸ hscale)
    have hwaiting : (toForward d.tcp.forward).toNat = unsentBytes d.tcp.forward := by
      rw [toForward_toNat hsent, Nat.mod_eq_of_lt htotal]
    simp only [getReceiveWindow]
    generalize (if buffer > 0xFFFF <<< d.tcp.recvScale.toUInt32 then
      0xFFFF <<< d.tcp.recvScale.toUInt32 else buffer) = window at hwindow ⊢
    rw [← hwindow, ← hwaiting]
    split
    next h => exact UInt32.toNat_sub_of_le _ _ (UInt32.le_of_lt h)
    next h =>
      have hle := UInt32.le_iff_toNat_le.mp (UInt32.not_lt.mp h)
      simp only [UInt32.toNat_zero]
      omega

/-- Three of four bytes were sent; then the app repeats the segment one byte longer. -/
theorem accounting_sample :
    let c := (Conn.sample 100 ⟨[], by decide⟩).run .direct (connected 100 ++
      [(.calm, .app (.acks 101 1 1000) ⟨[1, 2, 3, 4], by decide⟩),
        (Env.calm.taking 3, .ready false true),
        (.calm, .app (.acks 101 1 1000) ⟨[1, 2, 3, 4, 5], by decide⟩)])
    unsentBytes c.tcp.forward = 2 ∧ ∀ g ∈ c.tcp.forward, g.sent ≤ g.len := by
  have hrun : Run.Along (Conn.step .direct) (fun c e => ∀ seg, e.2.cause = .segment seg → seg.Fits c)
      (Conn.sample 100 ⟨[], by decide⟩) (connected 100 ++
        [(.calm, .app (.acks 101 1 1000) ⟨[1, 2, 3, 4], by decide⟩),
          (Env.calm.taking 3, .ready false true),
          (.calm, .app (.acks 101 1 1000) ⟨[1, 2, 3, 4, 5], by decide⟩)]) := by
    refine ⟨?_, ?_, ?_, ?_, ?_, trivial⟩ <;> rintro seg hcause
    · cases hcause
    · obtain rfl := Cause.segment.inj hcause
      intro hqueues
      exact absurd rfl hqueues.data
    · obtain rfl := Cause.segment.inj hcause
      exact fun _ => ⟨fun g hg => absurd hg List.not_mem_nil, by decide⟩
    · cases hcause
    · obtain rfl := Cause.segment.inj hcause
      refine fun _ => ⟨?_, by decide⟩
      intro g hg _
      obtain rfl := List.mem_singleton.mp hg
      decide
  have hsent := (Syn.Opens.accounting (Syn.sample_opens 100) (by decide) hrun).1
  exact ⟨rfl, fun g hg => (hsent g hg).1⟩

/-- When the app repeats it two bytes shorter, the segment has more sent than it holds. -/
theorem not_sent_le_len : ¬ ∀ (args : Arguments) (syn : Syn) (c : Conn)
    (es : List (Env × TcpEvent)), syn.Opens args c → syn.ws.toNat < 32 →
      ∀ g ∈ (c.run args es).tcp.forward, g.sent ≤ g.len := by
  intro h
  have hmore : ¬ ∀ g ∈ ((Conn.sample 100 ⟨[], by decide⟩).run .direct (connected 100 ++
      [(.calm, .app (.acks 101 1 1000) ⟨[1, 2, 3, 4], by decide⟩),
        (Env.calm.taking 3, .ready false true),
        (.calm, .app (.acks 101 1 1000) ⟨[1, 2], by decide⟩)])).tcp.forward,
      g.sent ≤ g.len := by
    decide +kernel
  apply hmore
  intro g hg
  exact h .direct (.sample 100 ⟨[], by decide⟩) (.sample 100 ⟨[], by decide⟩) _
    (Syn.sample_opens 100) (by decide) g hg

end NetGuard.Engine
