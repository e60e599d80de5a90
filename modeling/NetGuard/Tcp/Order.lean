import NetGuard.Tcp.Queue
import Mathlib.Data.List.Chain

/-! # The order of the forward list

Past `LISTEN` the queued segments stand in the order of their sequence numbers and none
lies before `remote_seq`, as long as the segments that are drained do not overlap. What
waits at `remote_seq` is then the head, and the drain loop sends it.
-/
namespace NetGuard.Engine
open Serial

variable {args : Arguments} {c : Conn}

/-- Segments in the order of their sequence numbers, counted from `base` and before the
far side of the circle. -/
def InOrder (base : UInt32) (lo : ℕ) (queue : List Segment) : Prop :=
  Ascending (fun n g => g.seq = shift base n) (2 ^ 31 - 2) lo queue

section InOrder
variable {base : UInt32} {lo : ℕ} {queue rest : List Segment} {g seg : Segment}

theorem inOrder_iff : InOrder base lo queue ↔
    (∀ g ∈ queue, lo ≤ ahead base g.seq ∧ ahead base g.seq ≤ 2 ^ 31 - 2) ∧
      queue.Pairwise fun g h => ahead base g.seq < ahead base h.seq := by
  apply Ascending.iff_pairwise
  intro n g hn
  constructor
  · intro hseq
    rw [hseq, ahead_shift, Nat.mod_eq_of_lt (by omega)]
  · rintro rfl
    exact (shift_ahead base g.seq).symm

theorem InOrder.ahead_lt (h : InOrder base lo queue) (hg : g ∈ queue) :
    ahead base g.seq < 2 ^ 31 - 1 := by
  have hle := ((inOrder_iff.mp h).1 g hg).2
  omega

theorem InOrder.placeSegment {tcphdr : TcpHdr} {data : Payload} (h : InOrder base lo queue)
    (hlo : lo ≤ ahead base tcphdr.seq) (hhi : ahead base tcphdr.seq < 2 ^ 31 - 1) :
    InOrder base lo (placeSegment tcphdr.seq tcphdr.psh data queue) :=
  Ascending.placeSegment (b := base) (m := ahead base tcphdr.seq) (fun _ _ hseq => hseq)
    (by omega) hlo (by omega) (shift_ahead base tcphdr.seq).symm (fun _ hg => hg) h

theorem InOrder.advance {k : ℕ} (h : InOrder base lo queue) (hk : k ≤ lo) :
    InOrder (shift base k) (lo - k) queue := by
  have hshift := Ascending.shift (k := k) (S := fun n g => g.seq = shift (shift base k) n)
    (fun n g hn hseq => by rw [hseq, shift_add, Nat.add_sub_cancel' hn]) h hk
  exact hshift.mono_hi (by omega)

theorem InOrder.cons_base (h : InOrder base 0 (seg :: rest)) (hseq : seg.seq = base) :
    InOrder base 1 rest := by
  obtain ⟨n, -, hn, hs, hrest⟩ := h
  have hzero : n = 0 := by
    have hahead := ahead_shift base n
    rw [← hs, hseq, ahead_self, Nat.mod_eq_of_lt (by omega)] at hahead
    exact hahead.symm
  subst hzero
  exact hrest

theorem InOrder.drop_before {k : ℕ} (h : InOrder base 1 rest)
    (hnext : ∀ next ∈ rest.head?, k ≤ ahead base next.seq) : InOrder base k rest := by
  cases rest with
  | nil => trivial
  | cons next rest =>
    obtain ⟨n, -, hn, hs, hrest⟩ := h
    have hk := hnext next rfl
    rw [hs, ahead_shift, Nat.mod_eq_of_lt (by omega)] at hk
    exact ⟨n, hk, hn, hs, hrest⟩

/-- Only the head of the list can hold the byte at its base. -/
theorem InOrder.head_of_covers (h : InOrder base 0 queue) (hg : g ∈ queue)
    (hcover : ahead g.seq base < g.data.val.length) : g.seq = base ∧ queue.head? = some g := by
  have hlen := g.data.property
  have hseq : g.seq = base := by
    by_contra hne
    have hclose := h.ahead_lt hg
    have hswap := ahead_swap hne
    omega
  refine ⟨hseq, ?_⟩
  cases queue with
  | nil => simp at hg
  | cons seg rest =>
    rcases List.mem_cons.mp hg with rfl | hmem
    · rfl
    · have hpairs := (List.pairwise_cons.mp (inOrder_iff.mp h).2).1 g hmem
      rw [hseq, ahead_self] at hpairs
      exact absurd hpairs (Nat.not_lt_zero _)

end InOrder

def Apart (queue : List Segment) : Prop :=
  queue.IsChain fun g next => g.data.val.length ≤ ahead g.seq next.seq

theorem Apart.head {seg : Segment} {rest : List Segment} (h : Apart (seg :: rest)) :
    ∀ next ∈ rest.head?, seg.data.val.length ≤ ahead seg.seq next.seq := by
  cases rest with
  | nil => simp
  | cons next rest =>
    rintro _ ⟨⟩
    exact (List.isChain_cons_cons.mp h).1

theorem Apart.replace {seg : Segment} {rest : List Segment} (h : Apart (seg :: rest))
    (sent : UInt16) : Apart ({ seg with sent } :: rest) := by
  cases rest with
  | nil => exact .singleton _
  | cons next rest =>
    obtain ⟨hnext, hrest⟩ := List.isChain_cons_cons.mp h
    exact List.isChain_cons_cons.mpr ⟨hnext, hrest⟩

def TcpState.Proxying (state : TcpState) : Prop :=
  state ≠ .listen ∧ state ≠ .closing ∧ state ≠ .close

/-- The number of the data is one `compare_u32` can place behind `remote_seq`, and not
that of the SYN. -/
def Arrival.InReach (seg : Arrival) (c : Conn) : Prop :=
  seg.Queues c → ahead c.tcp.remoteSeq seg.tcphdr.seq < 2 ^ 31 - 1 ∧
    (c.tcp.state = .listen → seg.tcphdr.seq ≠ c.tcp.remoteSeq)

structure Ordered (a : Cause) (s : Stage) : Prop where
  listening : s.conn.tcp.state = .listen → InOrder s.conn.tcp.remoteSeq 1 s.conn.tcp.forward
  past : s.conn.tcp.state.Proxying → InOrder s.conn.tcp.remoteSeq 0 s.conn.tcp.forward
  apart : a = .writable → Apart s.conn.tcp.forward

theorem Ordered.queueTcp {fwd : Bool} {seg : Arrival} (hs : Ordered (.segment seg) ⟨c, fwd⟩)
    (hahead : ahead c.tcp.remoteSeq seg.tcphdr.seq < 2 ^ 31 - 1)
    (hsyn : c.tcp.state = .listen → seg.tcphdr.seq ≠ c.tcp.remoteSeq) :
    Ordered (.segment seg) ⟨{ c with tcp := queueTcp c.tcp seg.tcphdr seg.data }, fwd⟩ := by
  rw [queueTcp_eq]
  split
  · exact hs
  refine ⟨?_, ?_, nofun⟩
  · intro hlisten
    have hpos : 1 ≤ ahead c.tcp.remoteSeq seg.tcphdr.seq :=
      Nat.one_le_iff_ne_zero.mpr fun hzero => hsyn hlisten (ahead_eq_zero.mp hzero)
    exact (hs.listening hlisten).placeSegment hpos hahead
  · intro hpast
    exact (hs.past hpast).placeSegment (Nat.zero_le _) hahead

theorem Ordered.drained {fwd : Bool} {seg : Segment} {rest : List Segment}
    (hs : Ordered .writable ⟨c, fwd⟩) (hstate : c.tcp.state.Proxying)
    (hforward : c.tcp.forward = seg :: rest) (hseq : seg.seq = c.tcp.remoteSeq) :
    InOrder (c.tcp.remoteSeq + seg.len.toUInt32) 0 rest := by
  have hpast := hs.past hstate
  have hapart := hs.apart rfl
  rw [hforward] at hpast hapart
  have hbehind := (hpast.cons_base hseq).drop_before (by rw [← hseq]; exact hapart.head)
  have hnext := hbehind.advance (Nat.le_refl _)
  rw [← Segment.add_len] at hnext
  exact Ascending.mono_lo hnext (Nat.zero_le _)

theorem Move.ordered {a : Cause} {s t : Stage} (h : Move a s t)
    (hunder : a.Under Arrival.InReach s.conn) (hs : Ordered a s) : Ordered a t := by
  have hclosing {t : Stage} (hstate : t.conn.tcp.state = .closing ∨ t.conn.tcp.state = .close)
      (hforward : t.conn.tcp.forward = s.conn.tcp.forward) : Ordered a t := by
    refine ⟨?_, ?_, fun ha => hforward ▸ hs.apart ha⟩
    · intro h
      rcases hstate with hnow | hnow <;> simp [hnow] at h
    · intro h
      rcases hstate with hnow | hnow <;> simp [TcpState.Proxying, hnow] at h
  have hempty {t : Stage} (hforward : t.conn.tcp.forward = []) : Ordered a t := by
    refine ⟨fun _ => ?_, fun _ => ?_, fun _ => ?_⟩ <;> rw [hforward]
    · trivial
    · trivial
    · exact .nil
  obtain ⟨hlistening, hpast, hapart⟩ := hs
  cases h with
  | @queue c fwd seg ha hdata hsocket hstate =>
    subst ha
    rcases hunder.queue rfl hdata hsocket hstate with hsame | ⟨d, hreach, hqueues, hr, hforward⟩
    · rw [hsame]
      exact ⟨hlistening, hpast, hapart⟩
    · obtain ⟨hahead, hsyn⟩ := hreach hqueues
      refine Ordered.queueTcp ⟨hlistening, hpast, hapart⟩ (hr.remoteSeq ▸ hahead) ?_
      intro hlisten
      rcases hr.state with hsame | ⟨-, -, hnew⟩
      · exact hr.remoteSeq ▸ hsyn (hsame.symm.trans hlisten)
      · exact absurd (hnew.symm.trans hlisten) (by decide)
  | abort => exact hclosing (.inl rfl) rfl
  | @reset c fwd written => exact hclosing (by by_cases h : c.tcp.state = .close <;> simp [h]) (by simp)
  | countFin _ _ _ _ hforward _ => exact hempty hforward
  | @holdFin c fwd seg ha hfin hadmitted hstate hforward =>
    exact ⟨by simp, fun _ => hpast (by simp [TcpState.Proxying, hstate]), hapart⟩
  | lastFin _ _ _ _ written => exact hclosing (by cases written <;> simp) rfl
  | @ackAll c fwd seg ha hfin hack state hstate =>
    rcases hstate with rfl | ⟨hold, rfl⟩ | ⟨_, rfl⟩
    · exact ⟨hlistening, hpast, hapart⟩
    · exact ⟨by simp, fun _ => hpast (by simp [TcpState.Proxying, hold]), hapart⟩
    · exact hclosing (.inl rfl) rfl
  | @synAck c fwd ha hstate time written =>
    cases written with
    | false => exact hclosing (.inl rfl) rfl
    | true => exact ⟨by simp, fun _ => (hlistening hstate).advance (Nat.le_refl 1), hapart⟩
  | @send c fwd seg rest ha n hforward hseq hsent hn hlisten sent =>
    subst ha
    have hdrained (h : c.tcp.state.Proxying) :=
      Ordered.drained ⟨hlistening, hpast, hapart⟩ h hforward hseq
    rw [hforward] at hpast hapart
    by_cases hdone : seg.sent.toNat + n = seg.data.val.length
    · refine ⟨fun h => absurd h hlisten, fun h => ?_, fun _ => ?_⟩ <;> simp only [hdone, if_true]
      · exact hdrained h
      · exact (hapart rfl).of_cons
    · refine ⟨fun h => absurd h hlisten, fun h => ?_, fun _ => ?_⟩ <;> simp only [hdone, if_false]
      · exact hpast h
      · exact (hapart rfl).replace _
  | confirmFin _ _ hforward _ => exact hempty hforward
  | @ack c fwd ha hforward hlisten written =>
    cases written with
    | false => exact hclosing (.inl rfl) rfl
    | true => exact ⟨hlistening, hpast, hapart⟩
  | keepAlive ha hstate written =>
    cases written with
    | false => exact hclosing (.inl rfl) rfl
    | true => exact ⟨hlistening, hpast, hapart⟩
  | data ha hstate bytes hbytes hsize dns hdns written =>
    cases written with
    | false => exact hclosing (.inl rfl) rfl
    | true => exact ⟨hlistening, hpast, hapart⟩
  | fin _ _ hforward _ _ _ => exact hempty hforward
  | close ha hstate => exact hclosing (.inl hstate) rfl
  | closed => exact hclosing (.inr rfl) rfl
  | _ => exact ⟨hlistening, hpast, hapart⟩

section Drain

theorem forwardLoop_out (env : Env) (queue : List Segment) (c : Conn) (bufferSize : UInt32)
    (fwd : Bool) : ∃ os, (forwardLoop env queue c bufferSize fwd).1.out = c.out ++ os := by
  induction queue generalizing c bufferSize fwd with
  | nil => exact ⟨[], by simp [forwardLoop]⟩
  | cons seg rest ih =>
    simp only [forwardLoop]
    split
    · split
      next => exact ⟨_, rfl⟩
      next => exact ⟨_, by rw [writeRst_eq]; simp; rfl⟩
      next n _ =>
        split
        · obtain ⟨os, hos⟩ := ih { (c.emit (.send c.socket (seg.seq + seg.sent.toUInt32)
              (seg.data.val.drop seg.sent.toNat) (some n))) with
              tcp.sent := c.tcp.sent + UInt64.ofNat n
              tcp.remoteSeq := seg.seq + (seg.sent + UInt16.ofNat n).toUInt32 }
            (bufferSize - UInt32.ofNat n) true
          exact ⟨_, hos.trans (by simp; rfl)⟩
        · exact ⟨_, rfl⟩
    · exact ⟨[], by simp⟩

/-- When the head waits at `remote_seq` and the socket has room, the drain loop starts
with a `send` of the head. -/
theorem forwardLoop_sends (env : Env) {seg : Segment} {rest : List Segment} {c : Conn}
    {bufferSize : UInt32} (hseq : seg.seq = c.tcp.remoteSeq) (hroom : seg.unsent < bufferSize)
    (fwd : Bool) :
    ∃ accepted os, (forwardLoop env (seg :: rest) c bufferSize fwd).1.out =
      c.out ++ .send c.socket (seg.seq + seg.sent.toUInt32)
        (seg.data.val.drop seg.sent.toNat) accepted :: os := by
  have hgo : seg.seq = c.tcp.remoteSeq ∧ seg.unsent < bufferSize := ⟨hseq, hroom⟩
  simp only [forwardLoop, if_pos hgo]
  split
  next => exact ⟨none, [], rfl⟩
  next => exact ⟨none, _, by rw [writeRst_eq]; simp; rfl⟩
  next n _ =>
    split
    · obtain ⟨os, hos⟩ := forwardLoop_out env rest
        { (c.emit (.send c.socket (seg.seq + seg.sent.toUInt32)
            (seg.data.val.drop seg.sent.toNat) (some n))) with
          tcp.sent := c.tcp.sent + UInt64.ofNat n
          tcp.remoteSeq := seg.seq + (seg.sent + UInt16.ofNat n).toUInt32 }
        (bufferSize - UInt32.ofNat n) true
      exact ⟨some n, os, hos.trans (by simp)⟩
    · exact ⟨some n, [], rfl⟩

end Drain

theorem Syn.Listening.ordered {syn : Syn} (h : syn.Listening c) (hdata : syn.data.val = []) :
    Ordered .other ⟨c, false⟩ := by
  have hforward : c.tcp.forward = [] := by simp [h.forward, hdata]
  refine ⟨fun _ => ?_, fun _ => ?_, nofun⟩ <;> rw [hforward] <;> trivial

/-- After a SYN without data, as long as data arrives in reach and what is drained does
not overlap: past `LISTEN` every queued segment lies at or after `remote_seq`, the segment
that holds the byte at `remote_seq` starts there and is the head, and the drain loop sends
it when the socket has room for it. -/
theorem Syn.Opens.no_orphan {syn : Syn} (hopens : syn.Opens args c) (hdata : syn.data.val = [])
    {es : List (Env × TcpEvent)}
    (hrun : Run.Along (Conn.step args) (fun c e =>
      (∀ seg, e.2.cause = .segment seg → seg.InReach c) ∧
        (e.2.cause = .writable → Apart c.tcp.forward)) c es)
    (hstate : (c.run args es).tcp.state.Proxying) :
    (∀ g ∈ (c.run args es).tcp.forward,
      ¬ compareU32 g.seq (c.run args es).tcp.remoteSeq < 0 ∧
        ahead (c.run args es).tcp.remoteSeq g.seq < 2 ^ 31) ∧
    ∀ g ∈ (c.run args es).tcp.forward,
      ahead g.seq (c.run args es).tcp.remoteSeq < g.data.val.length →
      g.seq = (c.run args es).tcp.remoteSeq ∧ (c.run args es).tcp.forward.head? = some g ∧
      ∀ (env : Env) (bufferSize : UInt32), g.unsent < bufferSize → ∃ accepted os,
        (forwardLoop env (c.run args es).tcp.forward (c.run args es) bufferSize false).1.out =
          (c.run args es).out ++ .send (c.run args es).socket (g.seq + g.sent.toUInt32)
            (g.data.val.drop g.sent.toNat) accepted :: os := by
  have hinv := hopens.run_history (P := fun _ c => Ordered .other ⟨c, false⟩)
    (Q := fun _ a s => a.Under Arrival.InReach s.conn ∧ Ordered a s)
    (fun _ _ _ _ hmove hs => ⟨hmove.under hs.1, hmove.ordered hs.1 hs.2⟩)
    (fun _ _ _ hmet hs => ⟨Cause.Under.start hmet.1, hs.listening, hs.past, hmet.2⟩)
    (fun _ _ _ hs => ⟨hs.2.listening, hs.2.past, nofun⟩)
    (fun _ hd => ⟨Cause.Under.start (by simp), hd.ordered hdata⟩) hrun
  generalize c.run args es = d at hinv hstate ⊢
  have horder : InOrder d.tcp.remoteSeq 0 d.tcp.forward := hinv.past hstate
  refine ⟨?_, ?_⟩
  · intro g hg
    have hahead := horder.ahead_lt hg
    refine ⟨?_, by omega⟩
    intro hneg
    have hback := ahead_of_compareU32_neg hneg
    obtain ⟨hne, -⟩ := compareU32_neg_iff.mp hneg
    have hswap := ahead_swap hne
    omega
  · intro g hg hcover
    obtain ⟨hseq, hhead⟩ := horder.head_of_covers hg hcover
    refine ⟨hseq, hhead, ?_⟩
    intro env bufferSize hroom
    obtain ⟨rest, hforward⟩ := List.head?_eq_some_iff.mp hhead
    rw [hforward]
    exact forwardLoop_sends env hseq hroom false

/-- Two segments that meet, the later one first, and one beyond a gap. -/
theorem no_orphan_sample :
    let c := (Conn.sample 100 ⟨[], by decide⟩).run .direct (connected 100 ++
      [(.calm, .app (.acks 107 1 1000) ⟨[7], by decide⟩),
        (.calm, .app (.acks 104 1 1000) ⟨[4, 5], by decide⟩),
        (.calm, .app (.acks 101 1 1000) ⟨[1, 2, 3], by decide⟩), (.calm, .ready false true)])
    c.tcp.remoteSeq = 106 ∧ c.tcp.forward.map Segment.seq = [107] ∧
      ∀ g ∈ c.tcp.forward, ahead c.tcp.remoteSeq g.seq < 2 ^ 31 := by
  have hrun : Run.Along (Conn.step .direct) (fun c e =>
      (∀ seg, e.2.cause = .segment seg → seg.InReach c) ∧
        (e.2.cause = .writable → Apart c.tcp.forward)) (Conn.sample 100 ⟨[], by decide⟩)
      (connected 100 ++ [(.calm, .app (.acks 107 1 1000) ⟨[7], by decide⟩),
        (.calm, .app (.acks 104 1 1000) ⟨[4, 5], by decide⟩),
        (.calm, .app (.acks 101 1 1000) ⟨[1, 2, 3], by decide⟩), (.calm, .ready false true)]) := by
    refine ⟨⟨nofun, fun _ => .nil⟩, ⟨?_, nofun⟩, ⟨?_, nofun⟩, ⟨?_, nofun⟩, ⟨?_, nofun⟩,
      ⟨nofun, ?_⟩, trivial⟩
    · rintro _ ⟨⟩ hqueues
      exact absurd rfl hqueues.data
    · rintro _ ⟨⟩ -
      exact ⟨by decide, nofun⟩
    · rintro _ ⟨⟩ -
      exact ⟨by decide, nofun⟩
    · rintro _ ⟨⟩ -
      exact ⟨by decide, nofun⟩
    · intro _
      exact List.isChain_cons_cons.mpr ⟨by decide, List.isChain_cons_cons.mpr ⟨by decide, .singleton _⟩⟩
  have hopen := Syn.Opens.no_orphan (Syn.sample_opens 100) rfl hrun ⟨nofun, nofun, nofun⟩
  exact ⟨rfl, rfl, fun g hg => (hopen.1 g hg).2⟩

/-- When they overlap, draining the first strands the second before `remote_seq`. -/
theorem not_behind_remoteSeq : ¬ ∀ (args : Arguments) (syn : Syn) (c : Conn)
    (es : List (Env × TcpEvent)), syn.Opens args c → (c.run args es).tcp.state.Proxying →
      ∀ g ∈ (c.run args es).tcp.forward, ahead (c.run args es).tcp.remoteSeq g.seq < 2 ^ 31 := by
  intro h
  obtain ⟨c, hc⟩ : ∃ c, c = (Conn.sample 100 ⟨[], by decide⟩).run .direct (connected 100 ++
      [(.calm, .app (.acks 102 1 1000) ⟨[2, 3, 4], by decide⟩),
        (.calm, .app (.acks 101 1 1000) ⟨[1, 2, 3], by decide⟩), (.calm, .ready false true)]) :=
    ⟨_, rfl⟩
  have hforward : c.tcp.forward = [⟨102, 0, false, ⟨[2, 3, 4], by decide⟩⟩] := by rw [hc]; rfl
  have hremote : c.tcp.remoteSeq = 104 := by rw [hc]; rfl
  have hstate : c.tcp.state = .established := by rw [hc]; rfl
  have hopen : c.tcp.state.Proxying := by
    rw [hstate]
    exact ⟨nofun, nofun, nofun⟩
  have hmem : (⟨102, 0, false, ⟨[2, 3, 4], by decide⟩⟩ : Segment) ∈ c.tcp.forward := by
    rw [hforward]
    exact List.mem_singleton_self _
  have hlt := h .direct (.sample 100 ⟨[], by decide⟩) (.sample 100 ⟨[], by decide⟩) _
    (Syn.sample_opens 100) (hc ▸ hopen) _ (hc ▸ hmem)
  rw [← hc, hremote] at hlt
  exact absurd hlt (by decide)

end NetGuard.Engine
