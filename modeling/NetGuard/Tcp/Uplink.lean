import NetGuard.Tcp.Queue

/-! # The stream from the app to the server

The app cuts its stream into segments, which arrive in any order, more than once and cut
differently. What the server's socket accepts is a prefix of the stream. Positions in the
stream are natural numbers; the segments that matter lie close enough together to be told
apart by their sequence numbers.
-/
namespace NetGuard.Engine
open Serial

variable {args : Arguments} {c : Conn} {isn : UInt32} {stream : List UInt8}

/-- The segment is the piece of the stream at the position `n`. The byte at position zero
has the number after the SYN's. -/
def Slice (isn : UInt32) (stream : List UInt8) (n : ℕ) (g : Segment) : Prop :=
  g.seq = shift (isn + 1) n ∧ g.data.val <+: stream.drop n

section Sent
variable {queue : List Segment} {psh : Bool} {seq : UInt32} {data : Payload}

def sentBytes (queue : List Segment) : ℕ := (queue.map fun g => g.sent.toNat).sum

@[simp] theorem sentBytes_nil : sentBytes [] = 0 := rfl

@[simp] theorem sentBytes_cons (g : Segment) (rest : List Segment) :
    sentBytes (g :: rest) = g.sent.toNat + sentBytes rest := by
  simp [sentBytes]

theorem sentBytes_eq_zero (h : ∀ g ∈ queue, g.sent = 0) : sentBytes queue = 0 := by
  induction queue with
  | nil => rfl
  | cons g rest ih =>
    rw [sentBytes_cons, h g (by simp), ih fun g hg => h g (by simp [hg])]
    rfl

@[simp] theorem sentBytes_placeSegment :
    sentBytes (placeSegment seq psh data queue) = sentBytes queue := by
  induction queue with
  | nil => rfl
  | cons s rest ih =>
    simp only [placeSegment]
    split
    · simp [ih]
    split
    · simp
    split <;> simp

theorem Slice.position {A m : ℕ} {g : Segment} (hg : Slice isn stream m g)
    (hseq : g.seq = shift (isn + 1) A) (hlow : A < m + 2 ^ 32) (hhigh : m < A + 2 ^ 32) :
    m = A := by
  rcases Nat.lt_trichotomy m A with hlt | heq | hgt
  · exact absurd (hg.1.symm.trans hseq) (shift_ne hlt (by omega))
  · exact heq
  · exact absurd (hseq.symm.trans hg.1) (shift_ne hgt (by omega))

theorem sent_eq_zero_of_behind {A hi lo : ℕ} (h : Ascending (Slice isn stream) hi lo queue)
    (hsent : ∀ g ∈ queue, g.sent ≠ 0 → g.seq = shift (isn + 1) A) (hlo : A < lo)
    (hhi : hi < A + 2 ^ 32) : ∀ g ∈ queue, g.sent = 0 := by
  intro g hg
  by_contra hne
  obtain ⟨m, hm, hmhi, hslice⟩ := h.mem hg
  have hpos := hslice.position (hsent g hg hne) (by omega) (by omega)
  omega

theorem sentBytes_lt {A hi lo : ℕ} (h : Ascending (Slice isn stream) hi lo queue)
    (hsent : ∀ g ∈ queue, g.sent ≠ 0 → g.seq = shift (isn + 1) A) (hlo : A < lo + 2 ^ 32)
    (hhi : hi < A + 2 ^ 32) : sentBytes queue < 2 ^ 16 := by
  induction queue generalizing lo with
  | nil => simp
  | cons g rest ih =>
    obtain ⟨n, hn, hnhi, hslice, hrest⟩ := h
    rw [sentBytes_cons]
    by_cases hzero : g.sent = 0
    · have htail := ih hrest (fun g hg => hsent g (by simp [hg])) (by omega)
      simpa [hzero] using htail
    · have hpos := hslice.position (hsent g (by simp) hzero) (by omega) (by omega)
      have hnone := sent_eq_zero_of_behind hrest (fun g hg => hsent g (by simp [hg]))
        (A := A) (by omega) hhi
      rw [sentBytes_eq_zero hnone]
      exact g.sent.toNat_lt

end Sent

/-- A segment's data is a piece of the stream. It lies less than 2^30 bytes ahead of what
the server accepted, and not so far behind that its numbers are in use again. -/
def Arrival.Cut (isn : UInt32) (stream : List UInt8) (seg : Arrival) (c : Conn) : Prop :=
  seg.data.val ≠ [] → ∃ o, seg.tcphdr.seq = shift (isn + 1) o ∧ seg.data.val <+: stream.drop o ∧
    o + seg.data.val.length ≤ c.out.accepted.length + 2 ^ 30 ∧
    c.out.accepted.length < o + 2 ^ 31 - 2

/-- The session forwards the stream: everything before the position `A` and what of the
head was sent is with the server. -/
structure Forwarding (isn : UInt32) (stream : List UInt8) (A : ℕ) (c : Conn) : Prop where
  remoteSeq : c.tcp.remoteSeq = shift (isn + 1) A ∨ (A = 0 ∧ c.tcp.remoteSeq = isn)
  listen : c.tcp.state = .listen → A = 0 ∧ c.tcp.remoteSeq = isn
  state : c.tcp.state ≠ .finWait1
  order : Ascending (Slice isn stream) (A + 2 ^ 16 + 2 ^ 30) (A - 65535) c.tcp.forward
  sent : ∀ g ∈ c.tcp.forward, g.sent ≠ 0 → g.seq = shift (isn + 1) A
  within : A + sentBytes c.tcp.forward ≤ stream.length
  accepted : c.out.accepted = stream.take (A + sentBytes c.tcp.forward)

structure Finished (stream : List UInt8) (c : Conn) : Prop where
  forward : c.tcp.forward = []
  closed : c.tcp.state.Taking → c.socket < 0
  listen : c.tcp.state ≠ .listen
  accepted : c.out.accepted <+: stream

def Uplink (isn : UInt32) (stream : List UInt8) (c : Conn) : Prop :=
  (∃ A, Forwarding isn stream A c) ∨ Finished stream c

theorem Forwarding.sentBytes_lt {A : ℕ} (h : Forwarding isn stream A c) :
    sentBytes c.tcp.forward < 2 ^ 16 :=
  Engine.sentBytes_lt h.order h.sent (by omega) (by omega)

theorem Forwarding.queueTcp {A : ℕ} {seg : Arrival} (h : Forwarding isn stream A c)
    (hcut : seg.Cut isn stream c) (hdata : seg.data.val ≠ []) :
    Forwarding isn stream A { c with tcp := queueTcp c.tcp seg.tcphdr seg.data } := by
  obtain ⟨o, hseq, hpiece, hnear, hold⟩ := hcut hdata
  have hsent := h.sentBytes_lt
  have hN : c.out.accepted.length = A + sentBytes c.tcp.forward := by
    rw [h.accepted, List.length_take, Nat.min_eq_left h.within]
  rw [queueTcp_eq]
  split
  · exact h
  next hfresh =>
    have hbehind : A ≤ o := by
      by_contra hlt
      rcases h.remoteSeq with hremote | ⟨rfl, -⟩
      · apply hfresh
        have hdist : ahead seg.tcphdr.seq c.tcp.remoteSeq = A - o := by
          rw [hseq, hremote, ahead_shift_shift _ (by omega), Nat.mod_eq_of_lt (by omega)]
        exact compareU32_before (by omega) (by omega)
      · omega
    refine ⟨h.remoteSeq, h.listen, h.state, ?_, ?_, ?_, ?_⟩
    · exact Ascending.placeSegment (b := isn + 1) (m := o) (fun _ _ hg => hg.1) (by omega)
        (by omega) (by omega) ⟨hseq, hpiece⟩ (fun g hg => ⟨hg.1, hpiece⟩) h.order
    · intro g hg hne
      rcases mem_placeSegment hg with hg | rfl | ⟨s, hmem, hs, rfl⟩
      · exact h.sent g hg hne
      · exact absurd rfl hne
      · exact h.sent s hmem hne
    · simpa using h.within
    · simpa using h.accepted

theorem take_append_take_of_prefix {data : List UInt8} {A sent n : ℕ}
    (h : data <+: stream.drop A) (hn : sent + n ≤ data.length) :
    stream.take (A + sent) ++ (data.drop sent).take n = stream.take (A + sent + n) := by
  obtain ⟨rest, hrest⟩ := h
  have hdrop : stream.drop (A + sent) = data.drop sent ++ rest := by
    rw [← List.drop_drop, ← hrest, List.drop_append_of_le_length (by omega)]
  have hlen : n ≤ (data.drop sent).length := by
    rw [List.length_drop]
    omega
  rw [List.take_add (i := A + sent), hdrop, List.take_append_of_le_length hlen]

theorem Forwarding.send {A n : ℕ} {seg : Segment} {rest : List Segment}
    (h : Forwarding isn stream A c) (hforward : c.tcp.forward = seg :: rest)
    (hseq : seg.seq = c.tcp.remoteSeq) (hn : seg.sent.toNat + n ≤ seg.data.val.length)
    (hlisten : c.tcp.state ≠ .listen) (sent : UInt64) :
    ∃ B, Forwarding isn stream B { c.emit (.send c.socket (seg.seq + seg.sent.toUInt32)
          (seg.data.val.drop seg.sent.toNat) (some n)) with
        tcp.sent := sent
        tcp.remoteSeq := if seg.sent.toNat + n = seg.data.val.length
          then c.tcp.remoteSeq + seg.len.toUInt32 else c.tcp.remoteSeq
        tcp.forward := if seg.sent.toNat + n = seg.data.val.length
          then rest else { seg with sent := seg.sent + UInt16.ofNat n } :: rest } := by
  obtain ⟨hremote, -, hstate, horder, hsent, hwithin, haccepted⟩ := h
  rw [hforward] at horder hsent hwithin haccepted
  obtain ⟨m, hm, hmhi, hslice, hrest⟩ := horder
  have hbase : c.tcp.remoteSeq = shift (isn + 1) A := by
    rcases hremote with hremote | ⟨rfl, hremote⟩
    · exact hremote
    · -- in an aborted session `remote_seq` is still the SYN's number, which no byte has
      have hbefore : isn = shift (isn + 1) (2 ^ 32 - 1) := by
        apply UInt32.toNat_inj.mp
        have hisn := isn.toNat_lt
        simp only [shift_toNat, UInt32.toNat_add, UInt32.toNat_one]
        omega
      have hpos := hslice.position (hseq.trans (hremote.trans hbefore)) (by omega) (by omega)
      omega
  obtain rfl : m = A := hslice.position (hseq.trans hbase) (by omega) (by omega)
  have hnone : sentBytes rest = 0 := sentBytes_eq_zero <|
    sent_eq_zero_of_behind hrest (fun g hg => hsent g (by simp [hg])) (A := m) (by omega) (by omega)
  have hpiece := take_append_take_of_prefix hslice.2 hn
  have hroom : m + seg.data.val.length ≤ stream.length := by
    have hle := hslice.2.length_le
    rw [List.length_drop] at hle
    rw [sentBytes_cons, hnone] at hwithin
    omega
  have hout : Trace.accepted (c.out ++ [.send c.socket (seg.seq + seg.sent.toUInt32)
      (seg.data.val.drop seg.sent.toNat) (some n)]) = stream.take (m + seg.sent.toNat + n) := by
    rw [Trace.accepted_append, haccepted, sentBytes_cons, hnone, ← hpiece]
    simp [Output.accepted]
  have hlen := seg.data.property
  by_cases hdone : seg.sent.toNat + n = seg.data.val.length
  · have hall : ∀ g ∈ rest, g.sent = 0 :=
      sent_eq_zero_of_behind hrest (fun g hg => hsent g (by simp [hg])) (by omega) (by omega)
    have hnext : c.tcp.remoteSeq + seg.len.toUInt32 =
        shift (isn + 1) (m + seg.data.val.length) := by
      rw [Segment.add_len, hbase, shift_add]
    have hlo : m + seg.data.val.length - 65535 ≤ m + 1 := Nat.sub_le_iff_le_add.mpr (by omega)
    have hhi : m + 2 ^ 16 + 2 ^ 30 ≤ m + seg.data.val.length + 2 ^ 16 + 2 ^ 30 := by omega
    simp only [hdone, if_true]
    refine ⟨m + seg.data.val.length, .inl hnext, fun h => absurd h hlisten, hstate,
      (hrest.mono_lo hlo).mono_hi hhi, fun g hg hne => absurd (hall g hg) hne, ?_, ?_⟩
    · dsimp only
      rw [hnone]
      omega
    · dsimp only
      rw [hnone, Nat.add_zero, ← hdone, ← Nat.add_assoc]
      exact hout
  · have hnew : (seg.sent + UInt16.ofNat n).toNat = seg.sent.toNat + n := by
      rw [UInt16.toNat_add, UInt16.toNat_ofNat']
      omega
    simp only [hdone, if_false]
    refine ⟨m, .inl hbase, fun h => absurd h hlisten, hstate, ⟨m, hm, hmhi, hslice, hrest⟩,
      ?_, ?_, ?_⟩
    · intro g hg hne
      rcases List.mem_cons.mp hg with rfl | hg
      · exact hslice.1
      · exact hsent g (by simp [hg]) hne
    · dsimp only
      rw [sentBytes_cons, hnone, hnew]
      omega
    · dsimp only
      rw [sentBytes_cons, hnone, hnew, Nat.add_zero, ← Nat.add_assoc]
      exact hout

theorem Forwarding.keep {A : ℕ} {d : Conn} (h : Forwarding isn stream A c)
    (hforward : d.tcp.forward = c.tcp.forward) (haccepted : d.out.accepted = c.out.accepted)
    (hremote : d.tcp.remoteSeq = c.tcp.remoteSeq ∨
      (c.tcp.state = .listen ∧ d.tcp.state ≠ .listen ∧ d.tcp.remoteSeq = c.tcp.remoteSeq + 1))
    (hstate : d.tcp.state ≠ .finWait1) (hlisten : d.tcp.state = .listen → c.tcp.state = .listen) :
    Uplink isn stream d := by
  refine .inl ⟨A, ?_, ?_, hstate, ?_, ?_, ?_, ?_⟩
  · rcases hremote with hsame | ⟨hold, -, hcounted⟩
    · exact hsame ▸ h.remoteSeq
    · obtain ⟨rfl, hisn⟩ := h.listen hold
      exact .inl (by rw [hcounted, hisn, shift_zero])
  · intro hnow
    rcases hremote with hsame | ⟨-, hnot, -⟩
    · exact hsame ▸ h.listen (hlisten hnow)
    · exact absurd hnow hnot
  · exact hforward ▸ h.order
  · exact hforward ▸ h.sent
  · exact hforward ▸ h.within
  · rw [haccepted, hforward]
    exact h.accepted

theorem Forwarding.finish {A : ℕ} {d : Conn} (h : Forwarding isn stream A c)
    (hforward : d.tcp.forward = []) (haccepted : d.out.accepted = c.out.accepted)
    (hclosed : d.tcp.state.Taking → d.socket < 0) (hlisten : d.tcp.state ≠ .listen) :
    Uplink isn stream d := by
  refine .inr ⟨hforward, hclosed, hlisten, ?_⟩
  rw [haccepted, h.accepted]
  exact List.take_prefix _ _

theorem Finished.keep {d : Conn} (h : Finished stream c) (hforward : d.tcp.forward = c.tcp.forward)
    (haccepted : d.out.accepted = c.out.accepted)
    (hclosed : d.tcp.state.Taking → d.socket < 0 ∨ (d.socket = c.socket ∧ c.tcp.state.Taking))
    (hlisten : d.tcp.state = .listen → c.tcp.state = .listen) : Uplink isn stream d := by
  refine .inr ⟨hforward.trans h.forward, ?_, fun hnow => h.listen (hlisten hnow), ?_⟩
  · intro htaking
    rcases hclosed htaking with hclosed | ⟨hsocket, hold⟩
    · exact hclosed
    · exact hsocket ▸ h.closed hold
  · exact haccepted ▸ h.accepted

theorem Move.forwarding {A : ℕ} {a : Cause} {s t : Stage} (h : Move a s t)
    (hunder : a.Under (Arrival.Cut isn stream) s.conn) (hs : Forwarding isn stream A s.conn) :
    Uplink isn stream t.conn := by
  cases h with
  | quiet o ho => exact hs.keep rfl (by simp [Output.accepted_of_quiet ho]) (.inl rfl) hs.state id
  | @queue c fwd seg ha hdata hsocket hstate =>
    rcases hunder.queue ha hdata hsocket hstate with hsame | ⟨d, hcut, -, hreached, -⟩
    · rw [hsame]
      exact .inl ⟨A, hs⟩
    · refine .inl ⟨A, hs.queueTcp ?_ hdata⟩
      intro hdata
      have hcut := hcut hdata
      rwa [← hreached.accepted] at hcut
  | abort => exact hs.keep rfl rfl (.inl rfl) (by simp) (by simp)
  | @reset c fwd written =>
    refine hs.keep (by simp) (by simp) ?_ ?_ ?_
    · by_cases hlisten : c.tcp.state = .listen
      · exact .inr ⟨hlisten, by simp [hlisten], by simp [hlisten]⟩
      · exact .inl (by simp [hlisten])
    · by_cases hclose : c.tcp.state = .close <;> simp [hclose]
    · by_cases hclose : c.tcp.state = .close <;> simp [hclose]
  | countFin ha hfin hadmitted hstate hforward written =>
    exact hs.finish hforward (by simp) (by cases written <;> simp [TcpState.Taking])
      (by cases written <;> simp)
  | holdFin ha hfin hadmitted hstate hforward =>
    exact hs.keep rfl rfl (.inl rfl) (by simp) (by simp)
  | lastFin ha hfin hadmitted hstate written => exact absurd hstate hs.state
  | @ackAll c fwd seg ha hfin hack state hstate =>
    rcases hstate with rfl | ⟨_, rfl⟩ | ⟨_, rfl⟩
    · exact hs.keep rfl rfl (.inl rfl) hs.state id
    · exact hs.keep rfl rfl (.inl rfl) (by simp) (by simp)
    · exact hs.keep rfl rfl (.inl rfl) (by simp) (by simp)
  | @synAck c fwd ha hstate time written =>
    refine hs.keep rfl (by simp) (.inr ⟨hstate, ?_, rfl⟩) ?_ ?_ <;> cases written <;> simp
  | send ha n hforward hseq hsent hn hlisten sent =>
    exact .inl (hs.send hforward hseq hn hlisten sent)
  | @confirmFin c ha hstate hforward written =>
    refine hs.finish hforward (by simp) ?_ ?_ <;> cases written <;> simp [hstate, TcpState.Taking]
  | @ack c fwd ha hforward hlisten written =>
    refine hs.keep rfl (by simp) (.inl rfl) ?_ ?_ <;> cases written <;> simp [hs.state]
  | @keepAlive c fwd ha hstate written =>
    refine hs.keep rfl (by simp) (.inl rfl) ?_ ?_ <;> cases written <;> simp [hs.state]
  | @data c fwd ha hstate bytes hbytes hsize dns hdns written =>
    have hnone : Trace.accepted dns = [] :=
      Trace.accepted_of_forall fun o ho => Output.accepted_of_quiet (hdns o ho)
    refine hs.keep rfl (by simp [hnone]) (.inl rfl) ?_ ?_ <;> cases written <;> simp [hs.state]
  | @fin c fwd ha hstate hforward written state hnext =>
    refine hs.finish hforward (by simp) (by simp) ?_
    rcases hnext with ⟨_, rfl⟩ | ⟨_, _, rfl⟩ | ⟨_, _, rfl⟩ <;> simp
  | close ha hstate => exact hs.keep rfl (by simp) (.inl rfl) hs.state id
  | closed ha hstate => exact hs.keep rfl rfl (.inl rfl) (by simp) (by simp)
  | _ => exact hs.keep rfl rfl (.inl rfl) hs.state id

theorem Move.finished {a : Cause} {s t : Stage} (h : Move a s t) (hs : Finished stream s.conn) :
    Uplink isn stream t.conn := by
  cases h with
  | quiet o ho =>
    exact hs.keep rfl (by simp [Output.accepted_of_quiet ho]) (fun h => .inr ⟨rfl, h⟩) id
  | @queue c fwd seg ha hdata hsocket hstate =>
    have hclosed := hs.closed hstate
    exact absurd hsocket (by simpa using hclosed)
  | abort => exact hs.keep rfl rfl (by simp [TcpState.Taking]) (by simp)
  | @reset c fwd written =>
    refine hs.keep (by simp) (by simp) ?_ ?_ <;>
      by_cases hclose : c.tcp.state = .close <;> simp [hclose, TcpState.Taking]
  | countFin ha hfin hadmitted hstate hforward written =>
    refine hs.keep rfl (by simp) ?_ ?_ <;> cases written <;> simp [TcpState.Taking]
  | holdFin => exact hs.keep rfl rfl (by simp [TcpState.Taking]) (by simp)
  | lastFin ha hfin hadmitted hstate written =>
    refine hs.keep rfl (by simp) ?_ ?_ <;> cases written <;> simp [TcpState.Taking]
  | @ackAll c fwd seg ha hfin hack state hstate =>
    rcases hstate with rfl | ⟨hold, rfl⟩ | ⟨_, rfl⟩
    · exact hs.keep rfl rfl (fun h => .inr ⟨rfl, h⟩) id
    · exact hs.keep rfl rfl (fun _ => .inr ⟨rfl, by simp [TcpState.Taking, hold]⟩) (by simp)
    · exact hs.keep rfl rfl (by simp [TcpState.Taking]) (by simp)
  | synAck ha hstate time written => exact absurd hstate hs.listen
  | send ha n hforward hseq hsent hn hlisten sent =>
    have hempty := hs.forward
    rw [hforward] at hempty
    simp at hempty
  | @confirmFin c ha hstate hforward written =>
    refine hs.keep rfl (by simp) ?_ ?_ <;> cases written <;> simp [hstate, TcpState.Taking]
  | @ack c fwd ha hforward hlisten written =>
    cases written
    · exact hs.keep rfl (by simp) (by simp [TcpState.Taking]) (by simp)
    · exact hs.keep rfl (by simp) (fun h => .inr ⟨rfl, h⟩) id
  | @keepAlive c fwd ha hstate written =>
    cases written
    · exact hs.keep rfl (by simp) (by simp [TcpState.Taking]) (by simp)
    · exact hs.keep rfl (by simp) (fun h => .inr ⟨rfl, h⟩) id
  | @data c fwd ha hstate bytes hbytes hsize dns hdns written =>
    have hnone : Trace.accepted dns = [] :=
      Trace.accepted_of_forall fun o ho => Output.accepted_of_quiet (hdns o ho)
    cases written
    · exact hs.keep rfl (by simp [hnone]) (by simp [TcpState.Taking]) (by simp)
    · exact hs.keep rfl (by simp [hnone]) (fun h => .inr ⟨rfl, h⟩) id
  | @fin c fwd ha hstate hforward written state hnext =>
    refine hs.keep rfl (by simp) (fun _ => .inl (by simp)) ?_
    rcases hnext with ⟨_, rfl⟩ | ⟨_, _, rfl⟩ | ⟨_, _, rfl⟩ <;> simp
  | close ha hstate => exact hs.keep rfl (by simp) (fun _ => .inl (by simp)) id
  | closed => exact hs.keep rfl rfl (by simp [TcpState.Taking]) (by simp)
  | _ => exact hs.keep rfl rfl (fun h => .inr ⟨rfl, h⟩) id

theorem Move.uplink {a : Cause} {s t : Stage} (h : Move a s t)
    (hunder : a.Under (Arrival.Cut isn stream) s.conn) (hs : Uplink isn stream s.conn) :
    Uplink isn stream t.conn := by
  rcases hs with ⟨A, hs⟩ | hs
  · exact h.forwarding hunder hs
  · exact h.finished hs

theorem Syn.Listening.uplink {syn : Syn} (h : syn.Listening c) (hdata : syn.data.val = []) :
    Uplink syn.tcphdr.seq stream c := by
  have hforward : c.tcp.forward = [] := by simp [h.forward, hdata]
  have hnone : c.out.accepted = [] :=
    Trace.accepted_of_forall fun o ho => Output.accepted_of_opening (h.out o ho)
  refine .inl ⟨0, .inr ⟨rfl, h.remoteSeq⟩, fun _ => ⟨rfl, h.remoteSeq⟩, by simp [h.state], ?_, ?_, ?_, ?_⟩
  · rw [hforward]
    trivial
  · simp [hforward]
  · simp [hforward]
  · simp [hforward, hnone]

/-- However the app cuts, repeats and reorders its stream, and whatever else happens, the
server's socket accepts a prefix of it. -/
theorem Syn.Opens.uplink_intact {syn : Syn} (hopens : syn.Opens args c)
    (hdata : syn.data.val = []) (stream : List UInt8) {es : List (Env × TcpEvent)}
    (hrun : Run.Along (Conn.step args) (fun c e => ∀ seg, e.2.cause = .segment seg →
      seg.Cut syn.tcphdr.seq stream c) c es) :
    (c.run args es).out.accepted <+: stream := by
  have hinv := hopens.run_history (P := fun _ c => Uplink syn.tcphdr.seq stream c)
    (Q := fun _ a s => a.Under (Arrival.Cut syn.tcphdr.seq stream) s.conn ∧
      Uplink syn.tcphdr.seq stream s.conn)
    (fun _ _ _ _ hmove hs => ⟨hmove.under hs.1, hmove.uplink hs.1 hs.2⟩)
    (fun _ _ _ hcut hs => ⟨Cause.Under.start hcut, hs⟩) (fun _ _ _ hs => hs.2)
    (fun _ hd => ⟨Cause.Under.start (by simp), hd.uplink hdata⟩) hrun
  rcases hinv with ⟨A, hinv⟩ | hinv
  · rw [hinv.accepted]
    exact List.take_prefix _ _
  · exact hinv.accepted

/-- The second half first, then the first half, which is cut anew while it is being sent. -/
theorem uplink_intact_sample :
    let c := (Conn.sample 100 ⟨[], by decide⟩).run .direct (connected 100 ++
      [(.calm, .app (.acks 104 1 1000) ⟨[4, 5, 6], by decide⟩),
        (.calm, .app (.acks 101 1 1000) ⟨[1, 2, 3], by decide⟩),
        (Env.calm.taking 2, .ready false true),
        (.calm, .app (.acks 101 1 1000) ⟨[1, 2, 3, 4], by decide⟩), (.calm, .ready false true)])
    c.out.accepted = [1, 2, 3, 4] ∧ c.out.accepted <+: [1, 2, 3, 4, 5, 6] := by
  have hrun : Run.Along (Conn.step .direct) (fun c e => ∀ seg, e.2.cause = .segment seg →
      seg.Cut (Syn.sample 100 ⟨[], by decide⟩).tcphdr.seq [1, 2, 3, 4, 5, 6] c)
      (Conn.sample 100 ⟨[], by decide⟩) (connected 100 ++
        [(.calm, .app (.acks 104 1 1000) ⟨[4, 5, 6], by decide⟩),
          (.calm, .app (.acks 101 1 1000) ⟨[1, 2, 3], by decide⟩),
          (Env.calm.taking 2, .ready false true),
          (.calm, .app (.acks 101 1 1000) ⟨[1, 2, 3, 4], by decide⟩), (.calm, .ready false true)]) := by
    refine ⟨nofun, ?_, ?_, ?_, nofun, ?_, nofun, trivial⟩
    · rintro _ ⟨⟩ hdata
      exact absurd rfl hdata
    · rintro _ ⟨⟩ -
      exact ⟨3, by decide, by decide, by decide, by decide⟩
    · rintro _ ⟨⟩ -
      exact ⟨0, by decide, by decide, by decide, by decide⟩
    · rintro _ ⟨⟩ -
      exact ⟨0, by decide, by decide, by decide, by decide⟩
  exact ⟨rfl, Syn.Opens.uplink_intact (Syn.sample_opens 100) rfl _ hrun⟩

end NetGuard.Engine
