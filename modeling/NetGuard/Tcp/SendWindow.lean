import NetGuard.Tcp.Session

/-! # The receive window of the app

The engine never has more bytes in flight to the app than the window it advertised
last, also when the sequence numbers wrap. What carries it is that `acked` never lies
more than half the circle behind `local_seq` while data is written.
-/
namespace NetGuard.Engine
open Serial

variable {args : Arguments} {c : Conn}

/-- Bytes in flight, the segment itself included, fit in the window advertised last. -/
def Output.InWindow : Output → Prop
  | .tun (.tcp cur data _ _ _ _) _ =>
    data ≠ [] → ahead cur.acked (shift cur.localSeq data.length) ≤ cur.sendWindow.toNat
  | _ => True

@[simp] theorem Output.inWindow_nil (cur : TcpSession) (syn ack fin rst written : Bool) :
    Output.InWindow (.tun (.tcp cur [] syn ack fin rst) written) := fun h => absurd rfl h

theorem Output.inWindow_of_quiet {o : Output} (h : o.quiet = true) : o.InWindow := by
  cases o with
  | tun packet written => simp [Output.quiet] at h
  | _ => trivial

theorem Output.inWindow_of_opening {o : Output} (h : o.opening = true) : o.InWindow := by
  cases o with
  | tun packet written => simp [Output.opening] at h
  | _ => trivial

section Window
variable {cur : TcpSession}

/-- What is counted as in flight: the bytes behind `local_seq`, with 65536 too many when only
`local_seq` has wrapped, and a header for each segment not confirmed. -/
theorem getSendWindow_toNat (hbehind : ahead cur.acked cur.localSeq ≤ 2 ^ 31) :
    (getSendWindow cur).toNat = cur.sendWindow.toNat - (ahead cur.acked cur.localSeq +
      (if cur.acked ≤ cur.localSeq then 0 else 65536) + 40 * (cur.unconfirmed.toNat + 1)) := by
  have hacked := cur.acked.toNat_lt
  have hlocal := cur.localSeq.toNat_lt
  have hunconfirmed := cur.unconfirmed.toNat_lt
  have hheaders : ((cur.unconfirmed.toUInt32 + 1) * 40).toNat =
      40 * (cur.unconfirmed.toNat + 1) := by
    simp only [UInt32.toNat_mul, UInt32.toNat_add, UInt16.toNat_toUInt32, UInt32.toNat_ofNat]
    omega
  have hshort : (if cur.acked ≤ cur.localSeq then cur.localSeq - cur.acked
      else 0x10000 + cur.localSeq - cur.acked).toNat =
      ahead cur.acked cur.localSeq + if cur.acked ≤ cur.localSeq then 0 else 65536 := by
    simp only [ahead_eq] at hbehind ⊢
    split <;>
      simp only [UInt32.toNat_sub, UInt32.toNat_add, UInt32.toNat_ofNat, UInt32.le_iff_toNat_le] at * <;>
      omega
  have hslack : (if cur.acked ≤ cur.localSeq then 0 else 65536) ≤ 65536 := by split <;> omega
  unfold getSendWindow
  generalize (if cur.acked ≤ cur.localSeq then cur.localSeq - cur.acked
    else 0x10000 + cur.localSeq - cur.acked) = short at *
  generalize (if cur.acked ≤ cur.localSeq then 0 else 65536) = slack at *
  have hsum : (short + (cur.unconfirmed.toUInt32 + 1) * 40).toNat =
      ahead cur.acked cur.localSeq + slack + 40 * (cur.unconfirmed.toNat + 1) := by
    rw [UInt32.toNat_add, hheaders, hshort]
    omega
  rw [← hsum]
  simp only
  split
  next hlt =>
    have hlt' := UInt32.lt_iff_toNat_lt.mp hlt
    exact UInt32.toNat_sub_of_le _ _ (UInt32.le_iff_toNat_le.mpr (Nat.le_of_lt hlt'))
  next hnot =>
    have hle := Nat.le_of_not_lt fun h => hnot (UInt32.lt_iff_toNat_lt.mpr h)
    exact (Nat.sub_eq_zero_of_le hle).symm

/-- While `acked` is at most half the circle behind, an open window leaves room for all
bytes in flight and the headers. -/
theorem getSendWindow_le (hbehind : ahead cur.acked cur.localSeq ≤ 2 ^ 31)
    (hopen : 0 < (getSendWindow cur).toNat) :
    ahead cur.acked cur.localSeq + (getSendWindow cur).toNat ≤ cur.sendWindow.toNat := by
  rw [getSendWindow_toNat hbehind] at hopen ⊢
  omega

/-- The window less the bytes in flight and the headers, exactly if the sequence numbers in
flight do not wrap or nothing is left of the window. -/
theorem getSendWindow_exact_iff (hbehind : ahead cur.acked cur.localSeq ≤ 2 ^ 31 - 1) :
    ((getSendWindow cur).toNat : ℤ) = max 0 ((cur.sendWindow.toNat : ℤ) -
        ahead cur.acked cur.localSeq - 40 * (cur.unconfirmed.toNat + 1)) ↔
      cur.acked ≤ cur.localSeq ∨ (cur.sendWindow.toNat ≤
        ahead cur.acked cur.localSeq + 40 * (cur.unconfirmed.toNat + 1)) := by
  rw [getSendWindow_toNat (Nat.le_trans hbehind (by decide))]
  by_cases hwrap : cur.acked ≤ cur.localSeq
  · simp only [hwrap, if_true, true_or, iff_true]
    omega
  · simp only [hwrap, if_false, false_or]
    omega

/-- 256 bytes in flight in a window of 70000, with no segment unconfirmed. -/
def TcpSession.sampleInFlight (acked : UInt32) : TcpSession :=
  { (Conn.sample 100 ⟨[], length_nil_lt⟩).tcp with
    acked, localSeq := acked + 256, sendWindow := 70000, unconfirmed := 0 }

theorem getSendWindow_exact_sample : getSendWindow (.sampleInFlight 1000) = 69704 := by
  have hahead : ahead (TcpSession.sampleInFlight 1000).acked
      (TcpSession.sampleInFlight 1000).localSeq ≤ 2 ^ 31 - 1 := by decide
  have hexact := (getSendWindow_exact_iff hahead).mpr (.inl (by decide))
  rw [show max (0 : ℤ) _ = 69704 by decide] at hexact
  exact UInt32.toNat_inj.mp (Int.ofNat_inj.mp hexact)

/-- The bytes in flight are those around the end of the circle: 4168 is left, not 69704. -/
theorem getSendWindow_not_exact : ¬ ∀ cur : TcpSession, ahead cur.acked cur.localSeq ≤ 2 ^ 31 - 1 →
    ((getSendWindow cur).toNat : ℤ) = max 0 ((cur.sendWindow.toNat : ℤ) -
      ahead cur.acked cur.localSeq - 40 * (cur.unconfirmed.toNat + 1)) := by
  intro hall
  have hexact := hall (.sampleInFlight 0xFFFFFF00) (by decide)
  rw [show max (0 : ℤ) _ = 69704 by decide,
    show getSendWindow (.sampleInFlight 0xFFFFFF00) = 4168 by decide] at hexact
  exact absurd hexact (by decide)

end Window

theorem readSize_le (cur : TcpSession) : (readSize cur).toNat ≤ (getSendWindow cur).toNat := by
  unfold readSize
  simp only
  split
  next h => exact Nat.le_of_lt (UInt32.lt_iff_toNat_lt.mp h)
  next => exact Nat.le_refl _

theorem scaled_lt {window : UInt16} {scale : UInt8} (h : scale.toNat ≤ 14) :
    (window.toUInt32 <<< scale.toUInt32).toNat < 2 ^ 30 := by
  have hwindow := window.toNat_lt
  have hpow : 2 ^ scale.toNat ≤ 2 ^ 14 := Nat.pow_le_pow_right (by decide) h
  have hmod : scale.toNat % 32 = scale.toNat := Nat.mod_eq_of_lt (by omega)
  rw [UInt32.toNat_shiftLeft, UInt16.toNat_toUInt32, UInt8.toNat_toUInt32, hmod,
    Nat.shiftLeft_eq]
  have hle : window.toNat * 2 ^ scale.toNat ≤ window.toNat * 2 ^ 14 := Nat.mul_le_mul_left _ hpow
  omega

structure InWindow (s : Stage) : Prop where
  scale : s.conn.tcp.sendScale.toNat ≤ 14
  window : s.conn.tcp.sendWindow.toNat < 2 ^ 30
  behind : s.conn.tcp.state = .established ∨ s.conn.tcp.state = .closeWait →
    ahead s.conn.tcp.acked s.conn.tcp.localSeq ≤ 2 ^ 31
  written : ∀ o ∈ s.conn.out, o.InWindow

theorem Move.inWindow {a : Cause} {s t : Stage} (h : Move a s t) (hs : InWindow s) :
    InWindow t := by
  obtain ⟨hscale, hwindow, hbehind, hwritten⟩ := hs
  cases h with
  | tidy uid time recvWindow sent received lastKeepAlive socks5 events hsocks =>
    exact ⟨hscale, hwindow, hbehind, hwritten⟩
  | quiet o ho =>
    refine ⟨hscale, hwindow, hbehind, ?_⟩
    simpa [or_imp, forall_and] using ⟨hwritten, Output.inWindow_of_quiet ho⟩
  | window ha => exact ⟨hscale, scaled_lt hscale, hbehind, hwritten⟩
  | queue ha hdata hsocket hnot =>
    rw [queueTcp_eq]
    exact ⟨hscale, hwindow, hbehind, hwritten⟩
  | abort => exact ⟨hscale, hwindow, by simp, hwritten⟩
  | @reset c fwd written =>
    refine ⟨by simpa using hscale, by simpa using hwindow, ?_, ?_⟩
    · intro hopen
      by_cases hclose : c.tcp.state = .close <;> simp [hclose] at hopen
    · simpa [or_imp, forall_and] using hwritten
  | countFin ha hfin hadmitted hstate hforward written =>
    refine ⟨hscale, hwindow, fun _ => hbehind (.inl hstate), ?_⟩
    simpa [or_imp, forall_and] using hwritten
  | holdFin ha hfin hadmitted hstate hforward =>
    exact ⟨hscale, hwindow, fun _ => hbehind (.inl hstate), hwritten⟩
  | lastFin ha hfin hadmitted hstate written =>
    refine ⟨hscale, hwindow, by cases written <;> simp, ?_⟩
    simpa [or_imp, forall_and] using hwritten
  | ackAll ha hfin hack state hstate =>
    refine ⟨hscale, hwindow, ?_, hwritten⟩
    intro _
    simp [hack]
  | ackSome ha hlocal hacked =>
    exact ⟨hscale, hwindow, fun _ => ahead_of_compareU32_neg hlocal, hwritten⟩
  | synAck ha hstate time written =>
    refine ⟨hscale, hwindow, by cases written <;> simp, ?_⟩
    simpa [or_imp, forall_and] using hwritten
  | send ha n hforward hseq hsent hn hlisten sent =>
    refine ⟨hscale, hwindow, hbehind, ?_⟩
    simpa [or_imp, forall_and] using ⟨hwritten, trivial⟩
  | confirmFin ha hstate hforward written =>
    refine ⟨hscale, hwindow, fun _ => hbehind (.inr hstate), ?_⟩
    simpa [or_imp, forall_and] using hwritten
  | ack ha hforward hlisten written =>
    refine ⟨hscale, hwindow, by cases written <;> simp_all, ?_⟩
    simpa [or_imp, forall_and] using hwritten
  | keepAlive ha hstate written =>
    refine ⟨hscale, hwindow, fun _ => hbehind hstate, ?_⟩
    simpa [or_imp, forall_and] using hwritten
  | @data c fwd ha hstate bytes hbytes hsize dns hdns written =>
    dsimp only at hwindow hbehind hwritten
    have hopen : 0 < (getSendWindow c.tcp).toNat := by
      have hpos := List.length_pos_iff.mpr hbytes
      have hle := readSize_le c.tcp
      omega
    have hfits : ahead c.tcp.acked (shift c.tcp.localSeq bytes.length) ≤
        c.tcp.sendWindow.toNat := by
      have hle := getSendWindow_le (hbehind hstate) hopen
      have hread := readSize_le c.tcp
      have hmod : ahead c.tcp.acked (shift c.tcp.localSeq bytes.length) =
          (ahead c.tcp.acked c.tcp.localSeq + bytes.length) % 2 ^ 32 := by
        rw [← ahead_shift, ← shift_add, shift_ahead]
      omega
    refine ⟨hscale, hwindow, ?_, ?_⟩
    · intro _
      cases written
      · exact hbehind hstate
      · exact Nat.le_trans hfits (by omega)
    · have hrecv : Output.InWindow (.recv c.socket bytes) := trivial
      have hdns' : ∀ o ∈ dns, o.InWindow := fun o ho => Output.inWindow_of_quiet (hdns o ho)
      have hwrote : Output.InWindow (.tun (.tcp c.tcp bytes false true false false) written) :=
        fun _ => hfits
      intro o ho
      simp only [Conn.wrote_out, List.mem_append, List.mem_cons, List.not_mem_nil,
        or_false] at ho
      rcases ho with (ho | rfl | ho) | rfl
      · exact hwritten o ho
      · exact hrecv
      · exact hdns' o ho
      · exact hwrote
  | fin ha hstate hforward written state hnext =>
    refine ⟨hscale, hwindow, ?_, ?_⟩
    · intro hopen
      rcases hnext with ⟨_, rfl⟩ | ⟨_, _, rfl⟩ | ⟨_, _, rfl⟩ <;> simp at hopen
    · simpa [or_imp, forall_and] using ⟨hwritten, trivial⟩
  | close ha hstate =>
    refine ⟨hscale, hwindow, hbehind, ?_⟩
    simpa [or_imp, forall_and] using ⟨hwritten, trivial⟩
  | closed ha hstate => exact ⟨hscale, hwindow, by simp, hwritten⟩

theorem Syn.Listening.inWindow {syn : Syn} (h : syn.Listening c) (hscale : syn.ws.toNat ≤ 14) :
    InWindow ⟨c, false⟩ where
  scale := by simpa [h.sendScale] using hscale
  window := by simpa [h.sendWindow] using scaled_lt hscale
  behind := by simp [h.state]
  written := fun o ho => Output.inWindow_of_opening (h.out o ho)

/-- Whatever the app and the server do, a data segment written to the tun leaves no more
bytes in flight than the app's window holds. -/
theorem Syn.Opens.inFlight_le {syn : Syn} (hopens : syn.Opens args c)
    (hscale : syn.ws.toNat ≤ 14) (es : List (Env × TcpEvent)) {cur : TcpSession}
    {data : List UInt8} {sy ack fin rst written : Bool}
    (hsent : Output.tun (.tcp cur data sy ack fin rst) written ∈ (c.run args es).out)
    (hdata : data ≠ []) :
    (cur.localSeq + UInt32.ofNat data.length - cur.acked).toNat ≤ cur.sendWindow.toNat := by
  have hinv := hopens.run_history (C := fun _ _ => True) (P := fun _ c => InWindow ⟨c, false⟩)
    (Q := fun _ _ s => InWindow s) (fun _ _ _ _ => Move.inWindow) (fun _ _ _ _ h => h)
    (fun _ _ _ h => h) (fun _ hd => hd.inWindow hscale) (Run.Along.of_forall (fun _ _ => trivial) c es)
  exact hinv.written _ hsent hdata

/-- The server's byte for the sample session, whose app advertised a window of 1000. -/
theorem inFlight_le_sample : ∃ cur : TcpSession,
    ((Conn.sample 100 ⟨[], by decide⟩).run .direct
        (connected 100 ++ [(Env.calm.byte 9, .ready true false)])).out[8]? =
      some (.tun (.tcp cur [9] false true false false) true) ∧
    (cur.localSeq + 1 - cur.acked).toNat ≤ cur.sendWindow.toNat := by
  have hout : ∃ cur : TcpSession,
      ((Conn.sample 100 ⟨[], by decide⟩).run .direct
          (connected 100 ++ [(Env.calm.byte 9, .ready true false)])).out[8]? =
        some (.tun (.tcp cur [9] false true false false) true) := ⟨_, rfl⟩
  obtain ⟨cur, hcur⟩ := hout
  have hmem := List.mem_of_getElem? hcur
  have hle := Syn.Opens.inFlight_le (Syn.sample_opens 100) (by decide) _ hmem
  exact ⟨cur, hcur, hle (by decide)⟩

end NetGuard.Engine
