import NetGuard.Icmp.Replies
import NetGuard.Loop.Sizes

/-! # ICMP replies for the tun

The checksum of a reply is right for IPv4, where the reply reaches over the field. For IPv6 it is
taken over another length than that of the message, and is wrong for every reply that reaches
over the field.
-/
namespace NetGuard.Engine
open OnesComplement

section Reply

/-- IPv6 sums the pseudo header as well. -/
def Packet.icmpSum (p : Packet) : IpVersion → Nat
  | .v4 => netSum (p.upper .v4)
  | .v6 => p.transportSum .v6

/-- What the receiver of an ICMP packet relies on. -/
structure Packet.IcmpValid (p : Packet) (version : IpVersion) : Prop where
  length : p.LengthRight version
  checksum : p.icmpSum version = 0xFFFF

/-- The replies that are valid when they are written. -/
def IcmpSession.Repairs (cur : IcmpSession) (reply : List UInt8) : Prop :=
  match cur.version with
  | .v4 => 4 ≤ reply.length ∨ (reply.length = 3 ∧ reply.getD 1 0 = 255) ∨
      (reply.length ≤ 2 ∧ netSum reply = 0xFFFF)
  | .v6 => reply.length ≤ 2 ∧
      netSum (receiverPseudo cur.toEndpoints ipprotoIcmpV6 reply.length ++ reply) = 0xFFFF

variable {cur : IcmpSession} {reply : List UInt8} {csum id : UInt16}

theorem length_patchIcmp {cksum ids : List UInt8} (hcksum : cksum.length = 2)
    (hids : ids.length = 2) (message : List UInt8) :
    (patchIcmp cksum ids message).length = message.length := by
  simp only [patchIcmp, List.length_take, List.length_append, List.length_drop, hcksum, hids]
  omega

theorem length_rewriteIcmp : (rewriteIcmp csum id reply).length = reply.length :=
  length_patchIcmp rfl rfl reply

/-- A message that reaches over the field: what is around the field does not depend on it. -/
theorem patchIcmp_long (ids : List UInt8) (hlong : 4 ≤ reply.length) :
    ∃ front rest, front.length = 2 ∧
      ∀ w, patchIcmp (hostWord w) ids reply = front ++ (hostWord w ++ rest) := by
  match reply, hlong with
  | a :: b :: c :: d :: rest, _ =>
    exact ⟨[a, b], (ids ++ rest.drop 2).take rest.length, rfl, fun _ => rfl⟩

theorem rewriteIcmp_short (hshort : reply.length ≤ 2) : rewriteIcmp csum id reply = reply := by
  match reply, hshort with
  | [], _ => rfl
  | [a], _ => rfl
  | [a, b], _ => rfl

/-- The words of an odd message end with the low byte of the checksum. -/
theorem wordTotal_rewriteIcmp_three (a b c : UInt8) :
    wordTotal (rewriteIcmp csum id [a, b, c]) = a.toNat + b.toNat * 256 +
      (65535 - residue 65536 (csum.toNat + (a.toNat + b.toNat * 256))) % 256 := by
  have hzeroed : patchIcmp [0, 0] (netWord id) [a, b, c] = [a, b, 0] := rfl
  have htotal : wordTotal [a, b, 0] = a.toNat + b.toNat * 256 := rfl
  have hopen (w : UInt16) : wordTotal (patchIcmp (hostWord w) (netWord id) [a, b, c]) =
      a.toNat + b.toNat * 256 + (UInt8.ofNat w.toNat).toNat := rfl
  rw [rewriteIcmp, hopen, hzeroed, UInt8.toNat_ofNat', UInt16.toNat_not,
    calcChecksum_toNat (by simp), htotal]
  rfl

theorem residue_rewriteIcmp (csum id : UInt16) (hlong : 4 ≤ reply.length) (hlen : reply.length ≤ 65535) :
    ∃ total, (∀ w, wordTotal (patchIcmp (hostWord w) (netWord id) reply) = total + w.toNat) ∧
      wordTotal (rewriteIcmp csum id reply) =
        total + (65535 - residue 65536 (csum.toNat + total)) := by
  obtain ⟨front, rest, hfront, hpatched⟩ := patchIcmp_long (netWord id) hlong
  have htotal (w : UInt16) : wordTotal (patchIcmp (hostWord w) (netWord id) reply) =
      wordTotal front + wordTotal rest + w.toNat := by
    rw [hpatched, wordTotal_append (by rw [hfront]), wordTotal_hostWord]
    omega
  refine ⟨wordTotal front + wordTotal rest, htotal, ?_⟩
  have hzeroed : patchIcmp [0, 0] (netWord id) reply = patchIcmp (hostWord 0) (netWord id) reply :=
    rfl
  have hlength : (patchIcmp (hostWord 0) (netWord id) reply).length ≤ 131070 := by
    rw [length_patchIcmp rfl rfl]
    exact Nat.le_trans hlen (by decide)
  rw [rewriteIcmp, htotal, UInt16.toNat_not, hzeroed, calcChecksum_toNat hlength, htotal]
  rfl

end Reply

section V4
variable {cur : IcmpSession} {reply : List UInt8} {id : UInt16}

theorem netSum_rewriteIcmp_iff (hlen : reply.length ≤ 65535) :
    netSum (rewriteIcmp 0 id reply) = 0xFFFF ↔ 4 ≤ reply.length ∨
      (reply.length = 3 ∧ reply.getD 1 0 = 255) ∨ (reply.length ≤ 2 ∧ netSum reply = 0xFFFF) := by
  by_cases hlong : 4 ≤ reply.length
  · apply iff_of_true _ (.inl hlong)
    obtain ⟨total, -, hrewritten⟩ := residue_rewriteIcmp 0 id hlong hlen
    rw [netSum_eq_ones_iff, hrewritten, UInt16.toNat_zero, Nat.zero_add]
    exact residue_add_complement (by decide) total
  · by_cases hthree : reply.length = 3
    · obtain ⟨a, b, c, rfl⟩ := List.length_eq_three.mp hthree
      have ha := a.toNat_lt
      have hb := b.toNat_lt
      have hsum : residue 65536 (a.toNat + b.toNat * 256) = a.toNat + b.toNat * 256 :=
        residue_of_lt (by omega)
      rw [netSum_eq_ones_iff, wordTotal_rewriteIcmp_three, UInt16.toNat_zero, Nat.zero_add, hsum,
        residue_of_lt (by omega)]
      have hbyte : b = 255 ↔ b.toNat = 255 := UInt8.toNat_inj.symm
      simp only [List.length_cons, List.length_nil, List.getD_cons_succ, List.getD_cons_zero, hbyte,
        true_and]
      omega
    · have hshort : reply.length ≤ 2 := by omega
      rw [rewriteIcmp_short hshort]
      simp only [hlong, hthree, hshort, true_and, false_and, false_or]

end V4

section V6
variable {cur : IcmpSession} {reply : List UInt8}

/-- The words of the pseudo header apart from those of the length. -/
theorem wordTotal_ip6Pseudo {src dst len : List UInt8} {nxt : UInt8} (hsrc : src.length = 16)
    (hdst : dst.length = 16) (hlen : len.length = 4) :
    wordTotal (ip6Pseudo src dst len nxt) =
      wordTotal src + wordTotal dst + wordTotal len + nxt.toNat * 256 := by
  rw [ip6Pseudo, wordTotal_append (by simp [hsrc, hdst, hlen]),
    wordTotal_append (by simp [hsrc, hdst]), wordTotal_append (by rw [hsrc])]
  simp [wordTotal]

/-- What the length field of the engine adds to the sum: 40 bytes less, with a borrow. -/
theorem wordTotal_replyLength (bytes : Nat) (hbytes : bytes ≤ 65535) :
    wordTotal (hostWord (UInt32.ofNat bytes - 40).toUInt16 ++
        hostWord ((UInt32.ofNat bytes - 40) >>> 16).toUInt16) =
      if 40 ≤ bytes then bytes - 40 else 131031 + bytes := by
  have hvalue : (UInt32.ofNat bytes - 40).toNat = (bytes + 4294967256) % 4294967296 := by
    rw [UInt32.toNat_sub, UInt32.toNat_ofNat', show (40 : UInt32).toNat = 40 from rfl]
    omega
  have hlast (w : UInt16) : wordTotal (hostWord w) = w.toNat := by
    have hopen := wordTotal_hostWord w []
    rwa [List.append_nil] at hopen
  rw [wordTotal_hostWord, hlast, UInt32.toNat_toUInt16, UInt32.toNat_toUInt16,
    UInt32.toNat_shiftRight, hvalue, Nat.shiftRight_eq_div_pow, show (16 : UInt32).toNat % 32 = 16 from rfl]
  split <;> omega

theorem wordTotal_be32 {n : Nat} (hn : n ≤ 65535) :
    wordTotal (Wire.be32 n) = n / 256 + n % 256 * 256 := by
  rw [Wire.be32, Nat.div_eq_of_lt (by omega), Nat.mod_eq_of_lt (by omega)]
  simp only [Wire.be16, List.cons_append, List.nil_append, wordTotal, UInt8.toNat_ofNat']
  omega

/-- The sums over the pseudo header of the engine and over that of the receiver. -/
theorem replyChecksum_toNat (h : cur.toEndpoints.Sized) (hversion : cur.version = .v6)
    (hlen : reply.length ≤ 65535) : ∃ ends,
    (replyChecksum cur reply.length).toNat = residue 65536
      (ends + if 40 ≤ reply.length then reply.length - 40 else 131031 + reply.length) ∧
    wordTotal (receiverPseudo cur.toEndpoints ipprotoIcmpV6 reply.length) =
      ends + (reply.length / 256 + reply.length % 256 * 256) := by
  obtain ⟨hsaddr, hdaddr⟩ := h
  rw [hversion, if_neg (by decide)] at hsaddr hdaddr
  refine ⟨wordTotal cur.daddr + wordTotal cur.saddr + ipprotoIcmpV6.toNat * 256, ?_, ?_⟩
  · rw [replyChecksum, hversion]
    dsimp only
    rw [calcChecksum_toNat (by simp [ip6Pseudo, hsaddr, hdaddr, hostWord]),
      wordTotal_ip6Pseudo hdaddr hsaddr rfl, wordTotal_replyLength _ hlen, UInt16.toNat_zero,
      Nat.zero_add, Nat.add_right_comm]
  · have hsame : receiverPseudo cur.toEndpoints ipprotoIcmpV6 reply.length =
        ip6Pseudo cur.daddr cur.saddr (Wire.be32 reply.length) ipprotoIcmpV6 := by
      rw [receiverPseudo, hversion]
      rfl
    rw [hsame, wordTotal_ip6Pseudo hdaddr hsaddr (Wire.length_be32 _), wordTotal_be32 hlen,
      Nat.add_right_comm]

/-- The 40 bytes that are missing from the length are no multiple of 255, by which the sums of
the two byte orders differ. -/
theorem netSum_rewriteIcmp6_iff (h : cur.toEndpoints.Sized) (hversion : cur.version = .v6)
    (hlen : reply.length ≤ 65535) :
    netSum (receiverPseudo cur.toEndpoints ipprotoIcmpV6 reply.length ++
        rewriteIcmp (replyChecksum cur reply.length) cur.id reply) = 0xFFFF ↔
      reply.length ≤ 2 ∧
        netSum (receiverPseudo cur.toEndpoints ipprotoIcmpV6 reply.length ++ reply) = 0xFFFF := by
  obtain ⟨ends, hengine, hreceiver⟩ := replyChecksum_toNat h hversion hlen
  by_cases hshort : reply.length ≤ 2
  · rw [rewriteIcmp_short hshort]
    simp only [hshort, true_and]
  · apply iff_of_false _ (fun hvalid => hshort hvalid.1)
    rw [netSum_eq_ones_iff, wordTotal_append (length_receiverPseudo_even h _ _), hreceiver,
      residue_eq_ones_iff (by decide)]
    rintro ⟨-, hzero⟩
    rw [Nat.ModEq] at hzero
    by_cases hthree : reply.length = 3
    · obtain ⟨a, b, c, rfl⟩ := List.length_eq_three.mp hthree
      rw [wordTotal_rewriteIcmp_three, hengine, residue_add_left] at hzero
      simp only [List.length_cons, List.length_nil] at hzero
      generalize hsum : ends + (if 40 ≤ 0 + 1 + 1 + 1 then 0 + 1 + 1 + 1 - 40
        else 131031 + (0 + 1 + 1 + 1)) + (a.toNat + b.toNat * 256) = sum at hzero
      have hmod := residue_modEq (b := 65536) sum
      have hlt := residue_lt (b := 65536) (by decide) sum
      rw [Nat.ModEq] at hmod
      rw [if_neg (by decide)] at hsum
      omega
    · obtain ⟨total, -, hrewritten⟩ := residue_rewriteIcmp
        (replyChecksum cur reply.length) cur.id (by omega) hlen
      rw [hrewritten, hengine, residue_add_left] at hzero
      generalize hsum : ends + (if 40 ≤ reply.length then reply.length - 40
        else 131031 + reply.length) + total = sum at hzero
      have hmod := residue_modEq (b := 65536) sum
      have hlt := residue_lt (b := 65536) (by decide) sum
      rw [Nat.ModEq] at hmod
      split at hsum <;> omega

end V6

section Run
variable {cur cur' : IcmpSession} {sock : Int} {env : Env} {args : Arguments} {ev : Events}
  {reply message : List UInt8} {written : Bool}

/-- The length of the buffer that `check_icmp_socket` receives into. -/
def maxReply : IpVersion → Nat
  | .v4 => 65535 - 20 - 8
  | .v6 => 65535 - 40 - 8

theorem maxReply_eq (version : IpVersion) :
    (if version = .v4 then 65535 - 20 - 8 else 65535 - 40 - 8) = maxReply version := by
  cases version <;> rfl

/-- The calls of `check_icmp_socket`: a reply is read and written, or nothing comes of it. -/
theorem checkIcmpSocket_reads (env : Env) (args : Arguments) (ev : Events) (cur : IcmpSession)
    (sock : Int) :
    (∃ reply cur' written us, reply.length ≤ maxReply cur.version ∧
      cur'.toEndpoints = cur.toEndpoints ∧ (checkIcmpSocket env args ev ⟨cur, sock, []⟩).out =
        [.recv sock reply, .tun (.icmp cur' (rewriteIcmp (replyChecksum cur reply.length) cur.id
          reply)) written] ++ us ∧ ∀ o ∈ us, ∃ u, o = .upcall u) ∨
      ∀ o ∈ (checkIcmpSocket env args ev ⟨cur, sock, []⟩).out, o = .recv sock [] := by
  unfold checkIcmpSocket
  split
  · exact .inr (by simp)
  split
  · dsimp only
    split
    next bytes hbound hrecv =>
      obtain ⟨written, us, hout, hus⟩ := readReply_out env args bytes
        (Echo.emit ⟨{ cur with time := env.time [] }, sock, []⟩ (.recv sock bytes))
      exact .inl ⟨bytes, { cur with time := env.time [] }, written, us, maxReply_eq cur.version ▸ hbound.2, rfl, hout, hus⟩
    all_goals exact .inr (by simp [Echo.emit])
  · exact .inr (by simp)

theorem checkIcmpSocket_written
    (hreply : .recv sock reply ∈ (checkIcmpSocket env args ev ⟨cur, sock, []⟩).out)
    (hwritten : .tun (.icmp cur' message) written ∈ (checkIcmpSocket env args ev ⟨cur, sock, []⟩).out) :
    cur'.toEndpoints = cur.toEndpoints ∧ reply.length ≤ maxReply cur.version ∧
      message = rewriteIcmp (replyChecksum cur reply.length) cur.id reply := by
  rcases checkIcmpSocket_reads env args ev cur sock with
    ⟨bytes, cur₀, written₀, us, hlen, hends, hout, hus⟩ | hnone
  · rw [hout] at hreply hwritten
    have hnot {o : Output} (ho : o ∈ us) (hother : ∀ u, o ≠ .upcall u) : False := by
      obtain ⟨u, rfl⟩ := hus o ho
      exact hother u rfl
    rcases List.mem_append.mp hreply with hreply | hreply
    · obtain rfl : reply = bytes := by simpa using hreply
      rcases List.mem_append.mp hwritten with hwritten | hwritten
      · obtain ⟨⟨rfl, rfl⟩, -⟩ : (cur' = cur₀ ∧ message = _) ∧ written = written₀ := by
          simpa using hwritten
        exact ⟨hends, hlen, rfl⟩
      · exact (hnot hwritten (fun _ => nofun)).elim
    · exact (hnot hreply (fun _ => nofun)).elim
  · exact absurd (hnone _ hwritten) nofun

theorem icmpValid_iff (h : cur.toEndpoints.Sized) (hends : cur'.toEndpoints = cur.toEndpoints)
    (hlen : reply.length ≤ maxReply cur.version) :
    (Packet.ofBytes (TunPacket.icmp cur'
        (rewriteIcmp (replyChecksum cur reply.length) cur.id reply)).buffer).IcmpValid cur.version ↔
      cur.Repairs reply := by
  generalize hpacket : TunPacket.icmp cur'
    (rewriteIcmp (replyChecksum cur reply.length) cur.id reply) = packet
  have hsame : packet.ends = cur.toEndpoints := by
    rw [← hpacket]
    exact hends
  have hpayload : packet.payload = rewriteIcmp (replyChecksum cur reply.length) cur.id reply := by
    rw [← hpacket]
    rfl
  have hsized : packet.ends.Sized := hsame ▸ h
  have hupper := TunPacket.upper_buffer packet hsized
  have hpseudo := TunPacket.pseudo_buffer packet hsized
  have hright := TunPacket.lengthRight_buffer packet hsized
  rw [hsame] at hupper hpseudo hright
  have hroom : packet.ipLength ≤ 65535 := by
    rw [TunPacket.ipLength, hsame, hpayload, length_rewriteIcmp]
    cases hversion : cur.version <;> rw [hversion] at hlen <;> dsimp only [maxReply] at hlen ⊢ <;>
      omega
  have hshort : reply.length ≤ 65535 := by
    cases hversion : cur.version <;> rw [hversion] at hlen <;> dsimp only [maxReply] at hlen <;>
      omega
  have hvalid : (Packet.ofBytes packet.buffer).IcmpValid cur.version ↔
      (Packet.ofBytes packet.buffer).icmpSum cur.version = 0xFFFF :=
    ⟨fun hv => hv.checksum, fun hsum => ⟨hright.mpr hroom, hsum⟩⟩
  rw [hvalid, IcmpSession.Repairs]
  cases hversion : cur.version with
  | v4 =>
    rw [hversion] at hupper
    rw [Packet.icmpSum, hupper, hpayload, replyChecksum, hversion]
    exact netSum_rewriteIcmp_iff hshort
  | v6 =>
    rw [hversion] at hupper hpseudo
    have hprotocol : packet.protocol = ipprotoIcmpV6 := by
      rw [← hpacket, TunPacket.protocol, hends, hversion, if_neg (by decide)]
    rw [Packet.icmpSum, Packet.transportSum, hpseudo, hupper, hpayload, length_rewriteIcmp,
      hprotocol]
    exact netSum_rewriteIcmp6_iff h hversion hshort

/-- Of the replies to the sessions of a run, those of IPv4 are valid from four bytes on; those of
IPv6 only where they are too short to have a checksum and verify all the same. -/
theorem EventLoop.icmp_valid_iff (args : Arguments) (es : List (Env × LoopEvent))
    (hmem : .icmp cur sock ∈ ((EventLoop.init args).run es).ngSession)
    (hreply : .recv sock reply ∈ (checkIcmpSocket env args ev ⟨cur, sock, []⟩).out)
    (hwritten : .tun (.icmp cur' message) written ∈
      (checkIcmpSocket env args ev ⟨cur, sock, []⟩).out) :
    (Packet.ofBytes (TunPacket.icmp cur' message).buffer).IcmpValid cur.version ↔
      cur.Repairs reply := by
  obtain ⟨hends, hlen, rfl⟩ := checkIcmpSocket_written hreply hwritten
  exact icmpValid_iff ((EventLoop.run_sizes args es).list _ hmem).sized hends hlen

theorem icmpSession_sample : ∃ cur : IcmpSession, ((EventLoop.init .direct).run
    [(.calm, .tun (.sampleEcho 1))]).ngSession = [.icmp cur 7] ∧ cur.version = .v4 :=
  ⟨_, rfl, rfl⟩

theorem replying_written (cur : IcmpSession) : ∃ cur' message,
    (checkIcmpSocket .replying .direct ⟨true, false, false⟩ ⟨cur, 7, []⟩).out =
      [.recv 7 [0, 0, 0, 0, 0, 7, 0, 1], .tun (.icmp cur' message) true] := by
  obtain ⟨⟨version, saddr, daddr⟩, time, uid, id, stop⟩ := cur
  cases version <;> exact ⟨_, _, rfl⟩

theorem EventLoop.icmp_valid_sample : ∃ (cur cur' : IcmpSession) (message : List UInt8),
    .icmp cur 7 ∈ ((EventLoop.init .direct).run [(.calm, .tun (.sampleEcho 1))]).ngSession ∧
      .tun (.icmp cur' message) true ∈
        (checkIcmpSocket .replying .direct ⟨true, false, false⟩ ⟨cur, 7, []⟩).out ∧
      (Packet.ofBytes (TunPacket.icmp cur' message).buffer).IcmpValid cur.version := by
  obtain ⟨cur, hlist, hversion⟩ := icmpSession_sample
  obtain ⟨cur', message, hout⟩ := replying_written cur
  have hmem : .icmp cur 7 ∈
      ((EventLoop.init .direct).run [(.calm, .tun (.sampleEcho 1))]).ngSession := by simp [hlist]
  have hreply : .recv 7 [0, 0, 0, 0, 0, 7, 0, 1] ∈
      (checkIcmpSocket .replying .direct ⟨true, false, false⟩ ⟨cur, 7, []⟩).out := by simp [hout]
  have hwritten : .tun (.icmp cur' message) true ∈
      (checkIcmpSocket .replying .direct ⟨true, false, false⟩ ⟨cur, 7, []⟩).out := by simp [hout]
  refine ⟨cur, cur', message, hmem, hwritten, ?_⟩
  apply (EventLoop.icmp_valid_iff .direct _ hmem hreply hwritten).mpr
  rw [IcmpSession.Repairs, hversion]
  exact .inl (by decide)

/-- A packet of type 8 from `fd00::2` to `fd00::35`. -/
def Packet.sampleEcho6 : Packet :=
  .ofBytes ([0x60, 0, 0, 0, 0, 8, 58, 64, 0xfd, 0] ++ List.replicate 13 0 ++ [2, 0xfd, 0] ++
    List.replicate 13 0 ++ [53, 8, 0, 0, 0, 0, 5, 0, 1])

/-- The reply to an IPv6 session is written with a wrong checksum. -/
theorem EventLoop.not_icmp_valid : ¬ ∀ (args : Arguments) (es : List (Env × LoopEvent)) (env : Env)
    (ev : Events) (cur cur' : IcmpSession) (sock : Int) (reply message : List UInt8)
    (written : Bool), .icmp cur sock ∈ ((EventLoop.init args).run es).ngSession →
      .recv sock reply ∈ (checkIcmpSocket env args ev ⟨cur, sock, []⟩).out →
      .tun (.icmp cur' message) written ∈ (checkIcmpSocket env args ev ⟨cur, sock, []⟩).out →
      (Packet.ofBytes (TunPacket.icmp cur' message).buffer).IcmpValid cur.version := by
  intro h
  have hsession : ∃ cur : IcmpSession, ((EventLoop.init .direct).run
      [(.calm, .tun .sampleEcho6)]).ngSession = [.icmp cur 7] ∧ cur.version = .v6 := ⟨_, rfl, rfl⟩
  obtain ⟨cur, hlist, hversion⟩ := hsession
  obtain ⟨cur', message, hout⟩ := replying_written cur
  have hmem : .icmp cur 7 ∈
      ((EventLoop.init .direct).run [(.calm, .tun .sampleEcho6)]).ngSession := by simp [hlist]
  have hreply : .recv 7 [0, 0, 0, 0, 0, 7, 0, 1] ∈
      (checkIcmpSocket .replying .direct ⟨true, false, false⟩ ⟨cur, 7, []⟩).out := by simp [hout]
  have hwritten : .tun (.icmp cur' message) true ∈
      (checkIcmpSocket .replying .direct ⟨true, false, false⟩ ⟨cur, 7, []⟩).out := by simp [hout]
  have hvalid := h _ _ _ _ _ _ _ _ _ _ hmem hreply hwritten
  obtain ⟨hends, hlen, rfl⟩ := checkIcmpSocket_written hreply hwritten
  have hrepairs := (icmpValid_iff ((EventLoop.run_sizes .direct _).list _ hmem).sized hends
    hlen).mp hvalid
  rw [IcmpSession.Repairs, hversion] at hrepairs
  exact absurd hrepairs.1 (by decide)

end Run

end NetGuard.Engine
