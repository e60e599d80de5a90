import NetGuard.Bounds.Packet

/-! # What lies behind a packet

The footprint is what `handle_ip` sees: two packets that agree on it are handled alike. So a
bounded packet is handled alike whatever lies behind it in memory.
-/
namespace NetGuard.Engine
open Footprint

variable {p q : Packet}

section Words
variable {i n : Nat}

theorem Packet.be16_congr (h : ∀ k < 2, p.mem (i + k) = q.mem (i + k)) : p.be16 i = q.be16 i := by
  have hhigh := h 0 (by decide)
  have hlow := h 1 (by decide)
  rw [Nat.add_zero] at hhigh
  rw [Packet.be16, Packet.be16, hhigh, hlow]

theorem Packet.slice_congr (h : ∀ k < n, p.mem (i + k) = q.mem (i + k)) :
    p.slice i n = q.slice i n :=
  List.map_congr_left fun k hk => h k (List.mem_range.mp hk)

theorem Packet.sizeFrom_congr (hlength : p.length = q.length) (i : Nat) :
    p.sizeFrom i = q.sizeFrom i := by
  rw [Packet.sizeFrom, Packet.sizeFrom, hlength]

theorem Packet.datalen_congr (hlength : p.length = q.length) (i : Nat) :
    p.datalen i = q.datalen i := by
  rw [Packet.datalen, Packet.datalen, Packet.sizeFrom_congr hlength]

theorem Packet.tcphdr_congr {payload : Nat}
    (h : ∀ k < 16, p.mem (payload + k) = q.mem (payload + k)) :
    p.tcphdr payload = q.tcphdr payload := by
  have hword (a : Nat) (ha : a + 2 ≤ 16) : p.be16 (payload + a) = q.be16 (payload + a) :=
    Packet.be16_congr fun k hk => by
      rw [Nat.add_assoc]
      exact h (a + k) (by omega)
  have hlong (a : Nat) (ha : a + 4 ≤ 16) : p.be32 (payload + a) = q.be32 (payload + a) := by
    rw [Packet.be32, Packet.be32, hword a (by omega), Nat.add_assoc, hword (a + 2) (by omega)]
  have hsource : p.be16 payload = q.be16 payload := hword 0 (by decide)
  simp only [Packet.tcphdr, hsource, hword 2 (by decide), hlong 4 (by decide), hlong 8 (by decide),
    h 12 (by decide), h 13 (by decide), hword 14 (by decide)]

end Words

section Headers
variable {args : Arguments}

/-- The addresses that the handlers read again. -/
structure Packet.SameEnds (p q : Packet) (version : IpVersion) : Prop where
  saddr : p.saddr version = q.saddr version
  daddr : p.daddr version = q.daddr version

theorem parseIp4_agree (hlength : p.length = q.length) (hfirst : p.mem 0 = q.mem 0)
    (hagree : Agree (ip4Reads args p) p.mem q.mem) : parseIp4 args p = parseIp4 args q := by
  simp only [parseIp4, ← hlength]
  rw [ip4Reads] at hagree
  split
  · rfl
  next hlong =>
    rw [if_neg hlong, agree_append, agree_cons, agree_cons] at hagree
    obtain ⟨⟨hprotocol, hflags, -⟩, hrest⟩ := hagree
    have hfrag : p.fragOff = q.fragOff := by
      rw [Packet.fragOff, Packet.fragOff, show p.mem 6 = q.mem 6 from hflags 0 (by decide),
        show p.mem 7 = q.mem 7 from hflags 1 (by decide)]
    rw [← hfrag]
    split
    · rfl
    next hwhole =>
      rw [if_neg hwhole, agree_append, agree_cons, agree_cons] at hrest
      obtain ⟨⟨-, htotal, -⟩, hrest⟩ := hrest
      rw [← Packet.be16_congr (i := 2) htotal]
      split
      · rfl
      next hequal =>
        rw [if_neg hequal, agree_append] at hrest
        have hsum : (args.loglevel < androidLogWarn ∧ calcChecksum 0 (p.slice 0 20) = 0) ↔
            (args.loglevel < androidLogWarn ∧ calcChecksum 0 (q.slice 0 20) = 0) := by
          apply and_congr_right
          intro hverbose
          rw [if_pos hverbose, agree_cons] at hrest
          rw [Packet.slice_congr hrest.1.1]
        have hopt : p.ipoptlen = q.ipoptlen := by
          rw [Packet.ipoptlen, Packet.ipoptlen, hfirst]
        rw [show p.mem 9 = q.mem 9 from hprotocol 0 Nat.one_pos, hopt]
        simp only [hsum]

theorem parseIp4_ends {h : IpHdr} (hparsed : parseIp4 args p = .ok h)
    (hagree : Agree (ip4Reads args p) p.mem q.mem) : p.SameEnds q .v4 := by
  simp only [parseIp4] at hparsed
  rw [ip4Reads] at hagree
  split at hparsed
  · cases hparsed
  next hlong =>
    rw [if_neg hlong, agree_append] at hagree
    split at hparsed
    · cases hparsed
    next hwhole =>
      rw [if_neg hwhole, agree_append] at hagree
      split at hparsed
      · cases hparsed
      next hequal =>
        rw [if_neg hequal, agree_append] at hagree
        obtain ⟨hsaddr, hdaddr, -⟩ : _ ∧ _ ∧ _ := by
          simpa only [agree_cons] using hagree.2.2.2
        exact ⟨Packet.slice_congr hsaddr, Packet.slice_congr hdaddr⟩

theorem skipExtensions_agree {fuel : Nat} {off : UInt16} {protocol : UInt8}
    (hagree : Agree (extensionReads p fuel off protocol) p.mem q.mem) :
    skipExtensions p fuel off protocol = skipExtensions q fuel off protocol := by
  induction fuel generalizing off protocol with
  | zero => rfl
  | succ fuel ih =>
    rw [extensionReads, agree_cons] at hagree
    obtain ⟨hnext, hrest⟩ := hagree
    have hnext : p.mem off.toNat = q.mem off.toNat := hnext 0 Nat.one_pos
    simp only [skipExtensions, ← hnext]
    split
    next hskip =>
      rw [if_pos hskip, agree_cons] at hrest
      have hlen : p.mem (off.toNat + 1) = q.mem (off.toNat + 1) := hrest.1 0 Nat.one_pos
      rw [← hlen]
      exact ih hrest.2
    next => rfl

theorem parseIp6_agree (hlength : p.length = q.length)
    (hagree : Agree (ip6Reads p) p.mem q.mem) : parseIp6 p = parseIp6 q := by
  simp only [parseIp6, ← hlength]
  rw [ip6Reads] at hagree
  split
  · rfl
  next hlong =>
    rw [if_neg hlong, agree_append, agree_append, agree_cons] at hagree
    obtain ⟨⟨⟨hnext, -⟩, hchain⟩, -⟩ := hagree
    have hnext : p.mem 6 = q.mem 6 := hnext 0 Nat.one_pos
    rw [← hnext]
    split
    · rfl
    next hupper =>
      rw [if_neg hupper] at hchain
      rw [skipExtensions_agree hchain]

theorem parseIp6_ends {h : IpHdr} (hparsed : parseIp6 p = .ok h)
    (hagree : Agree (ip6Reads p) p.mem q.mem) : p.SameEnds q .v6 := by
  obtain ⟨hlong, -⟩ := parseIp6_ok hparsed
  rw [ip6Reads, if_neg (Nat.not_lt.mpr hlong), agree_append] at hagree
  obtain ⟨hsaddr, hdaddr, -⟩ : _ ∧ _ ∧ _ := by simpa only [agree_cons] using hagree.2
  exact ⟨Packet.slice_congr hsaddr, Packet.slice_congr hdaddr⟩

theorem parseIp_agree (hlength : p.length = q.length)
    (hagree : Agree (parseReads args p) p.mem q.mem) : parseIp args p = parseIp args q := by
  rw [parseReads, agree_cons] at hagree
  obtain ⟨hfirst, hrest⟩ := hagree
  have hfirst : p.mem 0 = q.mem 0 := hfirst 0 Nat.one_pos
  have hversion : p.versionNibble = q.versionNibble := by
    rw [Packet.versionNibble, Packet.versionNibble, hfirst]
  simp only [parseIp, ← hversion]
  split
  next hv4 =>
    rw [if_pos hv4] at hrest
    exact parseIp4_agree hlength hfirst hrest
  next hv4 =>
    rw [if_neg hv4] at hrest
    split
    next hv6 =>
      rw [if_pos hv6] at hrest
      exact parseIp6_agree hlength hrest
    next => rfl

theorem parseIp_ends {h : IpHdr} (hparsed : parseIp args p = .ok h)
    (hagree : Agree (parseReads args p) p.mem q.mem) : p.SameEnds q h.version := by
  rw [parseReads, agree_cons] at hagree
  obtain ⟨-, hrest⟩ := hagree
  simp only [parseIp] at hparsed
  split at hparsed
  next hv4 =>
    rw [if_pos hv4] at hrest
    rw [(parseIp4_ok hparsed).2]
    exact parseIp4_ends hparsed hrest
  next hv4 =>
    rw [if_neg hv4] at hrest
    split at hparsed
    next hv6 =>
      rw [if_pos hv6] at hrest
      rw [(parseIp6_ok hparsed).2.1]
      exact parseIp6_ends hparsed hrest
    next => cases hparsed

end Headers

section Verdict
variable {env : Env} {h : IpHdr} {version : IpVersion} {payload : Nat}

theorem IpHdr.tooShort_congr (hlength : p.length = q.length) (h : IpHdr) :
    h.tooShort p = h.tooShort q := by
  rw [IpHdr.tooShort, IpHdr.tooShort, Packet.sizeFrom_congr hlength]

theorem Packet.flow_congr (hends : p.SameEnds q version) (hsource : p.be16 payload = q.be16 payload)
    (hdest : p.be16 (payload + 2) = q.be16 (payload + 2)) :
    p.flow payload version = q.flow payload version := by
  simp only [Packet.flow, hends.saddr, hends.daddr, hsource, hdest]

theorem portReads_udp (hwhole : h.tooShort p = false) (hudp : h.protocol = ipprotoUdp) :
    portReads p h = [⟨h.payload, 2⟩, ⟨h.payload + 2, 2⟩] := by
  rw [portReads, hwhole, IpHdr.isIcmp_udp hudp, if_neg Bool.false_ne_true,
    if_neg Bool.false_ne_true, if_pos hudp]

theorem portReads_tcp (hwhole : h.tooShort p = false) (htcp : h.protocol = ipprotoTcp) :
    portReads p h = [⟨h.payload, 2⟩, ⟨h.payload + 2, 2⟩, ⟨h.payload + 13, 1⟩] := by
  rw [portReads, hwhole, IpHdr.isIcmp_tcp htcp, if_neg Bool.false_ne_true,
    if_neg Bool.false_ne_true, if_neg (IpHdr.not_udp htcp), if_pos htcp]

theorem IpHdr.query_agree (hwhole : h.tooShort p = false) (hends : p.SameEnds q h.version)
    (hagree : Agree (portReads p h) p.mem q.mem) : h.query p = h.query q := by
  have hports : h.ports p = h.ports q := by
    simp only [IpHdr.ports]
    split
    next hicmp =>
      rw [portReads, hwhole, if_neg Bool.false_ne_true, if_pos hicmp, agree_cons,
        agree_cons] at hagree
      rw [Packet.be16_congr hagree.2.1]
    next =>
      split
      next hpair =>
        obtain ⟨hsource, hdest⟩ : (∀ k < 2, p.mem (h.payload + k) = q.mem (h.payload + k)) ∧
            ∀ k < 2, p.mem (h.payload + 2 + k) = q.mem (h.payload + 2 + k) := by
          rcases hpair with hudp | htcp
          · rw [portReads_udp hwhole hudp, agree_cons, agree_cons] at hagree
            exact ⟨hagree.1, hagree.2.1⟩
          · rw [portReads_tcp hwhole htcp, agree_cons, agree_cons] at hagree
            exact ⟨hagree.1, hagree.2.1⟩
        rw [Packet.be16_congr hsource, Packet.be16_congr hdest]
      next => rfl
  simp only [IpHdr.query, hports, hends.saddr, hends.daddr]

theorem IpHdr.syn_agree (hwhole : h.tooShort p = false)
    (hagree : Agree (portReads p h) p.mem q.mem) : h.syn p = h.syn q := by
  simp only [IpHdr.syn]
  by_cases htcp : h.protocol = ipprotoTcp
  · rw [portReads_tcp hwhole htcp, agree_cons, agree_cons, agree_cons] at hagree
    have hflags : p.mem (h.payload + 13) = q.mem (h.payload + 13) := hagree.2.2.1 0 Nat.one_pos
    simp only [Packet.tcphdr, hflags]
  · simp only [htcp, decide_false, Bool.false_and]

theorem overLimit_agree {sessions maxsessions : Int} {list : List NgSession}
    (hwhole : h.tooShort p = false) (hends : p.SameEnds q h.version)
    (hports : Agree (portReads p h) p.mem q.mem)
    (hagree : Agree (limitReads h sessions maxsessions) p.mem q.mem) :
    overLimit p h sessions maxsessions list = overLimit q h sessions maxsessions list := by
  rw [overLimit, overLimit, IpHdr.syn_agree hwhole hports]
  by_cases hlimit : sessions ≥ maxsessions ∧ h.protocol = ipprotoUdp
  · rw [limitReads, if_pos hlimit, agree_cons, agree_cons] at hagree
    have hflow := Packet.flow_congr hends (Packet.be16_congr hagree.1)
      (Packet.be16_congr hagree.2.1)
    rw [hasUdpSession, hasUdpSession, hflow]
  · rw [not_and_or] at hlimit
    rcases hlimit with hlimit | hudp
    · simp only [hlimit, decide_false, Bool.false_and]
    · simp only [hudp, decide_false, Bool.false_and]

/-- The comparison with the ports of an entry sees the words that it needs. -/
theorem flow_eq_agree {flow : Flow} (hends : p.SameEnds q version)
    (hsource : flow.version = version → p.be16 payload = q.be16 payload)
    (hdest : flow.version = version → flow.source = p.be16 payload →
      p.be16 (payload + 2) = q.be16 (payload + 2)) :
    flow = p.flow payload version ↔ flow = q.flow payload version := by
  by_cases hversion : flow.version = version
  · have hfirst := hsource hversion
    by_cases hport : flow.source = p.be16 payload
    · rw [Packet.flow_congr hends hfirst (hdest hversion hport)]
    · refine iff_of_false (fun h => hport ?_) (fun h => hport ?_)
      · rw [h, Packet.flow]
      · rw [h, hfirst, Packet.flow]
  · refine iff_of_false (fun h => hversion ?_) (fun h => hversion ?_)
    · rw [h, Packet.flow]
    · rw [h, Packet.flow]

theorem matchesUid_agree {cur : NgSession} {rest : List NgSession} (hends : p.SameEnds q version)
    (hagree : Agree (uidReads p version payload (cur :: rest)) p.mem q.mem) :
    cur.matchesUid p version payload = cur.matchesUid q version payload := by
  have hports {flow : Flow} (h : Agree (if flow.version = version then
      ⟨payload, 2⟩ :: if flow.source = p.be16 payload then [⟨payload + 2, 2⟩] else []
      else []) p.mem q.mem) : flow = p.flow payload version ↔ flow = q.flow payload version := by
    refine flow_eq_agree hends ?_ ?_
    · intro hversion
      rw [if_pos hversion, agree_cons] at h
      exact Packet.be16_congr h.1
    · intro hversion hsource
      rw [if_pos hversion, if_pos hsource, agree_cons, agree_cons] at h
      exact Packet.be16_congr h.2.1
  simp only [uidReads, agree_append] at hagree
  cases cur with
  | icmp s sock =>
    have hsame : (p.flow payload version).toEndpoints = (q.flow payload version).toEndpoints := by
      simp only [Packet.flow, hends.saddr, hends.daddr]
    simp only [NgSession.matchesUid, hsame]
  | udp s sock => simp only [NgSession.matchesUid, hports hagree.1]
  | tcp s sock events => simp only [NgSession.matchesUid, hports hagree.1]

theorem getUidFromSession_agree {list : List NgSession} (hends : p.SameEnds q version)
    (hagree : Agree (uidReads p version payload list) p.mem q.mem) :
    getUidFromSession p version payload list = getUidFromSession q version payload list := by
  induction list with
  | nil => rfl
  | cons cur rest ih =>
    simp only [getUidFromSession, ← matchesUid_agree hends hagree]
    split
    · rfl
    next hother =>
      simp only [uidReads, agree_append, if_neg hother] at hagree
      exact ih hagree.2

theorem packetUid_agree (hquery : h.query p = h.query q) {ctx : Context}
    (huid : getUidFromSession p h.version h.payload ctx.ngSession =
      getUidFromSession q h.version h.payload ctx.ngSession) :
    packetUid env p h ctx = packetUid env q h ctx := by
  simp only [packetUid, huid, hquery]

theorem checkAllowedPacket_agree (hquery : h.query p = h.query q) (uid : Int) (name : List UInt8)
    (ctx : Context) :
    checkAllowedPacket env p h uid name ctx = checkAllowedPacket env q h uid name ctx := by
  simp only [checkAllowedPacket, hquery]

end Verdict

section ServerName
variable {data data' : Nat → UInt8} {edatalen eindex : Nat}

theorem tlsWord_congr {i : Nat} (hhigh : data i = data' i) (hlow : data (i + 1) = data' (i + 1)) :
    tlsWord data i = tlsWord data' i := by
  rw [tlsWord, tlsWord, hhigh, hlow]

/-- Behind a guard only its own case counts. -/
theorem guard_bind_congr {α : Type} {P P' : Prop} [Decidable P] [Decidable P']
    {f g : Unit → Option α} (hguard : P ↔ P') (h : P → f () = g ()) :
    (guard P >>= f) = (guard P' >>= g) := by
  by_cases hP : P
  · simpa [guard, hP, hguard.mp hP] using h hP
  · simp [guard, hP, mt hguard.mpr hP]

theorem parseServerName_congr (h : ∀ i < edatalen, data i = data' i) :
    parseServerName data edatalen eindex = parseServerName data' edatalen eindex := by
  have hword {i : Nat} (hi : i + 1 < edatalen) : tlsWord data i = tlsWord data' i :=
    tlsWord_congr (h i (by omega)) (h (i + 1) hi)
  apply guard_bind_congr Iff.rfl
  intro hlist
  apply guard_bind_congr (by rw [hword hlist])
  intro _
  apply guard_bind_congr Iff.rfl
  intro htype
  apply guard_bind_congr (by rw [h _ htype])
  intro _
  apply guard_bind_congr Iff.rfl
  intro hname
  apply guard_bind_congr (by rw [hword hname])
  intro hend
  apply guard_bind_congr (by rw [hword hname])
  intro _
  rw [hword hname] at hend ⊢
  refine congrArg some (List.map_congr_left fun k hk => h _ ?_)
  have hlast := List.mem_range.mp hk
  omega

theorem parseExtensions_congr (h : ∀ i < edatalen, data i = data' i) :
    parseExtensions data edatalen eindex = parseExtensions data' edatalen eindex := by
  have hword {i : Nat} (hi : i + 1 < edatalen) : tlsWord data i = tlsWord data' i :=
    tlsWord_congr (h i (by omega)) (h (i + 1) hi)
  fun_induction parseExtensions data edatalen eindex with
  | case1 eindex hmore htype => rw [parseExtensions, if_pos hmore, if_pos htype]
  | case2 eindex hmore htype hlen =>
    rw [parseExtensions, if_pos hmore, if_neg htype, if_pos hlen]
  | case3 eindex hmore htype hlen hend =>
    rw [hword (by omega)] at hend
    rw [parseExtensions, if_pos hmore, if_neg htype, if_neg hlen, if_pos hend]
  | case4 eindex hmore htype hlen hend hname =>
    rw [hword (by omega)] at hend hname
    rw [parseExtensions, if_pos hmore, if_neg htype, if_neg hlen, if_neg hend, if_pos hname]
    exact parseServerName_congr h
  | case5 eindex hmore htype hlen hend hname ih =>
    rw [hword (by omega)] at hend hname ih
    rw [hword (by omega), ih]
    conv_rhs => rw [parseExtensions]
    rw [if_pos hmore, if_neg htype, if_neg hlen, if_neg hend, if_neg hname]
  | case6 eindex hmore => rw [parseExtensions, if_neg hmore]

/-- `parse_sni` stays inside the slice it is given. -/
theorem parseSni_congr {datalen : UInt16} (h : ∀ i < datalen.toNat, data i = data' i) :
    parseSni data datalen = parseSni data' datalen := by
  have hword {i : Nat} (hi : i + 1 < datalen.toNat) : tlsWord data i = tlsWord data' i :=
    tlsWord_congr (h i (by omega)) (h (i + 1) hi)
  apply guard_bind_congr Iff.rfl
  intro hsix
  refine guard_bind_congr ?_ fun _ => ?_
  · rw [h 0 (by omega), h 1 (by omega), h 5 (by omega), hword (i := 3) (by omega)]
  apply guard_bind_congr Iff.rfl
  intro hsession
  rw [h _ hsession]
  apply guard_bind_congr Iff.rfl
  intro hsuites
  rw [hword hsuites]
  apply guard_bind_congr Iff.rfl
  intro hcompression
  rw [h _ hcompression]
  apply guard_bind_congr Iff.rfl
  intro hextensions
  rw [hword hextensions]
  apply guard_bind_congr Iff.rfl
  intro hlength
  refine parseExtensions_congr fun i hi => h _ ?_
  have hend := hlength.2
  omega

theorem serverName_agree {h : IpHdr} (hlength : p.length = q.length) (hquery : h.query p = h.query q)
    (hagree : Agree (sniReads p h) p.mem q.mem) (uid : Int) (ctx : Context) :
    serverName p h uid ctx = serverName q h uid ctx := by
  simp only [serverName]
  split
  next htcp =>
    rw [sniReads, if_pos htcp, agree_cons, agree_cons] at hagree
    obtain ⟨hdoff, hdata, -⟩ := hagree
    have hbegin : p.tcpData h.payload = q.tcpData h.payload := by
      have hbyte : p.mem (h.payload + 12) = q.mem (h.payload + 12) := hdoff 0 Nat.one_pos
      simp only [Packet.tcpData, TcpHdr.tcpoptlen, Packet.tcphdr, hbyte]
    have hname : parseSni (fun i => p.mem (p.tcpData h.payload + i)) (p.datalen (p.tcpData h.payload)) =
        parseSni (fun i => q.mem (p.tcpData h.payload + i)) (p.datalen (p.tcpData h.payload)) :=
      parseSni_congr hdata
    rw [← hbegin, ← hquery, ← Packet.datalen_congr hlength, hname]
  next => rfl

end ServerName

section Handlers
variable {env : Env} {args : Arguments} {h : IpHdr} {ctx : Context}

structure Packet.SameOption (p q : Packet) (options : Nat) : Prop where
  kind : p.mem options = q.mem options
  len : p.mem (options + 1) = q.mem (options + 1)
  mss : ∀ mss, (if p.mem options = 2 ∧ (p.mem (options + 1)).toNat = 4 then p.be16 (options + 2)
    else mss) = if p.mem options = 2 ∧ (p.mem (options + 1)).toNat = 4 then q.be16 (options + 2)
    else mss
  ws : ∀ ws, (if p.mem options = 3 ∧ (p.mem (options + 1)).toNat = 3 then p.mem (options + 2)
    else ws) = if p.mem options = 3 ∧ (p.mem (options + 1)).toNat = 3 then q.mem (options + 2)
    else ws

theorem optionReads_agree {options : Nat} (hagree : Agree (optionReads p options) p.mem q.mem) :
    p.SameOption q options := by
  rw [optionReads, agree_append, agree_cons, agree_cons] at hagree
  obtain ⟨⟨hkind, hlen, -⟩, htaken⟩ := hagree
  refine ⟨hkind 0 Nat.one_pos, hlen 0 Nat.one_pos, ?_, ?_⟩
  · intro mss
    split
    next htake =>
      have hfour : p.mem (options + 1) = 4 := UInt8.toNat_inj.mp htake.2
      rw [if_pos ⟨htake.1, hfour⟩, agree_cons] at htaken
      exact Packet.be16_congr htaken.1
    next => rfl
  · intro ws
    split
    next htake =>
      have hthree : p.mem (options + 1) = 3 := UInt8.toNat_inj.mp htake.2
      have hmss : ¬ (p.mem options = 2 ∧ p.mem (options + 1) = 4) := by
        rw [htake.1]
        intro h
        exact absurd h.1 (by decide)
      rw [if_neg hmss, if_pos ⟨htake.1, hthree⟩, agree_cons] at htaken
      exact htaken.1 0 Nat.one_pos
    next => rfl

theorem parseOptions_agree {options : Nat} {optlen : Int} {mss : UInt16} {ws : UInt8}
    (hagree : Agree ((optionPointers p options optlen).flatMap (optionReads p)) p.mem q.mem) :
    parseOptions p options optlen mss ws = parseOptions q options optlen mss ws := by
  rw [optionPointers] at hagree
  unfold parseOptions
  split
  next hmore =>
    rw [if_pos hmore, List.flatMap_cons, agree_append] at hagree
    obtain ⟨hfirst, hrest⟩ := hagree
    have hsame := optionReads_agree hfirst
    simp only [← hsame.kind, ← hsame.len, ← hsame.mss, ← hsame.ws]
    split
    · rfl
    next hend =>
      rw [if_neg hend] at hrest
      split
      next hnop =>
        rw [if_pos hnop] at hrest
        exact parseOptions_agree hrest
      next hnop =>
        rw [if_neg hnop] at hrest
        split
        · rfl
        next hlen =>
          rw [if_neg hlen] at hrest
          exact parseOptions_agree hrest
  next => rfl
termination_by optlen.toNat

theorem handleTcp_agree (hlength : p.length = q.length) (hends : p.SameEnds q h.version)
    (hagree : Agree (tcpReads p h ctx.ngSession) p.mem q.mem) (uid : Int) (allowed : Bool) :
    handleTcp env args p h.version h.payload uid allowed ctx =
      handleTcp env args q h.version h.payload uid allowed ctx := by
  rw [tcpReads, agree_append, agree_cons, agree_cons] at hagree
  obtain ⟨⟨hheader, hdata, -⟩, hoptions⟩ := hagree
  have htcphdr : p.tcphdr h.payload = q.tcphdr h.payload := Packet.tcphdr_congr hheader
  have hflow : p.flow h.payload h.version = q.flow h.payload h.version :=
    Packet.flow_congr hends (congrArg TcpHdr.source htcphdr) (congrArg TcpHdr.dest htcphdr)
  have hbegin : p.tcpData h.payload = q.tcpData h.payload := by
    rw [Packet.tcpData, Packet.tcpData, htcphdr]
  have hpayload : p.payloadFrom (p.tcpData h.payload) = q.payloadFrom (p.tcpData h.payload) := by
    apply Subtype.ext
    have hslice : p.slice (p.tcpData h.payload) (p.datalen (p.tcpData h.payload)).toNat =
        q.slice (p.tcpData h.payload) (p.datalen (p.tcpData h.payload)).toNat :=
      Packet.slice_congr hdata
    simp only [Packet.payloadFrom, ← Packet.datalen_congr hlength]
    exact hslice
  simp only [handleTcp, ← htcphdr, ← hflow, ← hpayload, ← hbegin, ← Packet.datalen_congr hlength]
  split
  · rfl
  next hurg =>
    rcases Table.search (NgSession.isTcp (p.flow h.payload h.version)) ctx.ngSession with
      ⟨before, a, rest, hcut, -, ha, -⟩ | ⟨hcut, hnone⟩
    · rw [hcut]
      cases a with
      | tcp s sock events => rfl
      | udp s sock => exact absurd ha Bool.false_ne_true
      | icmp s sock => exact absurd ha Bool.false_ne_true
    · rw [hcut]
      simp only
      split
      next hsyn =>
        have hdecodes : decodesOptions p h ctx.ngSession = true := by
          simpa [decodesOptions, hurg, hsyn] using hnone
        rw [if_pos hdecodes] at hoptions
        rw [parseOptions_agree hoptions]
      next => rfl

theorem handleUdp_agree (hlength : p.length = q.length) (hends : p.SameEnds q h.version)
    (hagree : Agree [⟨h.payload, 2⟩, ⟨h.payload + 2, 2⟩, udpSlice p h] p.mem q.mem) (uid : Int) :
    handleUdp env args p h.version h.payload uid ctx = handleUdp env args q h.version h.payload uid ctx := by
  rw [agree_cons, agree_cons, agree_cons] at hagree
  obtain ⟨hsource, hdest, hdata, -⟩ := hagree
  have hflow := Packet.flow_congr hends (Packet.be16_congr hsource) (Packet.be16_congr hdest)
  have hslice : p.slice (h.payload + 8) (p.sizeFrom (h.payload + 8)).toNat =
      q.slice (h.payload + 8) (p.sizeFrom (h.payload + 8)).toNat := Packet.slice_congr hdata
  simp only [handleUdp, ← hflow, ← Packet.sizeFrom_congr hlength, ← hslice]

theorem handleIcmp_agree (hlength : p.length = q.length) (hends : p.SameEnds q h.version)
    (hagree : Agree (icmpReads p h) p.mem q.mem) (uid : Int) :
    handleIcmp env args p h.version h.payload uid ctx = handleIcmp env args q h.version h.payload uid ctx := by
  rw [icmpReads, agree_append, agree_cons, agree_cons, agree_cons] at hagree
  obtain ⟨⟨htype, hid, hdata, -⟩, hpseudo⟩ := hagree
  have htype : p.mem h.payload = q.mem h.payload := htype 0 Nat.one_pos
  have hid : p.be16 (h.payload + 4) = q.be16 (h.payload + 4) := Packet.be16_congr hid
  have hslice : p.slice h.payload (p.sizeFrom h.payload).toNat =
      q.slice h.payload (p.sizeFrom h.payload).toNat := Packet.slice_congr hdata
  have hsum : requestChecksum p h.version = requestChecksum q h.version := by
    cases hversion : h.version with
    | v4 => rfl
    | v6 =>
      rw [hversion] at hends
      rw [if_pos hversion, agree_cons, agree_cons] at hpseudo
      have hnext : p.mem 6 = q.mem 6 := hpseudo.2.1 0 Nat.one_pos
      have hplen : p.slice 4 2 = q.slice 4 2 := Packet.slice_congr hpseudo.1
      simp only [requestChecksum, hends.saddr, hends.daddr, hnext, hplen]
  simp only [handleIcmp, htype, hid, hslice, hsum, hends.saddr, hends.daddr,
    ← Packet.sizeFrom_congr hlength]

theorem handlePacket_agree (hlength : p.length = q.length) (hends : p.SameEnds q h.version)
    (hjudge : judgePacket env p h ctx = judgePacket env q h ctx)
    (hagree : Agree (handlerReads env args p h ctx) p.mem q.mem) :
    handlePacket env args p h ctx = handlePacket env args q h ctx := by
  have hthrough : letThrough env args q h ctx = letThrough env args p h ctx := by
    rw [letThrough, letThrough, hjudge]
  have hsame := (judgePacket_asks env p h ctx).ngSession
  rw [handlerReads] at hagree
  cases hverdict : letThrough env args p h ctx with
  | true =>
    rw [handlePacket_letThrough hverdict, handlePacket_letThrough (hthrough.trans hverdict), ← hjudge]
    rw [if_pos hverdict] at hagree
    simp only [handleAllowed]
    split
    next hicmp =>
      rw [if_pos hicmp] at hagree
      exact handleIcmp_agree hlength hends hagree _
    next hicmp =>
      rw [if_neg hicmp] at hagree
      split
      next hudp =>
        rw [if_pos hudp] at hagree
        exact handleUdp_agree hlength hends hagree _
      next hudp =>
        rw [if_neg hudp] at hagree
        split
        next htcp =>
          rw [if_pos htcp, ← hsame] at hagree
          exact handleTcp_agree hlength hends hagree _ _
        next => rfl
  | false =>
    rw [handlePacket_blocked hverdict, handlePacket_blocked (hthrough.trans hverdict), ← hjudge]
    rw [hverdict, if_neg Bool.false_ne_true] at hagree
    simp only [handleBlocked]
    split
    next hudp =>
      rw [if_pos hudp, agree_cons, agree_cons] at hagree
      have hflow := Packet.flow_congr hends (Packet.be16_congr hagree.1)
        (Packet.be16_congr hagree.2.1)
      simp only [blockUdp, hflow]
    next hudp =>
      rw [if_neg hudp] at hagree
      split
      next htcp =>
        rw [if_pos htcp, ← hsame] at hagree
        exact handleTcp_agree hlength hends hagree _ _
      next => rfl

/-- Packets that agree on what `handle_ip` reads are handled alike. -/
theorem handleIp_agree {sessions maxsessions : Int} (hlength : p.length = q.length)
    (hagree : Agree (handleIpReads env args p sessions maxsessions ctx) p.mem q.mem) :
    handleIp env args p sessions maxsessions ctx = handleIp env args q sessions maxsessions ctx := by
  rw [handleIpReads, agree_append] at hagree
  obtain ⟨hheader, hrest⟩ := hagree
  have hparse := parseIp_agree hlength hheader
  cases hparsed : parseIp args p with
  | drop => simp only [handleIp, ← hparse, hparsed]
  | hang => simp only [handleIp, ← hparse, hparsed]
  | ok h =>
    have hends := parseIp_ends hparsed hheader
    rw [hparsed] at hrest hparse
    simp only [handleIp, hparsed, ← hparse, ← IpHdr.tooShort_congr hlength]
    split
    · rfl
    next hwhole =>
      have hwhole : h.tooShort p = false := by simpa using hwhole
      simp only [hwhole, agree_append, Bool.false_eq_true, if_false] at hrest
      obtain ⟨hports, hlimit, hrest⟩ := hrest
      rw [← overLimit_agree hwhole hends hports hlimit]
      split
      · rfl
      next hadmitted =>
        rw [if_neg hadmitted, agree_append, agree_append] at hrest
        obtain ⟨⟨huid, hsni⟩, hhandler⟩ := hrest
        have hquery := IpHdr.query_agree hwhole hends hports
        have hjudge : judgePacket env p h ctx = judgePacket env q h ctx := by
          simp only [judgePacket, packetUid_agree hquery (getUidFromSession_agree hends huid),
            serverName_agree hlength hquery hsni, checkAllowedPacket_agree hquery]
        have hhandled := handlePacket_agree hlength hends hjudge hhandler
        simp only [handlePacket, ← hjudge] at hhandled
        simp only [← hjudge, hhandled, logOutgoing, hquery, hlength]

/-- What lies behind a bounded packet makes no difference. -/
theorem Packet.Bounded.handleIp_eq {sessions maxsessions : Int}
    (hbounded : p.Bounded env args sessions maxsessions ctx) (hlength : p.length = q.length)
    (hsame : ∀ i < p.length, p.mem i = q.mem i) :
    handleIp env args p sessions maxsessions ctx = handleIp env args q sessions maxsessions ctx :=
  handleIp_agree hlength (hbounded.inside.agree hsame)

end Handlers

end NetGuard.Engine
