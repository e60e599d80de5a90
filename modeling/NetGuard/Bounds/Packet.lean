import NetGuard.Bounds.Reads
import NetGuard.Loop.Packet

/-! # Packet bounds

Every test of `handle_ip` on a length is a subtraction in `size_t`, so that a payload pointer
behind the packet passes it. What the headers must say for every read to stay inside the packet
is stated on the header fields.
-/
namespace NetGuard.Engine
open Footprint

section Lengths
variable {p : Packet} {h : IpHdr} {i : Nat}

def Packet.ihl (p : Packet) : Nat := (p.mem 0 &&& 0x0f).toNat

def Packet.doff (p : Packet) (payload : Nat) : Nat := (p.tcphdr payload).doff.toNat

theorem Packet.doff_le (payload : Nat) : p.doff payload ≤ 15 := by
  have hbyte := (p.mem (payload + 12)).toNat_lt
  simp only [Packet.doff, Packet.tcphdr, UInt8.toNat_shiftRight, UInt8.reduceToNat,
    Nat.shiftRight_eq_div_pow, Nat.reduceMod, Nat.reducePow]
  omega

theorem Packet.tcpData_eq {payload : Nat} (hdoff : 5 ≤ p.doff payload) :
    p.tcpData payload = payload + 4 * p.doff payload := by
  have hle := p.doff_le payload
  simp only [Packet.doff] at hdoff hle ⊢
  simp only [Packet.tcpData, TcpHdr.tcpoptlen, UInt8.toNat_sub, UInt8.toNat_mul,
    UInt8.reduceToNat]
  omega

theorem Packet.sizeFrom_toNat (hlength : p.length ≤ getMtu.toNat) (hi : i ≤ p.length) :
    (p.sizeFrom i).toNat = p.length - i := by
  have hmtu : getMtu.toNat = 10000 := rfl
  simp only [Packet.sizeFrom, UInt64.toNat_sub, UInt64.toNat_ofNat']
  omega

theorem Packet.sizeFrom_behind (hlength : p.length ≤ getMtu.toNat) (hi : p.length < i)
    (hfar : i < 2 ^ 17) : (p.sizeFrom i).toNat = 2 ^ 64 - (i - p.length) := by
  have hmtu : getMtu.toNat = 10000 := rfl
  simp only [Packet.sizeFrom, UInt64.toNat_sub, UInt64.toNat_ofNat']
  omega

theorem IpHdr.minLength_le (h : IpHdr) : h.minLength.toNat ≤ 20 := by
  unfold IpHdr.minLength
  split
  · decide
  split
  · decide
  split
  · decide
  · decide

/-- A payload behind the end of the packet is never too short. -/
theorem IpHdr.tooShort_iff (hlength : p.length ≤ getMtu.toNat) (hfar : h.payload < 2 ^ 17) :
    h.tooShort p = false ↔ (h.payload ≤ p.length → h.payload + h.minLength.toNat ≤ p.length) := by
  have hmin := h.minLength_le
  simp only [IpHdr.tooShort, decide_eq_false_iff_not, UInt64.lt_iff_toNat_lt]
  by_cases hpayload : h.payload ≤ p.length
  · rw [Packet.sizeFrom_toNat hlength hpayload]
    omega
  · rw [Packet.sizeFrom_behind hlength (by omega) hfar]
    omega

theorem parseIp4_ok {args : Arguments} (hparsed : parseIp4 args p = .ok h) :
    20 ≤ p.length ∧ h = ⟨.v4, p.mem 9, 20 + p.ipoptlen.toNat⟩ := by
  simp only [parseIp4] at hparsed
  split at hparsed
  · exact absurd hparsed nofun
  next hshort =>
    refine ⟨Nat.not_lt.mp hshort, ?_⟩
    split at hparsed
    · exact absurd hparsed nofun
    split at hparsed
    · exact absurd hparsed nofun
    split at hparsed
    · exact absurd hparsed nofun
    · exact (Parsed.ok.inj hparsed).symm

theorem parseIp6_ok (hparsed : parseIp6 p = .ok h) :
    40 ≤ p.length ∧ h.version = .v6 ∧ h.payload < 2 ^ 17 := by
  simp only [parseIp6] at hparsed
  split at hparsed
  · exact absurd hparsed nofun
  next hshort =>
    refine ⟨Nat.not_lt.mp hshort, ?_⟩
    split at hparsed
    · obtain rfl := Parsed.ok.inj hparsed
      exact ⟨rfl, show 40 < 2 ^ 17 by decide⟩
    split at hparsed
    · exact absurd hparsed nofun
    next off last hskip =>
      have hoff := off.toNat_lt
      split at hparsed
      · obtain rfl := Parsed.ok.inj hparsed
        exact ⟨rfl, by simp only; omega⟩
      · obtain rfl := Parsed.ok.inj hparsed
        exact ⟨rfl, show 40 < 2 ^ 17 by decide⟩

/-- The two ways through the IP header. -/
theorem parseIp_ok {args : Arguments} (hparsed : parseIp args p = .ok h) :
    (p.versionNibble = 4 ∧ 20 ≤ p.length ∧ h = ⟨.v4, p.mem 9, 20 + p.ipoptlen.toNat⟩) ∨
      (p.versionNibble = 6 ∧ 40 ≤ p.length ∧ h.version = .v6 ∧ h.payload < 2 ^ 17) := by
  simp only [parseIp] at hparsed
  split at hparsed
  next hv4 => exact .inl ⟨hv4, parseIp4_ok hparsed⟩
  next =>
    split at hparsed
    next hv6 => exact .inr ⟨hv6, parseIp6_ok hparsed⟩
    next => exact absurd hparsed nofun

theorem parseIp_payload {args : Arguments} (hparsed : parseIp args p = .ok h) :
    h.payload < 2 ^ 17 := by
  rcases parseIp_ok hparsed with ⟨-, -, rfl⟩ | ⟨-, -, -, hpayload⟩
  · have hopt := p.ipoptlen.toNat_lt
    simp only
    omega
  · exact hpayload

end Lengths

section Extensions
variable (p : Packet)

/-- The offsets of the extension headers that the loop of `handle_ip` looks at. -/
def extensionOffsets : Nat → UInt16 → UInt8 → List UInt16
  | 0, _, _ => []
  | fuel + 1, off, protocol =>
    let nxt := p.mem off.toNat
    off ::
      if isLowerLayer nxt && !isUpperLayer protocol then
        extensionOffsets fuel (off + (8 + (p.mem (off.toNat + 1)).toUInt16)) nxt
      else []

def Packet.extensions : List UInt16 :=
  if isUpperLayer (p.mem 6) then [] else extensionOffsets p 65537 40 (p.mem 6)

variable {p}

theorem extension_next {off : UInt16} (hmtu : p.length ≤ getMtu.toNat) (hoff : off.toNat < p.length) :
    (off + (8 + (p.mem (off.toNat + 1)).toUInt16)).toNat =
      off.toNat + 8 + (p.mem (off.toNat + 1)).toNat := by
  have hlength : getMtu.toNat = 10000 := rfl
  have hbyte := (p.mem (off.toNat + 1)).toNat_lt
  simp only [UInt16.toNat_add, UInt8.toNat_toUInt16, UInt16.reduceToNat]
  omega

/-- A header that is skipped has its length byte inside when the next one begins inside. -/
theorem below_extensionReads {fuel : Nat} {off : UInt16} {protocol : UInt8}
    (hmtu : p.length ≤ getMtu.toNat) (hfuel : p.length + 8 ≤ off.toNat + 8 * fuel) :
    Below (extensionReads p fuel off protocol) p.length ↔
      ∀ o ∈ extensionOffsets p fuel off protocol, o.toNat < p.length := by
  induction fuel generalizing off protocol with
  | zero => simp [extensionReads, extensionOffsets]
  | succ fuel ih =>
    simp only [extensionReads, extensionOffsets, below_cons, List.forall_mem_cons,
      Range.below_iff Nat.one_pos, Nat.add_one_le_iff]
    apply and_congr_right
    intro hoff
    split
    next hskip =>
      have hnext := extension_next hmtu hoff
      have hrest : p.length + 8 ≤
          (off + (8 + (p.mem (off.toNat + 1)).toUInt16)).toNat + 8 * fuel := by omega
      rw [below_cons, Range.below_iff Nat.one_pos, ih hrest, and_iff_right_iff_imp]
      intro hinside
      obtain ⟨fuel, rfl⟩ : ∃ n, fuel = n + 1 := ⟨fuel - 1, by omega⟩
      have hfirst := hinside _ List.mem_cons_self
      omega
    next => simp

theorem below_ip4Reads (args : Arguments) (p : Packet) : Below (ip4Reads args p) p.length := by
  unfold ip4Reads
  split
  · exact below_nil
  next hlong =>
    refine Below.mono (n := 20) ?_ (Nat.not_lt.mp hlong)
    split
    · decide
    split
    · decide
    split
    · decide
    · decide

theorem below_ip6Reads (hmtu : p.length ≤ getMtu.toNat) : Below (ip6Reads p) p.length ↔
    (40 ≤ p.length → ∀ o ∈ p.extensions, o.toNat < p.length) := by
  unfold ip6Reads Packet.extensions
  split
  next hshort => simp [Nat.not_le.mpr hshort]
  next hlong =>
    have hreads : Below [⟨6, 1⟩] p.length := Below.mono (n := 40) (by decide) (Nat.not_lt.mp hlong)
    have haddr : Below [⟨8, 16⟩, ⟨24, 16⟩] p.length :=
      Below.mono (n := 40) (by decide) (Nat.not_lt.mp hlong)
    rw [below_append, below_append, and_iff_right hreads, and_iff_left haddr]
    simp only [Nat.not_lt.mp hlong, forall_const]
    split
    · simp
    · apply below_extensionReads hmtu
      have hlength : getMtu.toNat = 10000 := rfl
      simp only [UInt16.reduceToNat]
      omega

theorem below_parseReads {args : Arguments} (hlow : 1 ≤ p.length) (hmtu : p.length ≤ getMtu.toNat) :
    Below (parseReads args p) p.length ↔
      (p.versionNibble = 6 → 40 ≤ p.length → ∀ o ∈ p.extensions, o.toNat < p.length) := by
  have hfirst : Range.Below ⟨0, 1⟩ p.length := (Range.below_iff Nat.one_pos).mpr hlow
  rw [parseReads, below_cons, and_iff_right hfirst]
  split
  next hv4 =>
    apply iff_of_true (below_ip4Reads args p)
    intro hv6
    exact absurd (hv4.symm.trans hv6) (by decide)
  next =>
    split
    next hv6 => simp only [hv6, forall_const, below_ip6Reads hmtu]
    next hv6 => simp [hv6]

end Extensions

section Payload
variable {env : Env} {args : Arguments} {p : Packet} {h : IpHdr} {ctx : Context}

theorem IpHdr.upper_iff (h : IpHdr) : isUpperLayer h.protocol = true ↔
    h.isIcmp = true ∨ h.protocol = ipprotoUdp ∨ h.protocol = ipprotoTcp := by
  simp only [isUpperLayer, IpHdr.isIcmp, List.mem_cons, List.not_mem_nil, decide_eq_true_eq,
    Bool.or_eq_true]
  grind

theorem IpHdr.minLength_upper (hupper : isUpperLayer h.protocol = true) :
    8 ≤ h.minLength.toNat := by
  unfold IpHdr.minLength
  split
  · decide
  next hicmp =>
    split
    · decide
    next hudp =>
      split
      · decide
      next htcp => exact absurd (h.upper_iff.mp hupper) (by simp [hicmp, hudp, htcp])

theorem IpHdr.minLength_tcp (htcp : h.protocol = ipprotoTcp) : h.minLength.toNat = 20 := by
  rw [IpHdr.minLength, IpHdr.isIcmp_tcp htcp, if_neg Bool.false_ne_true,
    if_neg (IpHdr.not_udp htcp), if_pos htcp]
  rfl

theorem below_portReads (hwhole : h.tooShort p = false)
    (hroom : h.payload ≤ p.length → h.payload + h.minLength.toNat ≤ p.length) :
    Below (portReads p h) p.length ↔ (isUpperLayer h.protocol = true → h.payload ≤ p.length) := by
  rw [portReads, hwhole, if_neg Bool.false_ne_true, h.upper_iff]
  split
  next hicmp =>
    have hmin := h.minLength_upper (h.upper_iff.mpr (.inl hicmp))
    simp [hicmp, Range.below_iff]
    omega
  next hicmp =>
    split
    next hudp =>
      have hmin := h.minLength_upper (h.upper_iff.mpr (.inr (.inl hudp)))
      simp [hudp, Range.below_iff]
      omega
    next hudp =>
      split
      next htcp =>
        have hmin := h.minLength_tcp htcp
        simp [htcp, Range.below_iff]
        omega
      next htcp => simp [hicmp, hudp, htcp]

theorem below_limitReads {sessions maxsessions : Int}
    (hroom : isUpperLayer h.protocol = true → h.payload + h.minLength.toNat ≤ p.length) :
    Below (limitReads h sessions maxsessions) p.length := by
  unfold limitReads
  split
  next hlimit =>
    have hupper := h.upper_iff.mpr (.inr (.inl hlimit.2))
    have hmin := IpHdr.minLength_upper hupper
    have hinside := hroom hupper
    simp [Range.below_iff]
    omega
  next => exact below_nil

def NgSession.flow? : NgSession → Option Flow
  | .icmp _ _ => none
  | .udp s _ => some s.toFlow
  | .tcp s _ _ => some s.toFlow

/-- The words of the payload that `get_uid_from_session` compares with the ports of the session
lie inside the packet. -/
def Flow.PortsFit (p : Packet) (version : IpVersion) (payload : Nat) (flow : Flow) : Prop :=
  flow.version = version → payload + 2 ≤ p.length ∧
    (flow.source = p.be16 payload → payload + 4 ≤ p.length)

theorem Flow.portsFit_of_room {version : IpVersion} {payload : Nat} {flow : Flow}
    (hroom : payload + 4 ≤ p.length) : flow.PortsFit p version payload :=
  fun _ => ⟨by omega, fun _ => hroom⟩

theorem Flow.below_portsFit {version : IpVersion} {payload : Nat} {flow : Flow} :
    Below (if flow.version = version then
        ⟨payload, 2⟩ :: if flow.source = p.be16 payload then [⟨payload + 2, 2⟩] else []
      else []) p.length ↔ flow.PortsFit p version payload := by
  unfold Flow.PortsFit
  split
  next hversion =>
    rw [below_cons, Range.below_iff Nat.two_pos]
    simp only [hversion, forall_const]
    apply and_congr_right
    intro _
    split
    next hsource => simp [hsource, Range.below_iff]
    next hsource => simp [hsource]
  next hversion => simp [hversion]

theorem NgSession.isIcmp_flow {s : NgSession} {flow : Flow} {ends : Endpoints}
    (hflow : s.flow? = some flow) : s.isIcmp ends = false := by
  cases s with
  | icmp s sock => exact absurd hflow nofun
  | udp s sock => rfl
  | tcp s sock events => rfl

theorem NgSession.matchesUid_flow {s : NgSession} {flow : Flow} {version : IpVersion} {payload : Nat}
    (hflow : s.flow? = some flow) :
    s.matchesUid p version payload = decide (flow = p.flow payload version) := by
  cases s with
  | icmp s sock => exact absurd hflow nofun
  | udp s sock =>
    obtain rfl := Option.some.inj hflow
    rfl
  | tcp s sock events =>
    obtain rfl := Option.some.inj hflow
    rfl

theorem NgSession.matchesUid_icmp {s : NgSession} {version : IpVersion} {payload : Nat}
    (hflow : s.flow? = none) :
    s.matchesUid p version payload = s.isIcmp (p.flow payload version).toEndpoints := by
  cases s with
  | icmp s sock => rfl
  | udp s sock => exact absurd hflow nofun
  | tcp s sock events => exact absurd hflow nofun

theorem below_uidReads_cons {version : IpVersion} {payload : Nat} {cur : NgSession}
    {rest : List NgSession} : Below (uidReads p version payload (cur :: rest)) p.length ↔
      (∀ flow, cur.flow? = some flow → flow.PortsFit p version payload) ∧
        (cur.matchesUid p version payload = false → Below (uidReads p version payload rest) p.length) := by
  simp only [uidReads, below_append]
  refine and_congr ?_ ?_
  · cases cur with
    | icmp s sock => simp [NgSession.flow?]
    | udp s sock => simp only [Flow.below_portsFit, NgSession.flow?, Option.some.injEq, forall_eq']
    | tcp s sock events =>
      simp only [Flow.below_portsFit, NgSession.flow?, Option.some.injEq, forall_eq']
  · split
    next hmatch => simp [hmatch]
    next hmatch => simp [hmatch]

/-- The entry that is found has the ports of the packet, so that both words lie inside and the
entries behind it make no difference. -/
theorem below_uidReads_iff {version : IpVersion} {payload : Nat} {list : List NgSession} :
    Below (uidReads p version payload list) p.length ↔
      ∀ s ∈ list.takeWhile fun s => !s.isIcmp (p.flow payload version).toEndpoints,
        ∀ flow, s.flow? = some flow → flow.PortsFit p version payload := by
  induction list with
  | nil => simp [uidReads]
  | cons cur rest ih =>
    rw [below_uidReads_cons, ih]
    cases hflow : cur.flow? with
    | none =>
      rw [NgSession.matchesUid_icmp hflow]
      cases hfound : cur.isIcmp (p.flow payload version).toEndpoints with
      | true => simp [hfound]
      | false => simp [hfound, hflow]
    | some flow =>
      simp only [List.takeWhile_cons, NgSession.isIcmp_flow hflow, Bool.not_false, if_true,
        List.forall_mem_cons, hflow, Option.some.injEq, forall_eq', NgSession.matchesUid_flow hflow,
        decide_eq_false_iff_not]
      refine and_congr_right fun hports => ⟨?_, fun hrest _ => hrest⟩
      intro hrest
      by_cases hfound : flow = p.flow payload version
      · subst hfound
        exact fun _ _ _ _ => Flow.portsFit_of_room ((hports rfl).2 rfl)
      · exact hrest hfound

theorem below_uidReads {version : IpVersion} {payload : Nat} {list : List NgSession}
    (hroom : payload + 4 ≤ p.length) : Below (uidReads p version payload list) p.length :=
  below_uidReads_iff.mpr fun _ _ _ _ => Flow.portsFit_of_room hroom

/-- The option has its length byte and what `handle_tcp` takes from it inside the packet. -/
structure Packet.OptionFits (p : Packet) (options : Nat) : Prop where
  len : options + 1 < p.length
  mss : p.mem options = 2 → p.mem (options + 1) = 4 → options + 4 ≤ p.length
  ws : p.mem options = 3 → p.mem (options + 1) = 3 → options + 3 ≤ p.length

theorem below_optionReads {options : Nat} :
    Below (optionReads p options) p.length ↔ p.OptionFits options := by
  rw [optionReads, below_append, below_cons, below_cons, Range.below_iff Nat.one_pos,
    Range.below_iff Nat.one_pos]
  constructor
  · rintro ⟨⟨-, hlen, -⟩, htaken⟩
    refine ⟨hlen, ?_, ?_⟩
    · intro hkind hfour
      rw [if_pos ⟨hkind, hfour⟩, below_cons, Range.below_iff Nat.two_pos] at htaken
      exact htaken.1
    · intro hkind hthree
      have hmss : ¬ (p.mem options = 2 ∧ p.mem (options + 1) = 4) := by
        rw [hkind]
        intro h
        exact absurd h.1 (by decide)
      rw [if_neg hmss, if_pos ⟨hkind, hthree⟩, below_cons, Range.below_iff Nat.one_pos] at htaken
      exact htaken.1
  · rintro ⟨hlen, hmss, hws⟩
    refine ⟨⟨by omega, hlen, below_nil⟩, ?_⟩
    split
    next htake =>
      rw [below_cons, Range.below_iff Nat.two_pos]
      exact ⟨hmss htake.1 htake.2, below_nil⟩
    next =>
      split
      next htake =>
        rw [below_cons, Range.below_iff Nat.one_pos]
        exact ⟨hws htake.1 htake.2, below_nil⟩
      next => exact below_nil

theorem below_slice {i n : Nat} (hn : n = p.length - i) : Range.Below ⟨i, n⟩ p.length := by
  subst hn
  intro k hk
  simp only at hk ⊢
  omega

theorem below_tcpSlice (hmtu : p.length ≤ getMtu.toNat)
    (hdata : p.tcpData h.payload ≤ p.length) : (tcpSlice p h).Below p.length := by
  have hlength : getMtu.toNat = 10000 := rfl
  apply below_slice
  rw [Packet.datalen, UInt64.toNat_toUInt16, Packet.sizeFrom_toNat hmtu hdata]
  omega

theorem below_sniReads (hmtu : p.length ≤ getMtu.toNat)
    (hdata : h.protocol = ipprotoTcp → p.tcpData h.payload ≤ p.length) :
    Below (sniReads p h) p.length := by
  unfold sniReads
  split
  next htcp =>
    have hbehind := hdata htcp
    rw [below_cons, below_cons, Range.below_iff Nat.one_pos]
    refine ⟨?_, below_tcpSlice hmtu hbehind, below_nil⟩
    simp only [Packet.tcpData] at hbehind
    omega
  next => exact below_nil

theorem below_tcpReads {list : List NgSession} (hmtu : p.length ≤ getMtu.toNat)
    (hdata : p.tcpData h.payload ≤ p.length) : Below (tcpReads p h list) p.length ↔
      (decodesOptions p h list = true →
        ∀ o ∈ optionPointers p (h.payload + 20) (p.tcphdr h.payload).tcpoptlen.toNat,
          p.OptionFits o) := by
  have hheader : h.payload + 16 ≤ p.length := by
    simp only [Packet.tcpData] at hdata
    omega
  rw [tcpReads, below_append, below_cons, below_cons, Range.below_iff (by decide)]
  rw [and_iff_right ⟨hheader, below_tcpSlice hmtu hdata, below_nil⟩]
  split
  next hdecodes =>
    simp only [hdecodes, forall_const, below_flatMap, below_optionReads]
  next hdecodes => simp [hdecodes]

theorem below_icmpReads (hmtu : p.length ≤ getMtu.toNat) (hroom : h.payload + 8 ≤ p.length) :
    Below (icmpReads p h) p.length := by
  have hslice : (icmpSlice p h).Below p.length :=
    below_slice (Packet.sizeFrom_toNat hmtu (by omega))
  rw [icmpReads, below_append, below_cons, below_cons, below_cons, Range.below_iff Nat.one_pos,
    Range.below_iff Nat.two_pos]
  refine ⟨⟨by omega, by omega, hslice, below_nil⟩, ?_⟩
  split
  · exact Below.mono (n := 8) (by decide) (by omega)
  · exact below_nil

theorem below_udpReads (hmtu : p.length ≤ getMtu.toNat) (hroom : h.payload + 8 ≤ p.length) :
    Below [⟨h.payload, 2⟩, ⟨h.payload + 2, 2⟩, udpSlice p h] p.length := by
  have hslice : (udpSlice p h).Below p.length := below_slice (Packet.sizeFrom_toNat hmtu hroom)
  rw [below_cons, below_cons, below_cons, Range.below_iff Nat.two_pos, Range.below_iff Nat.two_pos]
  exact ⟨by omega, by omega, hslice, below_nil⟩

/-- Whatever the verdict, a TCP segment is looked at in the same places. -/
theorem handlerReads_tcp (htcp : h.protocol = ipprotoTcp) :
    handlerReads env args p h ctx = tcpReads p h ctx.ngSession := by
  have hudp : ¬ h.protocol = ipprotoUdp := IpHdr.not_udp htcp
  rw [handlerReads, IpHdr.isIcmp_tcp htcp, if_neg hudp, if_pos htcp]
  split
  · rfl
  · rfl

theorem below_handlerReads (hmtu : p.length ≤ getMtu.toNat) (htcp : h.protocol ≠ ipprotoTcp)
    (hroom : isUpperLayer h.protocol = true → h.payload + h.minLength.toNat ≤ p.length) :
    Below (handlerReads env args p h ctx) p.length := by
  have height (hupper : isUpperLayer h.protocol = true) : h.payload + 8 ≤ p.length := by
    have hmin := IpHdr.minLength_upper hupper
    have hinside := hroom hupper
    omega
  unfold handlerReads
  split
  · split
    next hicmp => exact below_icmpReads hmtu (height (h.upper_iff.mpr (.inl hicmp)))
    next =>
      split
      next hudp => exact below_udpReads hmtu (height (h.upper_iff.mpr (.inr (.inl hudp))))
      next => exact below_nil
  · split
    next hudp =>
      have hports := below_udpReads hmtu (height (h.upper_iff.mpr (.inr (.inl hudp))))
      simp only [below_cons] at hports ⊢
      exact ⟨hports.1, hports.2.1, below_nil⟩
    next => exact below_nil

end Payload

section Dropped
variable {env : Env} {args : Arguments} {p : Packet} {h : IpHdr} {through : Bool} {uid : Int}
  {sessions maxsessions : Int} {ctx ctx' : Context}

theorem IcmpHandled.out (hhandled : IcmpHandled env args p h.version h.payload uid ctx ctx') :
    ∃ os, ctx'.out = ctx.out ++ os := by
  cases hhandled with
  | ignored => exact ⟨[], (List.append_nil _).symm⟩
  | _ => exact ⟨_, rfl⟩

theorem UdpHandled.out (hhandled : UdpHandled env args p h.version h.payload uid ctx ctx') :
    ∃ os, ctx'.out = ctx.out ++ os := by
  cases hhandled with
  | ignored => exact ⟨[], (List.append_nil _).symm⟩
  | _ => exact ⟨_, rfl⟩

theorem TcpHandled.out
    (hhandled : TcpHandled env args p h.version h.payload uid through ctx ctx') :
    ∃ os, ctx'.out = ctx.out ++ os := by
  cases hhandled with
  | urgent => exact ⟨[], (List.append_nil _).symm⟩
  | _ => exact ⟨_, rfl⟩

theorem PacketHandled.out (hhandled : PacketHandled env args p h through uid ctx ctx') :
    ∃ os, ctx'.out = ctx.out ++ os := by
  cases hhandled with
  | icmp _ _ hhandled => exact hhandled.out
  | udp _ _ hhandled => exact hhandled.out
  | tcp _ hhandled => exact hhandled.out
  | blocked => exact ⟨[], (List.append_nil _).symm⟩
  | other => exact ⟨[], (List.append_nil _).symm⟩

theorem Context.Asks.length_le (h : ctx.Asks ctx') : ctx.out.length ≤ ctx'.out.length := by
  obtain ⟨us, rfl, -⟩ := h
  simp

theorem checkAllowedPacket_calls (env : Env) (p : Packet) (h : IpHdr) (uid : Int)
    (name : List UInt8) (ctx : Context) :
    ctx.out.length < (checkAllowedPacket env p h uid name ctx).2.2.out.length := by
  simp only [checkAllowedPacket]
  by_cases hquic : h.protocol = ipprotoUdp ∧ (h.query p).dport = 443 ∧ uid > 0
  · rw [if_pos hquic]
    split
    · simp [Context.emit]
    split
    · simp [Context.emit]
    · simp [Context.emit]
  · rw [if_neg hquic]
    simp only [hquic, decide_false, Bool.false_and, Bool.false_eq_true, if_false]
    split
    · simp [Context.emit]
    · simp [Context.emit]

/-- A packet that gets past the tests is asked about. -/
theorem judgePacket_calls (env : Env) (p : Packet) (h : IpHdr) (ctx : Context) :
    ctx.out.length < (judgePacket env p h ctx).2.2.2.out.length :=
  Nat.lt_of_le_of_lt ((packetUid_asks env p h ctx).trans (serverName_asks p h _ _)).length_le
    (checkAllowedPacket_calls env p h _ _ _)

theorem Judged.handleIp_ne (hjudged : Judged args p sessions maxsessions ctx.ngSession h) :
    handleIp env args p sessions maxsessions ctx ≠ ctx := by
  intro hsame
  have hhandled : PacketHandled env args p h _ _ _ (handlePacket env args p h ctx) :=
    handlePacket_handled
  obtain ⟨os, hout⟩ := hhandled.out
  have hlogged := (hjudged.handleIp_asks env).length_le
  have hasked := judgePacket_calls env p h ctx
  rw [hsame, hout, List.length_append] at hlogged
  omega

theorem handleIp_dropped (hhang : parseIp args p ≠ .hang)
    (hnot : ∀ h, ¬ Judged args p sessions maxsessions ctx.ngSession h) :
    handleIp env args p sessions maxsessions ctx = ctx := by
  simp only [handleIp]
  split
  · rfl
  next hhangs => exact absurd hhangs hhang
  next h hparsed =>
    split
    · rfl
    next hwhole =>
      split
      · rfl
      next hadmitted =>
        exact (hnot h ⟨hparsed, by simpa using hwhole, by simpa using hadmitted⟩).elim

theorem parseIp4_ne_hang : parseIp4 args p ≠ .hang := by
  unfold parseIp4
  split
  · nofun
  split
  · nofun
  split
  · nofun
  split
  · nofun
  · nofun

end Dropped

section Bounded
variable {env : Env} {args : Arguments} {p : Packet} {sessions maxsessions : Int} {ctx : Context}

/-- A length field of the IPv4 header, of the extension headers or of the TCP header that does
not agree with the length of the packet. -/
inductive Packet.Malformed (args : Arguments) (p : Packet) : Prop
  | ihl (hversion : p.versionNibble = 4) (hihl : p.ihl < 5 ∨ p.length < 4 * p.ihl)
  | extensions (hversion : p.versionNibble = 6) (hnext : ∃ o ∈ p.extensions, p.length ≤ o.toNat)
  | doff {h : IpHdr} (hparsed : parseIp args p = .ok h) (htcp : h.protocol = ipprotoTcp)
      (hdoff : p.doff h.payload < 5 ∨ p.length < h.payload + 4 * p.doff h.payload)

/-- Every read is inside the packet, and a malformed one has no effect. -/
structure Packet.Bounded (env : Env) (args : Arguments) (p : Packet) (sessions maxsessions : Int)
    (ctx : Context) : Prop where
  inside : Below (handleIpReads env args p sessions maxsessions ctx) p.length
  dropped : p.Malformed args → handleIp env args p sessions maxsessions ctx = ctx

/-- What the headers of a packet must say, with the tests of `handle_ip` that a packet meets
before a header is used. -/
structure Packet.Fits (args : Arguments) (p : Packet) (sessions maxsessions : Int)
    (list : List NgSession) : Prop where
  extensions : p.versionNibble = 6 → 40 ≤ p.length → ∀ o ∈ p.extensions, o.toNat < p.length
  payload : ∀ h, parseIp args p = .ok h → h.tooShort p = false →
    isUpperLayer h.protocol = true → h.payload ≤ p.length
  ports : ∀ h, Judged args p sessions maxsessions list h → isUpperLayer h.protocol = false →
    ∀ s ∈ list.takeWhile fun s => !s.isIcmp (p.flow h.payload h.version).toEndpoints,
      ∀ flow, s.flow? = some flow → flow.PortsFit p h.version h.payload
  ihl : ∀ h, Judged args p sessions maxsessions list h → h.version = .v4 →
    5 ≤ p.ihl ∧ 4 * p.ihl ≤ p.length
  doff : ∀ h, Judged args p sessions maxsessions list h → h.protocol = ipprotoTcp →
    5 ≤ p.doff h.payload ∧ h.payload + 4 * p.doff h.payload ≤ p.length
  options : ∀ h, Judged args p sessions maxsessions list h → h.protocol = ipprotoTcp →
    decodesOptions p h list = true →
      ∀ o ∈ optionPointers p (h.payload + 20) (p.tcphdr h.payload).tcpoptlen.toNat, p.OptionFits o

theorem Packet.Fits.not_malformed (hfits : p.Fits args sessions maxsessions ctx.ngSession)
    (hmalformed : p.Malformed args) : handleIp env args p sessions maxsessions ctx = ctx := by
  cases hmalformed with
  | ihl hversion hihl =>
    have hparse : parseIp args p = parseIp4 args p := if_pos hversion
    apply handleIp_dropped (hparse ▸ parseIp4_ne_hang)
    intro h hjudged
    rcases parseIp_ok hjudged.parsed with ⟨-, -, hh⟩ | ⟨hv6, -⟩
    · obtain ⟨hfive, hlength⟩ := hfits.ihl h hjudged (by rw [hh])
      omega
    · exact absurd (hversion.symm.trans hv6) (by decide)
  | extensions hversion hnext =>
    obtain ⟨o, ho, hbehind⟩ := hnext
    by_cases hlong : 40 ≤ p.length
    · exact absurd (hfits.extensions hversion hlong o ho) (Nat.not_lt.mpr hbehind)
    · have hdrop : parseIp args p = .drop := by
        have hv4 : ¬ p.versionNibble = 4 := by
          rw [hversion]
          decide
        rw [parseIp, if_neg hv4, if_pos hversion, parseIp6, if_pos (Nat.not_le.mp hlong)]
      apply handleIp_dropped (hdrop ▸ nofun)
      intro h hjudged
      exact absurd (hdrop.symm.trans hjudged.parsed) nofun
  | doff hparsed htcp hdoff =>
    apply handleIp_dropped (hparsed ▸ nofun)
    intro h hjudged
    obtain rfl := Parsed.ok.inj (hparsed.symm.trans hjudged.parsed)
    obtain ⟨hfive, hlength⟩ := hfits.doff _ hjudged htcp
    omega

theorem below_handleIpReads {n : Nat} :
    Below (handleIpReads env args p sessions maxsessions ctx) n ↔
      Below (parseReads args p) n ∧
      (∀ h, parseIp args p = .ok h → h.tooShort p = false →
        Below (portReads p h) n ∧ Below (limitReads h sessions maxsessions) n) ∧
      ∀ h, Judged args p sessions maxsessions ctx.ngSession h →
        Below (uidReads p h.version h.payload ctx.ngSession) n ∧ Below (sniReads p h) n ∧
          Below (handlerReads env args p h ctx) n := by
  rw [handleIpReads, below_append]
  apply and_congr_right
  intro _
  cases hparsed : parseIp args p with
  | drop => simpa using fun h hjudged => absurd hjudged.parsed (by simp [hparsed])
  | hang => simpa using fun h hjudged => absurd hjudged.parsed (by simp [hparsed])
  | ok h =>
    have hjudged (g : IpHdr) : Judged args p sessions maxsessions ctx.ngSession g ↔
        g = h ∧ h.tooShort p = false ∧
          overLimit p h sessions maxsessions ctx.ngSession = false := by
      constructor
      · intro hjudged
        obtain rfl := Parsed.ok.inj (hparsed.symm.trans hjudged.parsed)
        exact ⟨rfl, hjudged.whole, hjudged.admitted⟩
      · rintro ⟨rfl, hwhole, hadmitted⟩
        exact ⟨hparsed, hwhole, hadmitted⟩
    simp only [hjudged, Parsed.ok.injEq, below_append]
    cases hwhole : h.tooShort p with
    | true => simp [hwhole, portReads]
    | false =>
      cases hadmitted : overLimit p h sessions maxsessions ctx.ngSession with
      | true => simp [hwhole]
      | false => simp [hwhole, and_assoc]

theorem packet_bounded_iff (hlow : 1 ≤ p.length) (hmtu : p.length ≤ getMtu.toNat) :
    p.Bounded env args sessions maxsessions ctx ↔
      p.Fits args sessions maxsessions ctx.ngSession := by
  have hroom {h : IpHdr} (hparsed : parseIp args p = .ok h) (hwhole : h.tooShort p = false)
      (hpayload : h.payload ≤ p.length) : h.payload + h.minLength.toNat ≤ p.length :=
    (IpHdr.tooShort_iff hmtu (parseIp_payload hparsed)).mp hwhole hpayload
  have hdata {h : IpHdr} (hdoff : 5 ≤ p.doff h.payload ∧
      h.payload + 4 * p.doff h.payload ≤ p.length) : p.tcpData h.payload ≤ p.length :=
    Packet.tcpData_eq hdoff.1 ▸ hdoff.2
  constructor
  · rintro ⟨hinside, hdropped⟩
    rw [below_handleIpReads, below_parseReads hlow hmtu] at hinside
    obtain ⟨hextensions, hports, hjudged⟩ := hinside
    have hdoff (h : IpHdr) (hj : Judged args p sessions maxsessions ctx.ngSession h)
        (htcp : h.protocol = ipprotoTcp) :
        5 ≤ p.doff h.payload ∧ h.payload + 4 * p.doff h.payload ≤ p.length := by
      by_contra hbad
      exact hj.handleIp_ne (hdropped (.doff hj.parsed htcp (by omega)))
    refine ⟨hextensions, ?_, ?_, ?_,
      hdoff, ?_⟩
    · intro h hparsed hwhole
      exact (below_portReads hwhole (hroom hparsed hwhole)).mp (hports h hparsed hwhole).1
    · intro h hj _
      exact below_uidReads_iff.mp (hjudged h hj).1
    · intro h hj hversion
      have hv4 : p.versionNibble = 4 := by
        rcases parseIp_ok hj.parsed with ⟨hv4, -⟩ | ⟨-, -, hv6, -⟩
        · exact hv4
        · exact absurd (hversion.symm.trans hv6) (by decide)
      by_contra hbad
      exact hj.handleIp_ne (hdropped (.ihl hv4 (by omega)))
    · intro h hj htcp
      have hreads := (hjudged h hj).2.2
      rw [handlerReads_tcp htcp, below_tcpReads hmtu (hdata (hdoff h hj htcp))] at hreads
      exact hreads
  · intro hfits
    have hupper {h : IpHdr} (hparsed : parseIp args p = .ok h) (hwhole : h.tooShort p = false)
        (hupper : isUpperLayer h.protocol = true) : h.payload + h.minLength.toNat ≤ p.length :=
      hroom hparsed hwhole (hfits.payload h hparsed hwhole hupper)
    refine ⟨?_, hfits.not_malformed⟩
    rw [below_handleIpReads, below_parseReads hlow hmtu]
    refine ⟨hfits.extensions, fun h hparsed hwhole => ⟨?_, ?_⟩, fun h hj => ⟨?_, ?_, ?_⟩⟩
    · rw [below_portReads hwhole (hroom hparsed hwhole)]
      exact hfits.payload h hparsed hwhole
    · exact below_limitReads (hupper hparsed hwhole)
    · cases hprotocol : isUpperLayer h.protocol with
      | true =>
        have hmin := IpHdr.minLength_upper hprotocol
        have hinside := hupper hj.parsed hj.whole hprotocol
        exact below_uidReads (by omega)
      | false => exact below_uidReads_iff.mpr (hfits.ports h hj hprotocol)
    · exact below_sniReads hmtu fun htcp => hdata (hfits.doff h hj htcp)
    · by_cases htcp : h.protocol = ipprotoTcp
      · rw [handlerReads_tcp htcp, below_tcpReads hmtu (hdata (hfits.doff h hj htcp))]
        exact hfits.options h hj htcp
      · exact below_handlerReads hmtu htcp (hupper hj.parsed hj.whole)

/-- A SYN whose only option is the MSS. -/
def Packet.sampleMss : Packet :=
  .sample 6 [156, 64, 0, 80, 0, 0, 0, 100, 0, 0, 0, 0, 0x60, 2, 3, 232, 0, 0, 0, 0, 2, 4, 5, 180]

theorem packet_bounded_sample :
    Packet.sampleMss.Bounded Env.calm .direct 0 10 ⟨[], []⟩ := by
  have hparsed {h : IpHdr} (h' : parseIp .direct .sampleMss = .ok h) : h = ⟨.v4, 6, 20⟩ :=
    (Parsed.ok.inj h').symm
  have hpointers : optionPointers .sampleMss 40 4 = [40] := by
    have hend : optionPointers .sampleMss 44 0 = [] := by
      rw [optionPointers]
      rfl
    rw [optionPointers]
    exact congrArg (List.cons 40) hend
  refine (packet_bounded_iff (by decide) (by decide)).mpr ⟨?_, ?_, ?_, ?_, ?_, ?_⟩
  · intro hversion
    exact absurd hversion (by decide)
  · rintro h hjudged - -
    rw [hparsed hjudged]
    decide
  · intro _ _ _ _ hs
    exact absurd hs List.not_mem_nil
  · exact fun _ _ _ => by decide
  · rintro h hjudged -
    rw [hparsed hjudged.parsed]
    decide
  · rintro h hjudged - - o ho
    rw [hparsed hjudged.parsed] at ho
    obtain rfl := List.mem_singleton.mp (hpointers ▸ ho)
    exact ⟨by decide, fun _ _ => by decide, fun _ _ => by decide⟩

/-- An IPv4 header of four words. -/
def Packet.sampleShortHeader : Packet :=
  .ofBytes [0x44, 0, 0, 28, 0, 0, 0, 0, 64, 1, 0, 0, 10, 0, 0, 2, 93, 184, 216, 34,
    8, 0, 0, 0, 0, 7, 0, 1]

/-- The payload pointer is 272 in a packet of 28 bytes, and no test sees it. -/
theorem not_packet_bounded : ¬ ∀ env args p sessions maxsessions ctx,
    1 ≤ p.length → p.length ≤ getMtu.toNat →
      Packet.Bounded env args p sessions maxsessions ctx := by
  intro hall
  obtain ⟨hinside, -⟩ := hall .calm .direct .sampleShortHeader 0 10 ⟨[], []⟩ (by decide) (by decide)
  obtain ⟨-, hports, -⟩ := below_handleIpReads.mp hinside
  have hports := (hports ⟨.v4, 1, 272⟩ rfl (by decide)).1
  exact absurd hports (by decide)

end Bounded

end NetGuard.Engine
