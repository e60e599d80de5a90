import Mathlib.Data.Nat.Bitwise
import NetGuard.Bounds.Packet

/-! # Extension headers and fragments

Two standards against the IP headers as `handle_ip` reads them: the chain of IPv6
extension headers, which its loop never gets to the end of, and the fragment bits of
IPv4, which it tests in the order of the host.
-/
namespace NetGuard.Engine

section Extensions

/-- An extension header: its type, and its length in units of 8 bytes behind the first 8. -/
structure Extension where
  protocol : UInt8
  len : UInt8
  known : protocol ∈ [0, 43, 60, 135]

def Extension.size (e : Extension) : Nat := 8 * (e.len.toNat + 1)

/-- The headers from the offset `off` on, of which the first one has the type `nxt`. -/
def Packet.HasChain (p : Packet) (upper : UInt8) : Nat → UInt8 → List Extension → Prop
  | _, nxt, [] => nxt = upper
  | off, nxt, e :: exts =>
    nxt = e.protocol ∧ p.mem (off + 1) = e.len ∧ p.HasChain upper (off + e.size) (p.mem off) exts

def chainSize (exts : List Extension) : Nat := (exts.map Extension.size).sum

structure Packet.WellFormed6 (p : Packet) (exts : List Extension) (upper : UInt8) : Prop where
  version : p.versionNibble = 6
  length : p.length = 40 + (p.be16 4).toNat
  chain : p.HasChain upper 40 (p.mem 6) exts
  fits : 40 + chainSize exts ≤ p.length
  upper : upper ∈ [ipprotoTcp, ipprotoUdp, ipprotoIcmpV6]

theorem Extension.isLowerLayer (e : Extension) : isLowerLayer e.protocol = true := by
  obtain ⟨protocol, len, hknown⟩ := e
  simp only [List.mem_cons, List.not_mem_nil, or_false] at hknown
  rcases hknown with rfl | rfl | rfl | rfl <;> rfl

theorem isLowerLayer_not_upper {protocol : UInt8} (hlower : isLowerLayer protocol = true) :
    isUpperLayer protocol = false := by
  simp only [isLowerLayer, decide_eq_true_eq, List.mem_cons, List.not_mem_nil, or_false] at hlower
  rcases hlower with rfl | rfl | rfl | rfl | rfl | rfl | rfl <;> rfl

theorem Packet.WellFormed6.isUpperLayer {p : Packet} {exts : List Extension} {upper : UInt8}
    (hwell : p.WellFormed6 exts upper) : isUpperLayer upper = true := by
  have hupper := hwell.upper
  simp only [List.mem_cons, List.not_mem_nil, or_false] at hupper
  rcases hupper with rfl | rfl | rfl <;> rfl

/-- The loop takes over a type only when it is one of the lower layer. -/
theorem skipExtensions_lower {p : Packet} {fuel : Nat} {off off' : UInt16} {protocol last : UInt8}
    (hlower : isLowerLayer protocol = true)
    (hskip : skipExtensions p fuel off protocol = some (off', last)) :
    isLowerLayer last = true := by
  induction fuel generalizing off protocol with
  | zero => exact absurd hskip nofun
  | succ fuel ih =>
    simp only [skipExtensions] at hskip
    split at hskip
    next hnext =>
      rw [Bool.and_eq_true] at hnext
      exact ih hnext.1 hskip
    next =>
      obtain ⟨-, rfl⟩ := Prod.mk.inj (Option.some.inj hskip)
      exact hlower

theorem parseIp6_lower {p : Packet} {h : IpHdr} (hlower : isLowerLayer (p.mem 6) = true)
    (hparsed : parseIp6 p = .ok h) : h = ⟨.v6, p.mem 6, 40⟩ := by
  simp only [parseIp6, isLowerLayer_not_upper hlower, Bool.false_eq_true, if_false] at hparsed
  split at hparsed
  next => cases hparsed
  next =>
    split at hparsed
    next => cases hparsed
    next off last hskip =>
      have hlast := isLowerLayer_not_upper (skipExtensions_lower hlower hskip)
      rw [if_neg (by simp [hlast])] at hparsed
      exact (Parsed.ok.inj hparsed).symm

theorem parseIp_version6 {args : Arguments} {p : Packet} (hversion : p.versionNibble = 6) :
    parseIp args p = parseIp6 p := by
  have hv4 : ¬ p.versionNibble = 4 := by
    rw [hversion]
    decide
  rw [parseIp, if_neg hv4, if_pos hversion]

/-- The upper protocol and its offset are found exactly when there is nothing to skip. -/
theorem parseIp_wellFormed6_iff {args : Arguments} {p : Packet} {exts : List Extension}
    {upper : UInt8} (hwell : p.WellFormed6 exts upper) :
    parseIp args p = .ok ⟨.v6, upper, 40 + chainSize exts⟩ ↔ exts = [] := by
  rw [parseIp_version6 hwell.version]
  have hchain := hwell.chain
  cases exts with
  | nil =>
    apply iff_of_true _ rfl
    have hlong : ¬ p.length < 40 := Nat.not_lt.mpr hwell.fits
    have hnext : p.mem 6 = upper := hchain
    simp only [parseIp6, if_neg hlong, hnext, hwell.isUpperLayer, if_true]
    rfl
  | cons e exts =>
    apply iff_of_false _ (List.cons_ne_nil e exts)
    intro hparsed
    have hlower : isLowerLayer (p.mem 6) = true := hchain.1 ▸ e.isLowerLayer
    have hfound := congrArg IpHdr.payload (parseIp6_lower hlower hparsed)
    simp only [chainSize, List.map_cons, List.sum_cons, Extension.size] at hfound
    omega

def Packet.plain6 : Packet :=
  .ofBytes ([0x60, 0, 0, 0, 0, 20, 6, 64] ++ List.replicate 32 0 ++
    [156, 64, 0, 80, 0, 0, 0, 100, 0, 0, 0, 0, 0x50, 2, 3, 232, 0, 0, 0, 0])

theorem parseIp_plain6 : parseIp .direct .plain6 = .ok ⟨.v6, ipprotoTcp, 40⟩ := by
  have hwell : Packet.plain6.WellFormed6 [] ipprotoTcp :=
    ⟨by decide, by decide, rfl, by decide, by decide⟩
  exact (parseIp_wellFormed6_iff hwell).mpr rfl

/-- A TCP header behind one empty Hop-by-Hop header. -/
def Packet.hopByHop : Packet :=
  .ofBytes ([0x60, 0, 0, 0, 0, 28, 0, 64] ++ List.replicate 32 0 ++ [6, 0] ++ List.replicate 6 0 ++
    [156, 64, 0, 80, 0, 0, 0, 100, 0, 0, 0, 0, 0x50, 2, 3, 232, 0, 0, 0, 0])

theorem parseIp_hopByHop :
    Packet.hopByHop.WellFormed6 [⟨0, 0, by decide⟩] ipprotoTcp ∧
      parseIp .direct .hopByHop = .ok ⟨.v6, 0, 40⟩ ∧
      parseIp .direct .hopByHop ≠ .ok ⟨.v6, ipprotoTcp, 48⟩ := by
  have hparsed : parseIp .direct .hopByHop = .ok ⟨.v6, 0, 40⟩ := rfl
  refine ⟨⟨by decide, by decide, ⟨by decide, by decide, rfl⟩, by decide, by decide⟩, hparsed, ?_⟩
  rw [hparsed]
  intro heq
  exact absurd (congrArg IpHdr.payload (Parsed.ok.inj heq)) (by decide)

end Extensions

section Fragments

def ipOffmask : UInt16 := 0x1fff

def ipDf : UInt16 := 0x4000

/-- The flags and the fragment offset as the wire has them. -/
def Packet.flagsOffset (p : Packet) : UInt16 := p.be16 6

def Packet.isFragment (p : Packet) : Prop :=
  p.flagsOffset &&& ipMf ≠ 0 ∨ p.flagsOffset &&& ipOffmask ≠ 0

def Packet.ipHdr4 (p : Packet) : IpHdr := ⟨.v4, p.mem 9, 20 + p.ipoptlen.toNat⟩

theorem and_two_pow_ne_zero (x : UInt16) (i : Nat) (hi : 2 ^ i < 65536) :
    x &&& UInt16.ofNat (2 ^ i) ≠ 0 ↔ x.toNat / 2 ^ i % 2 = 1 := by
  have hpow : (UInt16.ofNat (2 ^ i)).toNat = 2 ^ i := UInt16.toNat_ofNat_of_lt hi
  rw [← UInt16.toNat_inj.ne, UInt16.toNat_and, hpow, Nat.and_two_pow,
    Nat.testBit_eq_decide_div_mod_eq]
  by_cases hbit : x.toNat / 2 ^ i % 2 = 1
  · simp [hbit]
  · simp [hbit]

/-- The bit that the fragment test looks at is one of the offset's. -/
theorem fragOff_ipMf (p : Packet) : p.fragOff &&& ipMf ≠ 0 ↔ p.flagsOffset &&& 0x20 ≠ 0 := by
  have hmf : p.fragOff &&& ipMf ≠ 0 ↔ p.fragOff.toNat / 2 ^ 13 % 2 = 1 :=
    and_two_pow_ne_zero p.fragOff 13 (by decide)
  have hbit : p.flagsOffset &&& 0x20 ≠ 0 ↔ p.flagsOffset.toNat / 2 ^ 5 % 2 = 1 :=
    and_two_pow_ne_zero p.flagsOffset 5 (by decide)
  have h6 := (p.mem 6).toNat_lt
  have h7 := (p.mem 7).toNat_lt
  have hoff : p.fragOff.toNat = (p.mem 6).toNat + (p.mem 7).toNat * 256 := by
    simp only [Packet.fragOff, UInt16.toNat_add, UInt16.toNat_mul, UInt8.toNat_toUInt16,
      UInt16.reduceToNat]
    omega
  have hflags : p.flagsOffset.toNat = (p.mem 6).toNat * 256 + (p.mem 7).toNat := by
    simp only [Packet.flagsOffset, Packet.be16, UInt16.toNat_add, UInt16.toNat_mul,
      UInt8.toNat_toUInt16, UInt16.reduceToNat, Nat.reduceAdd]
    omega
  have hhigh : ((p.mem 6).toNat + (p.mem 7).toNat * 256) / 2 ^ 13 = (p.mem 7).toNat / 32 := by
    omega
  have hlow : ((p.mem 6).toNat * 256 + (p.mem 7).toNat) / 2 ^ 5 =
      8 * (p.mem 6).toNat + (p.mem 7).toNat / 32 := by
    omega
  rw [hmf, hbit, hoff, hflags, hhigh, hlow]
  omega

variable {env : Env} {args : Arguments} {p : Packet} {sessions maxsessions : Int} {ctx : Context}

/-- The tests of `handle_ip`, but for the one on fragments, that an IPv4 packet can fail. -/
def Packet.DroppedOtherwise (args : Arguments) (p : Packet) (sessions maxsessions : Int)
    (list : List NgSession) : Prop :=
  p.length < 20 ∨ (p.be16 2).toNat ≠ p.length ∨
    (args.loglevel < androidLogWarn ∧ calcChecksum 0 (p.slice 0 20) = 0) ∨
    p.ipHdr4.tooShort p = true ∨ overLimit p p.ipHdr4 sessions maxsessions list = true

theorem parseIp_version4 (hversion : p.versionNibble = 4) : parseIp args p = parseIp4 args p :=
  if_pos hversion

theorem Judged.hdr4 {list : List NgSession} {h : IpHdr} (hversion : p.versionNibble = 4)
    (hjudged : Judged args p sessions maxsessions list h) : h = p.ipHdr4 :=
  (parseIp4_ok (parseIp_version4 hversion ▸ hjudged.parsed)).2

theorem parseIp4_eq_iff :
    parseIp4 args p = .ok p.ipHdr4 ↔ 20 ≤ p.length ∧ p.fragOff &&& ipMf = 0 ∧
      (p.be16 2).toNat = p.length ∧
      ¬ (args.loglevel < androidLogWarn ∧ calcChecksum 0 (p.slice 0 20) = 0) := by
  unfold parseIp4
  split
  next hshort => simp [Nat.not_le.mpr hshort]
  next hshort =>
    rw [Nat.not_lt] at hshort
    split
    next hfrag => simp [hfrag]
    next hfrag =>
      split
      next htot => simp [htot]
      next htot =>
        split
        next hsum => simp [hsum]
        next hsum => exact iff_of_true rfl ⟨hshort, not_not.mp hfrag, not_not.mp htot, hsum⟩

theorem judged4_iff (hversion : p.versionNibble = 4) {list : List NgSession} :
    Judged args p sessions maxsessions list p.ipHdr4 ↔
      p.flagsOffset &&& 0x20 = 0 ∧ ¬ p.DroppedOtherwise args sessions maxsessions list := by
  have hbit : p.fragOff &&& ipMf = 0 ↔ p.flagsOffset &&& 0x20 = 0 := not_iff_not.mp (fragOff_ipMf p)
  have hparsed : parseIp args p = .ok p.ipHdr4 ↔ _ := parseIp_version4 hversion ▸ parseIp4_eq_iff
  constructor
  · rintro ⟨hok, hwhole, hadmitted⟩
    obtain ⟨hlong, hfrag, htot, hsum⟩ := hparsed.mp hok
    refine ⟨hbit.mp hfrag, ?_⟩
    rintro (hshort | htot' | hsum' | hshort | hover)
    · exact absurd hlong (Nat.not_le.mpr hshort)
    · exact htot' htot
    · exact hsum hsum'
    · exact absurd hshort (by simp [hwhole])
    · exact absurd hover (by simp [hadmitted])
  · rintro ⟨hfrag, hnot⟩
    simp only [Packet.DroppedOtherwise, not_or, Nat.not_lt, not_not, Bool.not_eq_true] at hnot
    obtain ⟨hlong, htot, hsum, hwhole, hadmitted⟩ := hnot
    exact ⟨hparsed.mpr ⟨hlong, hbit.mpr hfrag, htot, hsum⟩, hwhole, hadmitted⟩

theorem handleIp4_unchanged_iff (env : Env) (ctx : Context) (hversion : p.versionNibble = 4) :
    handleIp env args p sessions maxsessions ctx = ctx ↔
      p.flagsOffset &&& 0x20 ≠ 0 ∨ p.DroppedOtherwise args sessions maxsessions ctx.ngSession := by
  rw [← not_iff_not, not_or, not_not, ← judged4_iff hversion]
  constructor
  · intro hchanged
    by_contra hnot
    refine hchanged (handleIp_dropped (parseIp_version4 hversion ▸ parseIp4_ne_hang) ?_)
    intro h hjudged
    exact hnot (hjudged.hdr4 hversion ▸ hjudged)
  · intro hjudged
    exact hjudged.handleIp_ne

/-- What a stack without reassembly owes to fragments and to whole packets. -/
structure FragmentsDropped (env : Env) (args : Arguments) (p : Packet) (sessions maxsessions : Int)
    (ctx : Context) : Prop where
  fragment : p.isFragment → handleIp env args p sessions maxsessions ctx = ctx
  whole : p.flagsOffset = 0 ∨ p.flagsOffset = ipDf → p.fragOff &&& ipMf = 0

theorem fragmentsDropped_iff (env : Env) (ctx : Context) (hversion : p.versionNibble = 4) :
    FragmentsDropped env args p sessions maxsessions ctx ↔
      (p.isFragment → p.flagsOffset &&& 0x20 ≠ 0 ∨
        p.DroppedOtherwise args sessions maxsessions ctx.ngSession) := by
  rw [← handleIp4_unchanged_iff env ctx hversion]
  refine ⟨FragmentsDropped.fragment, fun hfragment => ⟨hfragment, ?_⟩⟩
  intro hwhole
  by_contra hdropped
  rcases hwhole with hzero | hdf
  · exact (fragOff_ipMf p).mp hdropped (by rw [hzero]; rfl)
  · exact (fragOff_ipMf p).mp hdropped (by rw [hdf]; rfl)

/-- A fragment at the offset 256, whose field has the bit, and the first fragment. -/
def Packet.lastFragment : Packet :=
  .ofBytes ([0x45, 0, 0, 28, 0, 0, 0, 32, 64, 17, 0, 0, 10, 0, 0, 2, 93, 184, 216, 34] ++
    [156, 64, 0, 53, 0, 8, 0, 0])

def Packet.firstFragment : Packet :=
  .ofBytes ([0x45, 0, 0, 28, 0, 0, 0x20, 0, 64, 17, 0, 0, 10, 0, 0, 2, 93, 184, 216, 34] ++
    [156, 64, 0, 53, 0, 8, 0, 0])

theorem fragmentsDropped_lastFragment :
    FragmentsDropped .calm .direct .lastFragment 0 409 ⟨[], []⟩ :=
  (fragmentsDropped_iff .calm ⟨[], []⟩ (by decide)).mpr fun _ => .inl (by decide)

theorem not_fragmentsDropped_firstFragment :
    Packet.firstFragment.versionNibble = 4 ∧ Packet.firstFragment.flagsOffset = ipMf ∧
      handleIp .calm .direct .firstFragment 0 409 ⟨[], []⟩ ≠ ⟨[], []⟩ ∧
      ¬ FragmentsDropped .calm .direct .firstFragment 0 409 ⟨[], []⟩ := by
  have hversion : Packet.firstFragment.versionNibble = 4 := by decide
  have hfield : Packet.firstFragment.flagsOffset = ipMf := by decide
  have hjudged : Judged .direct .firstFragment 0 409 [] Packet.firstFragment.ipHdr4 :=
    ⟨rfl, rfl, rfl⟩
  have hchanged : handleIp .calm .direct .firstFragment 0 409 ⟨[], []⟩ ≠ ⟨[], []⟩ :=
    hjudged.handleIp_ne
  refine ⟨hversion, hfield, hchanged, ?_⟩
  intro hdropped
  exact hchanged (hdropped.fragment (.inl (by rw [hfield]; decide)))

end Fragments

end NetGuard.Engine
