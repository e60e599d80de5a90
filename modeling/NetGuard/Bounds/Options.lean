import NetGuard.Bounds.Packet
import NetGuard.Engine.Checksum

/-! # The TCP option area

The loop of `handle_tcp` against the option area that the data offset leaves. It stays inside
the area, and ends, when each option it comes to has room for its length and what is taken from
it, and a length that moves it on. The area itself is empty for an offset of five or less, where
`tcpoptlen` wraps below five.
-/
namespace NetGuard.Engine
open Footprint

variable {p : Packet} {o n : Nat} {mss : UInt16} {ws : UInt8}

section Contained

def TcpHdr.optionArea (h : TcpHdr) : Nat := 4 * h.doff.toNat - 20

/-- The bytes of an area that the loop reads to its end and not further. Also the option behind
which it stops has a second byte, which the loop reads first. -/
inductive OptionsContained : List UInt8 → Prop
  | empty : OptionsContained []
  | last (len : UInt8) (rest : List UInt8) : OptionsContained (0 :: len :: rest)
  | nop {len : UInt8} {rest : List UInt8} (hrest : OptionsContained (len :: rest)) :
      OptionsContained (1 :: len :: rest)
  | option {kind len : UInt8} {rest : List UInt8} (hlast : kind ≠ 0) (hnop : kind ≠ 1)
      (hlen : len ≠ 0) (hmss : kind = 2 → len = 4 → 2 ≤ rest.length)
      (hws : kind = 3 → len = 3 → 1 ≤ rest.length)
      (hrest : OptionsContained ((kind :: len :: rest).drop len.toNat)) :
      OptionsContained (kind :: len :: rest)

/-- The packet as if it ended at the position. -/
def Packet.cut (p : Packet) (stop : Nat) : Packet := { p with length := stop }

/-- What an option hands on to: nothing, or the bytes behind it. -/
def Packet.OptionPasses (p : Packet) (o n : Nat) : Prop :=
  p.mem o = 0 ∨
    (p.mem o = 1 ∧ OptionsContained (p.slice (o + 1) (n - 1))) ∨
      (p.mem o ≠ 0 ∧ p.mem o ≠ 1 ∧ (p.mem (o + 1)).toNat ≠ 0 ∧
        OptionsContained (p.slice (o + (p.mem (o + 1)).toNat) (n - (p.mem (o + 1)).toNat)))

theorem toNat_eq_zero {b : UInt8} : b.toNat = 0 ↔ b = 0 := UInt8.toNat_inj (b := 0)

theorem contained_slice_iff (hn : 0 < n) : OptionsContained (p.slice o n) ↔
    (p.cut (o + n)).OptionFits o ∧ p.OptionPasses o n := by
  obtain ⟨n, rfl⟩ : ∃ k, n = k + 1 := ⟨n - 1, by omega⟩
  cases n with
  | zero =>
    apply iff_of_false
    · intro h
      rw [show p.slice o (0 + 1) = [p.mem o] from rfl] at h
      generalize p.mem o = kind at h
      cases h
    · intro h
      exact absurd h.1.len (Nat.lt_irrefl _)
  | succ n =>
    have hopen : p.slice o (n + 1 + 1) = p.mem o :: p.mem (o + 1) :: p.slice (o + 2) n := by
      rw [Packet.slice_succ, Packet.slice_succ]
    have hroom (k : Nat) : k ≤ n ↔ o + (k + 2) ≤ o + (n + 1 + 1) := by omega
    constructor
    · intro h
      rw [hopen] at h
      have hfits (hmss : p.mem o = 2 → p.mem (o + 1) = 4 → 2 ≤ n)
          (hws : p.mem o = 3 → p.mem (o + 1) = 3 → 1 ≤ n) :
          (p.cut (o + (n + 1 + 1))).OptionFits o :=
        ⟨by simp only [Packet.cut]; omega, fun h1 h2 => (hroom 2).mp (hmss h1 h2),
          fun h1 h2 => (hroom 1).mp (hws h1 h2)⟩
      generalize hkind : p.mem o = kind at h hfits
      generalize hlen : p.mem (o + 1) = len at h hfits
      cases h with
      | last => exact ⟨hfits nofun nofun, Or.inl hkind⟩
      | nop hrest =>
        refine ⟨hfits nofun nofun, Or.inr (Or.inl ⟨hkind, ?_⟩)⟩
        rw [Nat.add_sub_cancel, Packet.slice_succ, hlen]
        exact hrest
      | option hlast hnop hzero hmss hws hrest =>
        rw [Packet.slice_length] at hmss hws
        refine ⟨hfits hmss hws, Or.inr (Or.inr ⟨hkind ▸ hlast, hkind ▸ hnop, ?_, ?_⟩)⟩
        · rw [hlen]
          exact mt toNat_eq_zero.mp hzero
        · rw [hlen, ← Packet.drop_slice, hopen, hkind, hlen]
          exact hrest
    · rintro ⟨hfits, hpasses⟩
      rw [hopen]
      rcases hpasses with hlast | ⟨hnop, hrest⟩ | ⟨hlast, hnop, hzero, hrest⟩
      · rw [hlast]
        exact .last _ _
      · rw [Nat.add_sub_cancel, Packet.slice_succ] at hrest
        rw [hnop]
        exact .nop hrest
      · rw [← Packet.drop_slice, hopen] at hrest
        refine .option hlast hnop (mt toNat_eq_zero.mpr hzero) ?_ ?_ hrest
        · rw [Packet.slice_length]
          exact fun h1 h2 => (hroom 2).mpr (hfits.mss h1 h2)
        · rw [Packet.slice_length]
          exact fun h1 h2 => (hroom 1).mpr (hfits.ws h1 h2)

end Contained

section Loop

theorem parseOptions_toNat (k : Int) :
    parseOptions p o k.toNat mss ws = parseOptions p o k mss ws := by
  rcases Int.le_total 0 k with hpos | hneg
  · rw [Int.toNat_of_nonneg hpos]
  · have hnone : ¬ k > 0 := Int.not_lt.mpr hneg
    rw [Int.toNat_of_nonpos hneg, parseOptions, parseOptions.eq_def p o k, if_neg hnone]
    rfl

theorem optionPointers_toNat (k : Int) : optionPointers p o k.toNat = optionPointers p o k := by
  rcases Int.le_total 0 k with hpos | hneg
  · rw [Int.toNat_of_nonneg hpos]
  · have hnone : ¬ k > 0 := Int.not_lt.mpr hneg
    rw [Int.toNat_of_nonpos hneg, optionPointers, optionPointers.eq_def p o k, if_neg hnone]
    rfl

theorem parseOptions_zero : parseOptions p o (0 : Nat) mss ws = some (mss, ws) := by
  rw [parseOptions]
  rfl

theorem optionPointers_zero : optionPointers p o (0 : Nat) = [] := by
  rw [optionPointers]
  rfl

theorem int_sub_toNat (n k : Nat) : ((n : Int) - k).toNat = n - k := Int.toNat_sub n k

/-- One turn of the loop, the remaining length as a natural number. -/
theorem parseOptions_step (hn : 0 < n) : parseOptions p o n mss ws =
    if p.mem o = 0 then some (mss, ws)
    else
      let mss := if p.mem o = 2 ∧ (p.mem (o + 1)).toNat = 4 then p.be16 (o + 2) else mss
      let ws := if p.mem o = 3 ∧ (p.mem (o + 1)).toNat = 3 then p.mem (o + 2) else ws
      if p.mem o = 1 then parseOptions p (o + 1) (n - 1 : Nat) mss ws
      else if (p.mem (o + 1)).toNat = 0 then none
      else parseOptions p (o + (p.mem (o + 1)).toNat) (n - (p.mem (o + 1)).toNat : Nat) mss ws := by
  have hmore : (n : Int) > 0 := Int.natCast_pos.mpr hn
  have hone : ((n : Int) - 1).toNat = n - 1 := int_sub_toNat n 1
  rw [parseOptions, if_pos hmore]
  simp only [← int_sub_toNat, ← hone, parseOptions_toNat]

theorem optionPointers_step (hn : 0 < n) : optionPointers p o n =
    o :: if p.mem o = 0 then []
      else if p.mem o = 1 then optionPointers p (o + 1) (n - 1 : Nat)
      else if (p.mem (o + 1)).toNat = 0 then []
      else optionPointers p (o + (p.mem (o + 1)).toNat) (n - (p.mem (o + 1)).toNat : Nat) := by
  have hmore : (n : Int) > 0 := Int.natCast_pos.mpr hn
  have hone : ((n : Int) - 1).toNat = n - 1 := int_sub_toNat n 1
  rw [optionPointers, if_pos hmore]
  simp only [← int_sub_toNat, ← hone, optionPointers_toNat]

theorem length_optionPointers_le : (optionPointers p o n).length ≤ n := by
  induction n using Nat.strongRecOn generalizing o with
  | _ n ih =>
    rcases Nat.eq_zero_or_pos n with rfl | hn
    · rw [optionPointers_zero]
      exact Nat.le_refl 0
    · rw [optionPointers_step hn, List.length_cons]
      split
      · exact hn
      split
      · have hrest := ih (n - 1) (by omega) (o := o + 1)
        omega
      split
      · exact hn
      next hlen =>
        have hrest := ih (n - (p.mem (o + 1)).toNat) (by omega) (o := o + (p.mem (o + 1)).toNat)
        omega

theorem le_of_mem_optionPointers {x : Nat} (hx : x ∈ optionPointers p o n) : o ≤ x := by
  induction n using Nat.strongRecOn generalizing o with
  | _ n ih =>
    rcases Nat.eq_zero_or_pos n with rfl | hn
    · rw [optionPointers_zero] at hx
      exact absurd hx List.not_mem_nil
    · rw [optionPointers_step hn, List.mem_cons] at hx
      rcases hx with rfl | hx
      · exact Nat.le_refl _
      · split at hx
        · exact absurd hx List.not_mem_nil
        split at hx
        · exact Nat.le_trans (Nat.le_succ o) (ih (n - 1) (by omega) hx)
        split at hx
        · exact absurd hx List.not_mem_nil
        · exact Nat.le_trans (Nat.le_add_right o _) (ih _ (by omega) hx)

/-- The options behind one that leaves the area are none, so that the end of the area may be
taken before or behind it. -/
theorem optionPointers_fits_iff (k : Nat) :
    (∀ x ∈ optionPointers p (o + k) (n - k : Nat), (p.cut (o + k + (n - k))).OptionFits x) ↔
      ∀ x ∈ optionPointers p (o + k) (n - k : Nat), (p.cut (o + n)).OptionFits x := by
  rcases Nat.le_total k n with hle | hle
  · rw [show o + k + (n - k) = o + n by omega]
  · rw [Nat.sub_eq_zero_of_le hle, optionPointers_zero]
    simp

/-- The loop ends inside the area exactly on the contained ones. -/
theorem contained_iff : OptionsContained (p.slice o n) ↔
    parseOptions p o n mss ws ≠ none ∧
      ∀ x ∈ optionPointers p o n, (p.cut (o + n)).OptionFits x := by
  induction n using Nat.strongRecOn generalizing o mss ws with
  | _ n ih =>
    rcases Nat.eq_zero_or_pos n with rfl | hn
    · rw [parseOptions_zero, optionPointers_zero]
      exact iff_of_true .empty ⟨nofun, nofun⟩
    · rw [contained_slice_iff hn, parseOptions_step hn, optionPointers_step hn,
        List.forall_mem_cons, and_left_comm]
      apply and_congr_right
      intro hfits
      rw [Packet.OptionPasses]
      by_cases hlast : p.mem o = 0
      · simp [hlast]
      by_cases hnop : p.mem o = 1
      · simp only [if_neg hlast, if_pos hnop]
        rw [← optionPointers_fits_iff 1, ← ih (n - 1) (by omega)]
        simp [hnop]
      by_cases hzero : (p.mem (o + 1)).toNat = 0
      · simp [hlast, hnop, hzero]
      · simp only [if_neg hlast, if_neg hnop, if_neg hzero]
        rw [← optionPointers_fits_iff, ← ih (n - (p.mem (o + 1)).toNat) (by omega)]
        simp [hlast, hnop, hzero]

theorem below_optionReads_cut (stop : Nat) :
    Below (optionReads p o) stop ↔ (p.cut stop).OptionFits o := below_optionReads (p := p.cut stop)

theorem start_of_mem_optionReads {r : Range} (hr : r ∈ optionReads p o) : o ≤ r.start := by
  rw [optionReads, List.mem_append] at hr
  rcases hr with hr | hr
  · simp only [List.mem_cons, List.not_mem_nil, or_false] at hr
    rcases hr with rfl | rfl
    · exact Nat.le_refl o
    · exact Nat.le_add_right o 1
  · split at hr
    · rw [List.mem_singleton.mp hr]
      exact Nat.le_add_right o 2
    split at hr
    · rw [List.mem_singleton.mp hr]
      exact Nat.le_add_right o 2
    · exact absurd hr List.not_mem_nil

end Loop

section Announced

/-- An option as a sender means it. -/
inductive TcpOption
  | nop
  | mss (value : UInt16)
  | windowScale (shift : UInt8)
  | other (kind : UInt8) (data : List UInt8) (hkind : 4 ≤ kind) (hdata : data.length ≤ 253)

def TcpOption.encode : TcpOption → List UInt8
  | .nop => [1]
  | .mss value => 2 :: 4 :: htons value
  | .windowScale shift => [3, 3, shift]
  | .other kind data _ _ => kind :: UInt8.ofNat (2 + data.length) :: data

def TcpOption.mss? : TcpOption → Option UInt16
  | .mss value => some value
  | _ => none

def TcpOption.windowScale? : TcpOption → Option UInt8
  | .windowScale shift => some shift
  | _ => none

/-- The value of the last option that has one. -/
def lastAnnounced {α β : Type} (value? : α → Option β) (otherwise : β) (opts : List α) : β :=
  (opts.filterMap value?).getLast?.getD otherwise

theorem lastAnnounced_cons {α β : Type} (value? : α → Option β) (otherwise : β) (a : α)
    (opts : List α) : lastAnnounced value? otherwise (a :: opts)
      = lastAnnounced value? ((value? a).getD otherwise) opts := by
  cases h : value? a with
  | none => simp [lastAnnounced, h]
  | some b => simp [lastAnnounced, h, List.getLast?_cons]

/-- The area lists the options, and is at its end with them or goes on with End of options. -/
def OptionsListed (area : List UInt8) (opts : List TcpOption) : Prop :=
  area = opts.flatMap TcpOption.encode ∨
    ∃ padding, area = opts.flatMap TcpOption.encode ++ 0 :: padding

theorem Packet.take_slice {k : Nat} (hk : k ≤ n) : (p.slice o n).take k = p.slice o k := by
  rw [Packet.slice, ← List.map_take, List.take_range, Nat.min_eq_left hk, Packet.slice]

theorem slice_eq_append {l l' : List UInt8} (h : p.slice o n = l ++ l') :
    l.length ≤ n ∧ p.slice o l.length = l ∧ p.slice (o + l.length) (n - l.length) = l' := by
  have hlen : l.length ≤ n := by
    have hlength := congrArg List.length h
    rw [Packet.slice_length, List.length_append] at hlength
    omega
  refine ⟨hlen, ?_, ?_⟩
  · rw [← Packet.take_slice hlen, h, List.take_left]
  · rw [← Packet.drop_slice, h, List.drop_left]

theorem be16_of_slice {v : UInt16} (h : p.slice o 2 = htons v) : p.be16 o = v := by
  have hhigh : p.mem o = (v >>> 8).toUInt8 := (List.cons.inj h).1
  have hlow : p.mem (o + 1) = v.toUInt8 := (List.cons.inj (List.cons.inj h).2).1
  exact Packet.be16_htons hhigh hlow

theorem parseOptions_option (opt : TcpOption) (hlen : opt.encode.length ≤ n)
    (hbytes : p.slice o opt.encode.length = opt.encode) : parseOptions p o n mss ws
      = parseOptions p (o + opt.encode.length) (n - opt.encode.length : Nat)
          (opt.mss?.getD mss) (opt.windowScale?.getD ws) := by
  have hfirst : 0 < opt.encode.length := by cases opt <;> simp [TcpOption.encode]
  rw [parseOptions_step (Nat.lt_of_lt_of_le hfirst hlen)]
  cases opt with
  | nop =>
    have hkind : p.mem o = 1 := (List.cons.inj hbytes).1
    simp [hkind, TcpOption.encode, TcpOption.mss?, TcpOption.windowScale?]
  | mss value =>
    have hkind : p.mem o = 2 := (List.cons.inj hbytes).1
    have hfour : p.mem (o + 1) = 4 := (List.cons.inj (List.cons.inj hbytes).2).1
    have hvalue : p.be16 (o + 2) = value :=
      be16_of_slice (List.cons.inj (List.cons.inj hbytes).2).2
    simp [hkind, hfour, hvalue, TcpOption.encode, htons, TcpOption.mss?, TcpOption.windowScale?]
  | windowScale shift =>
    have hkind : p.mem o = 3 := (List.cons.inj hbytes).1
    have hthree : p.mem (o + 1) = 3 := (List.cons.inj (List.cons.inj hbytes).2).1
    have hshift : p.mem (o + 2) = shift :=
      (List.cons.inj (List.cons.inj (List.cons.inj hbytes).2).2).1
    simp [hkind, hthree, hshift, TcpOption.encode, TcpOption.mss?, TcpOption.windowScale?]
  | other kind data hlarge hdata =>
    rw [TcpOption.encode, List.length_cons, List.length_cons, Packet.slice_succ,
      Packet.slice_succ] at hbytes
    have hkind : p.mem o = kind := (List.cons.inj hbytes).1
    have hsecond : p.mem (o + 1) = UInt8.ofNat (2 + data.length) :=
      (List.cons.inj (List.cons.inj hbytes).2).1
    have hlength : (p.mem (o + 1)).toNat = 2 + data.length := by
      rw [hsecond, UInt8.toNat_ofNat', Nat.mod_eq_of_lt (by omega)]
    have hnot (b : UInt8) (hb : b.toNat < 4) : kind ≠ b := by
      rintro rfl
      exact absurd (UInt8.le_iff_toNat_le.mp hlarge) (Nat.not_le.mpr hb)
    simp only [hkind, hlength, hnot 0 (by decide), hnot 1 (by decide), hnot 2 (by decide),
      hnot 3 (by decide), false_and, if_false, TcpOption.encode, List.length_cons]
    rw [if_neg (by omega), Nat.add_comm 2 data.length]
    rfl

/-- What the loop takes from options that are listed as they should be, also where it reads
behind the area for a last No-Operation. -/
theorem parseOptions_listed {opts : List TcpOption} (hlisted : OptionsListed (p.slice o n) opts) :
    parseOptions p o n mss ws
      = some (lastAnnounced TcpOption.mss? mss opts, lastAnnounced TcpOption.windowScale? ws opts) := by
  induction opts generalizing o n mss ws with
  | nil =>
    cases n with
    | zero => exact parseOptions_zero
    | succ n =>
      rcases hlisted with hempty | ⟨padding, hend⟩
      · rw [Packet.slice_succ] at hempty
        exact absurd hempty (List.cons_ne_nil _ _)
      · rw [Packet.slice_succ] at hend
        have hkind : p.mem o = 0 := (List.cons.inj hend).1
        rw [parseOptions_step n.succ_pos, if_pos hkind]
        rfl
  | cons opt opts ih =>
    simp only [OptionsListed, List.flatMap_cons, List.append_assoc] at hlisted
    have hsplit : opt.encode.length ≤ n ∧ p.slice o opt.encode.length = opt.encode ∧
        OptionsListed (p.slice (o + opt.encode.length) (n - opt.encode.length)) opts := by
      rcases hlisted with hend | ⟨padding, hend⟩
      · obtain ⟨hlen, hbytes, hrest⟩ := slice_eq_append hend
        exact ⟨hlen, hbytes, Or.inl hrest⟩
      · obtain ⟨hlen, hbytes, hrest⟩ := slice_eq_append hend
        exact ⟨hlen, hbytes, Or.inr ⟨padding, hrest⟩⟩
    obtain ⟨hlen, hbytes, hrest⟩ := hsplit
    rw [parseOptions_option opt hlen hbytes, ih hrest, lastAnnounced_cons, lastAnnounced_cons]

end Announced

section Decoded
variable (p : Packet) (version : IpVersion) (payload : Nat)

/-- What the option loop owes to a SYN: it ends after a turn for each byte of the area at most,
reads nothing else, and finds the values last announced. -/
structure OptionsDecoded : Prop where
  ends : parseOptions p (payload + 20) (p.tcphdr payload).tcpoptlen.toNat
    (getDefaultMss version) 0 ≠ none
  turns : (optionPointers p (payload + 20) (p.tcphdr payload).tcpoptlen.toNat).length
    ≤ (p.tcphdr payload).optionArea
  reads : ∀ x ∈ optionPointers p (payload + 20) (p.tcphdr payload).tcpoptlen.toNat,
    ∀ r ∈ optionReads p x, payload + 20 ≤ r.start ∧
      r.Below (payload + 20 + (p.tcphdr payload).optionArea)
  values : ∀ opts, OptionsListed (p.slice (payload + 20) (p.tcphdr payload).optionArea) opts →
    parseOptions p (payload + 20) (p.tcphdr payload).tcpoptlen.toNat (getDefaultMss version) 0
      = some (lastAnnounced TcpOption.mss? (getDefaultMss version) opts,
          lastAnnounced TcpOption.windowScale? 0 opts)

variable {p version payload}

theorem doff_le : (p.tcphdr payload).doff.toNat ≤ 15 := by
  have hlt := (p.mem (payload + 12)).toNat_lt
  simp only [Packet.tcphdr, UInt8.toNat_shiftRight, Nat.shiftRight_eq_div_pow,
    show (4 : UInt8).toNat % 8 = 4 from rfl]
  omega

theorem tcpoptlen_eq (hdoff : 5 ≤ (p.tcphdr payload).doff.toNat) :
    (p.tcphdr payload).tcpoptlen.toNat = (p.tcphdr payload).optionArea := by
  have hle : (p.tcphdr payload).doff.toNat ≤ 15 := doff_le
  simp only [TcpHdr.tcpoptlen, TcpHdr.optionArea, UInt8.toNat_mul, UInt8.toNat_sub,
    show (5 : UInt8).toNat = 5 from rfl, show (4 : UInt8).toNat = 4 from rfl]
  omega

/-- Below an offset of five the length wraps. -/
theorem tcpoptlen_pos (hdoff : (p.tcphdr payload).doff.toNat < 5) :
    0 < (p.tcphdr payload).tcpoptlen.toNat := by
  simp only [TcpHdr.tcpoptlen, UInt8.toNat_mul, UInt8.toNat_sub,
    show (5 : UInt8).toNat = 5 from rfl, show (4 : UInt8).toNat = 4 from rfl]
  omega

theorem optionsDecoded_iff (p : Packet) (version : IpVersion) (payload : Nat) :
    OptionsDecoded p version payload ↔ 5 ≤ (p.tcphdr payload).doff.toNat ∧
      OptionsContained (p.slice (payload + 20) (p.tcphdr payload).optionArea) := by
  constructor
  · intro h
    have hdoff : 5 ≤ (p.tcphdr payload).doff.toNat := by
      by_contra hsmall
      rw [Nat.not_le] at hsmall
      have harea : (p.tcphdr payload).optionArea = 0 := by
        rw [TcpHdr.optionArea]
        omega
      have hturns := h.turns
      rw [optionPointers_step (tcpoptlen_pos hsmall), harea] at hturns
      exact absurd hturns (Nat.not_succ_le_zero _)
    refine ⟨hdoff, contained_iff.mpr ⟨tcpoptlen_eq hdoff ▸ h.ends, ?_⟩⟩
    intro x hx
    rw [← below_optionReads_cut]
    rw [← tcpoptlen_eq hdoff] at hx
    exact fun r hr => (h.reads x hx r hr).2
  · rintro ⟨hdoff, hcontained⟩
    obtain ⟨hends, hfits⟩ := contained_iff.mp hcontained
    refine ⟨?_, ?_, ?_, ?_⟩
    · rw [tcpoptlen_eq hdoff]
      exact hends
    · rw [tcpoptlen_eq hdoff]
      exact length_optionPointers_le
    · rw [tcpoptlen_eq hdoff]
      intro x hx r hr
      refine ⟨Nat.le_trans (le_of_mem_optionPointers hx) (start_of_mem_optionReads hr), ?_⟩
      exact (below_optionReads_cut _).mpr (hfits x hx) r hr
    · intro opts hlisted
      rw [tcpoptlen_eq hdoff]
      exact parseOptions_listed hlisted

/-- A SYN with an MSS option of length zero. -/
def Packet.stuckSyn : Packet :=
  .ofBytes [156, 64, 0, 80, 0, 0, 0, 100, 0, 0, 0, 0, 0x60, 2, 3, 232, 0, 0, 0, 0, 2, 0, 5, 180]

theorem not_optionsDecoded : ¬ OptionsDecoded .stuckSyn .v4 0 := by
  intro h
  apply h.ends
  have hlength : (Packet.stuckSyn.tcphdr 0).tcpoptlen.toNat = 4 := by decide
  rw [hlength, parseOptions_step (by decide)]
  rfl

end Decoded

end NetGuard.Engine
