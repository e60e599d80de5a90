import NetGuard.Library.Search
import NetGuard.Storage.Parser

/-! # Addresses

An address is written with octets between dots or with groups between colons. The parts of
the patterns of the parser read octets and groups.
-/
namespace NetGuard.Storage
open Service (Text)

section Characters
variable {c : Char}

def isWord (c : Char) : Bool := c.isAlphanum || c = '_'

def digit (c : Char) : Bool := '0' ≤ c && c ≤ '9'

def hexDigit (c : Char) : Bool :=
  ('A' ≤ c && c ≤ 'F') || ('a' ≤ c && c ≤ 'f') || ('0' ≤ c && c ≤ '9')

theorem le_iff_toNat {a b : Char} : a ≤ b ↔ a.toNat ≤ b.toNat := by
  rw [Char.le_def, UInt32.le_iff_toNat_le]
  rfl

theorem digit_iff : digit c = true ↔ 48 ≤ c.toNat ∧ c.toNat ≤ 57 := by
  simp only [digit, Bool.and_eq_true, decide_eq_true_eq, le_iff_toNat]
  rfl

theorem hexDigit_of_digit (h : digit c = true) : hexDigit c = true := by
  rw [hexDigit, Bool.or_eq_true]
  exact .inr h

theorem isWord_iff : isWord c = true ↔ (65 ≤ c.toNat ∧ c.toNat ≤ 90) ∨
    (97 ≤ c.toNat ∧ c.toNat ≤ 122) ∨ (48 ≤ c.toNat ∧ c.toNat ≤ 57) ∨ c = '_' := by
  have hword : isWord c = ((decide (c.val ≥ 'A'.val ∧ c.val ≤ 'Z'.val) ||
      (c.val ≥ 'a'.val && c.val ≤ 'z'.val) || (c.val ≥ '0'.val && c.val ≤ '9'.val)) || c = '_') := rfl
  simp only [hword, Bool.or_eq_true, Bool.and_eq_true, decide_eq_true_eq, ge_iff_le,
    UInt32.le_iff_toNat_le, or_assoc]
  rfl

theorem isWord_of_hexDigit (h : hexDigit c = true) : isWord c = true := by
  simp only [hexDigit, Bool.or_eq_true, Bool.and_eq_true, decide_eq_true_eq, le_iff_toNat,
    Char.reduceToNat] at h
  rw [isWord_iff]
  omega

theorem not_isSpace_of_isWord (h : isWord c = true) : isSpace c = false := by
  rw [isWord_iff] at h
  have hbound : 48 ≤ c.toNat ∧ c.toNat ≤ 122 := by
    rcases h with h | h | h | rfl
    · omega
    · omega
    · omega
    · decide
  simp only [isSpace, Bool.or_eq_false_iff, Bool.and_eq_false_iff, decide_eq_false_iff_not,
    beq_eq_false_iff_ne]
  omega

theorem not_isWord_of_isSpace (hc : isSpace c = true) : isWord c = false := by
  cases hword : isWord c with
  | false => rfl
  | true => exact absurd hc (by rw [not_isSpace_of_isWord hword]; exact nofun)

end Characters

section Addresses

def numberOf (x : Text) : Nat := x.foldl (fun n c => 10 * n + (c.toNat - 48)) 0

def IsOctet (x : Text) : Prop :=
  x ≠ [] ∧ x.length ≤ 3 ∧ (∀ c ∈ x, digit c = true) ∧ numberOf x ≤ 255

def IsIpv4 (x : Text) : Prop :=
  ∃ a b c d, IsOctet a ∧ IsOctet b ∧ IsOctet c ∧ IsOctet d ∧
    x = a ++ '.' :: (b ++ '.' :: (c ++ '.' :: d))

def IsGroup (x : Text) : Prop := x ≠ [] ∧ x.length ≤ 4 ∧ ∀ c ∈ x, hexDigit c = true

/-- Parts with a mark between them. -/
def joined (c : Char) : List Text → Text
  | [] => []
  | [g] => g
  | g :: gs => g ++ c :: joined c gs

theorem joined_cons (c : Char) (g g' : Text) (gs : List Text) :
    joined c (g :: g' :: gs) = g ++ c :: joined c (g' :: gs) := by
  rw [joined]
  exact List.cons_ne_nil _ _

/-- `n` groups with colons between them. The last two can be written as an IPv4 address. -/
def IsGroups (n : Nat) (x : Text) : Prop :=
  ∃ gs : List Text, (∀ g ∈ gs, IsGroup g) ∧
    ((gs.length = n ∧ x = joined ':' gs) ∨
      ∃ a, IsIpv4 a ∧ gs.length + 2 = n ∧ x = joined ':' (gs ++ [a]))

/-- Eight groups, or fewer with `::` for those that are left out. -/
def IsIpv6 (x : Text) : Prop :=
  IsGroups 8 x ∨ ∃ front n back, (∀ g ∈ front, IsGroup g) ∧ IsGroups n back ∧
    front.length + n ≤ 7 ∧ x = joined ':' front ++ [':', ':'] ++ back

/-- An address, and for IPv6 maybe the zone that it belongs to. -/
def IsAddress (x : Text) : Prop :=
  IsIpv4 x ∨ IsIpv6 x ∨ ∃ a zone, IsIpv6 a ∧ zone ≠ [] ∧ (∀ c ∈ zone, isWord c = true) ∧
    x = a ++ '%' :: zone

end Addresses

section Languages
open Regex

/-- An octet as the pattern has it: only two digits can begin with a zero. -/
def IsPlainOctet (x : Text) : Prop := IsOctet x ∧ (x.length = 3 → x.head? ≠ some '0')

theorem mem_symbol_mul {α : Type} {p : α → Bool} {L : Language α} {x : List α} :
    x ∈ symbol p * L ↔ ∃ a y, p a = true ∧ y ∈ L ∧ x = a :: y := by
  rw [Language.mem_mul]
  constructor
  · rintro ⟨_, ⟨a, ha, rfl⟩, y, hy, rfl⟩
    exact ⟨a, y, ha, hy, rfl⟩
  · rintro ⟨a, y, ha, hy, rfl⟩
    exact ⟨[a], ⟨a, ha, rfl⟩, y, hy, rfl⟩

theorem mem_symbol_pow {α : Type} {p : α → Bool} {n : Nat} {x : List α} :
    x ∈ symbol p ^ n ↔ x.length = n ∧ ∀ a ∈ x, p a = true := by
  induction n generalizing x with
  | zero =>
    rw [pow_zero, Language.mem_one, List.length_eq_zero_iff]
    constructor
    · rintro rfl
      exact ⟨rfl, nofun⟩
    · exact And.left
  | succ n ih =>
    rw [pow_succ', mem_symbol_mul]
    constructor
    · rintro ⟨a, y, ha, hy, rfl⟩
      obtain ⟨hlength, hall⟩ := ih.mp hy
      exact ⟨by rw [List.length_cons, hlength], List.forall_mem_cons.mpr ⟨ha, hall⟩⟩
    · rintro ⟨hlength, hall⟩
      obtain ⟨a, y, rfl⟩ := List.exists_cons_of_length_eq_add_one hlength
      rw [List.forall_mem_cons] at hall
      exact ⟨a, y, hall.1, ih.mpr ⟨Nat.succ.inj hlength, hall.2⟩, rfl⟩

theorem mem_pow_mul_atMost {α : Type} {L : Language α} {m n : Nat} (hmn : m ≤ n) {x : List α} :
    x ∈ L ^ m * atMost (n - m) L ↔ ∃ k, m ≤ k ∧ k ≤ n ∧ x ∈ L ^ k := by
  rw [Language.mem_mul]
  constructor
  · rintro ⟨y, hy, z, ⟨k, hk, hz⟩, rfl⟩
    refine ⟨m + k, by omega, by omega, ?_⟩
    rw [pow_add]
    exact Language.append_mem_mul hy hz
  · rintro ⟨k, hm, hn, hx⟩
    obtain ⟨j, rfl⟩ := Nat.exists_eq_add_of_le hm
    rw [pow_add, Language.mem_mul] at hx
    obtain ⟨y, hy, z, hz, rfl⟩ := hx
    exact ⟨y, hy, z, ⟨j, by omega, hz⟩, rfl⟩

theorem mem_hexGroup {x : Text} :
    x ∈ symbol hexDigit ^ 1 * atMost 3 (symbol hexDigit) ↔ IsGroup x := by
  rw [mem_pow_mul_atMost (m := 1) (n := 4) (by omega)]
  simp only [mem_symbol_pow]
  constructor
  · rintro ⟨k, hpos, hle, rfl, hall⟩
    exact ⟨List.length_pos_iff.mp hpos, hle, hall⟩
  · rintro ⟨hne, hle, hall⟩
    exact ⟨x.length, List.length_pos_iff.mpr hne, hle, rfl, hall⟩

def groups : Language Char := {x | IsGroup x}

theorem reads_hexGroup : Reads hexGroup groups :=
  ((reads_one hexDigit).between 1 4).of_iff fun _ => mem_hexGroup

def mark (c : Char) : Language Char := {x | x = [c]}

theorem mem_mark {c : Char} {x : Text} : x ∈ mark c ↔ x = [c] := Iff.rfl

def octets : Language Char := {x | IsPlainOctet x}

theorem mem_octets {x : Text} : x ∈ octets ↔ IsPlainOctet x := Iff.rfl

theorem eq_of_toNat {a b : Char} (h : a.toNat = b.toNat) : a = b :=
  Char.ext (UInt32.toNat_inj.mp h)

/-- The shapes of an octet, in the order of the pattern. -/
theorem plainOctet_iff {x : Text} : IsPlainOctet x ↔
    (∃ c, x = ['2', '5', c] ∧ '0' ≤ c ∧ c ≤ '5') ∨
    (∃ b c, x = ['2', b, c] ∧ ('0' ≤ b ∧ b ≤ '4') ∧ digit c = true) ∨
    ((∃ a b, x = ['1', a, b] ∧ digit a = true ∧ digit b = true) ∨
      (∃ a b, x = [a, b] ∧ digit a = true ∧ digit b = true) ∨ ∃ a, x = [a] ∧ digit a = true) := by
  have hone : ('1' : Char).toNat = 49 := rfl
  have htwo : ('2' : Char).toNat = 50 := rfl
  have hfour : ('4' : Char).toNat = 52 := rfl
  have hfive : ('5' : Char).toNat = 53 := rfl
  constructor
  · rintro ⟨⟨hne, hle, hdigits, hvalue⟩, hzero⟩
    match x, hne, hle with
    | [a], _, _ => exact .inr (.inr (.inr (.inr ⟨a, rfl, hdigits a (by simp)⟩)))
    | [a, b], _, _ =>
      exact .inr (.inr (.inr (.inl ⟨a, b, rfl, hdigits a (by simp), hdigits b (by simp)⟩)))
    | [a, b, c], _, _ =>
      have ha := digit_iff.mp (hdigits a (by simp))
      have hb := digit_iff.mp (hdigits b (by simp))
      have hc := digit_iff.mp (hdigits c (by simp))
      simp only [numberOf, List.foldl_cons, List.foldl_nil] at hvalue
      have hnonzero : a.toNat ≠ 48 := by
        intro ha0
        exact hzero rfl (congrArg some (eq_of_toNat (b := '0') ha0))
      by_cases ha1 : a = '1'
      · exact .inr (.inr (.inl ⟨b, c, by rw [ha1], hdigits b (by simp), hdigits c (by simp)⟩))
      · have hne1 : a.toNat ≠ 49 := fun h => ha1 (eq_of_toNat (h.trans hone.symm))
        have ha2 : a = '2' := eq_of_toNat (by omega)
        by_cases hb5 : b = '5'
        · refine .inl ⟨c, by rw [ha2, hb5], le_iff_toNat.mpr hc.1, le_iff_toNat.mpr ?_⟩
          rw [ha2, hb5] at hvalue
          omega
        · have hne5 : b.toNat ≠ 53 := fun h => hb5 (eq_of_toNat (h.trans hfive.symm))
          refine .inr (.inl ⟨b, c, by rw [ha2], ⟨le_iff_toNat.mpr hb.1, le_iff_toNat.mpr ?_⟩,
            hdigits c (by simp)⟩)
          rw [ha2] at hvalue
          omega
  · have hoctet {a b c : Char} (ha : digit a = true) (hb : digit b = true) (hc : digit c = true)
        (hvalue : 100 * (a.toNat - 48) + 10 * (b.toNat - 48) + (c.toNat - 48) ≤ 255)
        (hzero : a ≠ '0') : IsPlainOctet [a, b, c] := by
      refine ⟨⟨by simp, by simp, by simp [ha, hb, hc], ?_⟩, by simpa using hzero⟩
      simp only [numberOf, List.foldl_cons, List.foldl_nil]
      omega
    rintro (⟨c, rfl, hlow, hhigh⟩ | ⟨b, c, rfl, ⟨hlow, hhigh⟩, hc⟩ | ⟨a, b, rfl, ha, hb⟩ |
      ⟨a, b, rfl, ha, hb⟩ | ⟨a, rfl, ha⟩)
    · have hhigh' := le_iff_toNat.mp hhigh
      have hc : digit c = true := digit_iff.mpr ⟨le_iff_toNat.mp hlow, by omega⟩
      exact hoctet (by decide) (by decide) hc (by omega) (by decide)
    · have hhigh' := le_iff_toNat.mp hhigh
      have hb : digit b = true := digit_iff.mpr ⟨le_iff_toNat.mp hlow, by omega⟩
      have hc' := digit_iff.mp hc
      exact hoctet (by decide) hb hc (by omega) (by decide)
    · have ha' := digit_iff.mp ha
      have hb' := digit_iff.mp hb
      exact hoctet (by decide) ha hb (by omega) (by decide)
    · have ha' := digit_iff.mp ha
      have hb' := digit_iff.mp hb
      refine ⟨⟨by simp, by simp, by simp [ha, hb], ?_⟩, by simp⟩
      simp only [numberOf, List.foldl_cons, List.foldl_nil]
      omega
    · have ha' := digit_iff.mp ha
      refine ⟨⟨by simp, by simp, by simp [ha], ?_⟩, by simp⟩
      simp only [numberOf, List.foldl_cons, List.foldl_nil]
      omega

theorem reads_octet : Reads octet octets := by
  have hreads := ((reads_one fun a : Char => a = '2').seq
      ((reads_one fun a : Char => a = '5').seq (reads_one fun a : Char => '0' ≤ a && a ≤ '5'))).alt
    (((reads_one fun a : Char => a = '2').seq
      ((reads_one fun a : Char => '0' ≤ a && a ≤ '4').seq (reads_one digit))).alt
    (((reads_one fun a : Char => a = '1').between 0 1).seq ((reads_one digit).between 1 2)))
  refine hreads.of_iff ?_
  intro x
  rw [mem_octets, plainOctet_iff]
  simp only [pow_zero, one_mul, pow_one, Nat.reduceSub, atMost_succ, atMost_zero, mul_one,
    Language.mem_add, add_mul, mul_add, mem_symbol_mul, mem_symbol, decide_eq_true_eq,
    Bool.and_eq_true]
  constructor
  · rintro (⟨_, _, rfl, ⟨_, _, rfl, ⟨c, hc, rfl⟩, rfl⟩, rfl⟩ |
      ⟨_, _, rfl, ⟨b, _, hb, ⟨c, hc, rfl⟩, rfl⟩, rfl⟩ |
      (⟨_, _, rfl, ⟨a, _, ha, ⟨b, hb, rfl⟩, rfl⟩, rfl⟩ | ⟨a, _, ha, ⟨b, hb, rfl⟩, rfl⟩) |
      ⟨_, _, rfl, ⟨a, ha, rfl⟩, rfl⟩ | ⟨a, ha, rfl⟩)
    · exact .inl ⟨c, rfl, hc⟩
    · exact .inr (.inl ⟨b, c, rfl, hb, hc⟩)
    · exact .inr (.inr (.inl ⟨a, b, rfl, ha, hb⟩))
    · exact .inr (.inr (.inr (.inl ⟨a, b, rfl, ha, hb⟩)))
    · exact .inr (.inr (.inr (.inl ⟨'1', a, rfl, by decide, ha⟩)))
    · exact .inr (.inr (.inr (.inr ⟨a, rfl, ha⟩)))
  · rintro (⟨c, rfl, hc⟩ | ⟨b, c, rfl, hb, hc⟩ | ⟨a, b, rfl, ha, hb⟩ | ⟨a, b, rfl, ha, hb⟩ |
      ⟨a, rfl, ha⟩)
    · exact .inl ⟨_, _, rfl, ⟨_, _, rfl, ⟨c, hc, rfl⟩, rfl⟩, rfl⟩
    · exact .inr (.inl ⟨_, _, rfl, ⟨b, _, hb, ⟨c, hc, rfl⟩, rfl⟩, rfl⟩)
    · exact .inr (.inr (.inl (.inl ⟨_, _, rfl, ⟨a, _, ha, ⟨b, hb, rfl⟩, rfl⟩, rfl⟩)))
    · exact .inr (.inr (.inl (.inr ⟨a, _, ha, ⟨b, hb, rfl⟩, rfl⟩)))
    · exact .inr (.inr (.inr (.inr ⟨a, ha, rfl⟩)))

/-- Groups, each with what `f` adds to it. -/
def groupsWith (f : Text → Text) : Language Char := {x | ∃ g, IsGroup g ∧ x = f g}

theorem mem_groupsWith {f : Text → Text} {x : Text} :
    x ∈ groupsWith f ↔ ∃ g, IsGroup g ∧ x = f g := Iff.rfl

theorem mem_groupsWith_pow {f : Text → Text} {n : Nat} {x : Text} : x ∈ groupsWith f ^ n ↔
    ∃ gs : List Text, gs.length = n ∧ (∀ g ∈ gs, IsGroup g) ∧ x = gs.flatMap f := by
  induction n generalizing x with
  | zero =>
    rw [pow_zero, Language.mem_one]
    constructor
    · rintro rfl
      exact ⟨[], rfl, nofun, rfl⟩
    · rintro ⟨gs, hlength, -, rfl⟩
      rw [List.length_eq_zero_iff.mp hlength, List.flatMap_nil]
  | succ n ih =>
    rw [pow_succ', Language.mem_mul]
    constructor
    · rintro ⟨_, ⟨g, hg, rfl⟩, y, hy, rfl⟩
      obtain ⟨gs, hlength, hgs, rfl⟩ := ih.mp hy
      exact ⟨g :: gs, by rw [List.length_cons, hlength], List.forall_mem_cons.mpr ⟨hg, hgs⟩,
        List.flatMap_cons.symm⟩
    · rintro ⟨gs, hlength, hgs, rfl⟩
      obtain ⟨g, gs, rfl⟩ := List.exists_cons_of_length_eq_add_one hlength
      rw [List.forall_mem_cons] at hgs
      exact ⟨f g, ⟨g, hgs.1, rfl⟩, gs.flatMap f,
        ih.mpr ⟨gs, Nat.succ.inj hlength, hgs.2, rfl⟩, List.flatMap_cons.symm⟩

/-- `g1:g2:`. -/
def closed (gs : List Text) : Text := gs.flatMap fun g => g ++ [':']

/-- `:g1:g2`. -/
def opened (gs : List Text) : Text := gs.flatMap fun g => ':' :: g

theorem reads_chr (c : Char) : Reads (chr c) (mark c) := by
  refine (reads_one fun a => a = c).of_iff ?_
  intro x
  rw [mem_symbol, mem_mark]
  simp only [decide_eq_true_eq, exists_eq_left]

theorem reads_closedGroup : Reads (.seq hexGroup (chr ':')) (groupsWith fun g => g ++ [':']) := by
  refine (reads_hexGroup.seq (reads_chr ':')).of_iff ?_
  intro x
  rw [Language.mem_mul, mem_groupsWith]
  constructor
  · rintro ⟨g, hg, _, rfl, rfl⟩
    exact ⟨g, hg, rfl⟩
  · rintro ⟨g, hg, rfl⟩
    exact ⟨g, hg, [':'], rfl, rfl⟩

theorem reads_openedGroup : Reads (.seq (chr ':') hexGroup) (groupsWith fun g => ':' :: g) := by
  refine ((reads_chr ':').seq reads_hexGroup).of_iff ?_
  intro x
  rw [Language.mem_mul, mem_groupsWith]
  constructor
  · rintro ⟨_, rfl, g, hg, rfl⟩
    exact ⟨g, hg, rfl⟩
  · rintro ⟨g, hg, rfl⟩
    exact ⟨[':'], rfl, g, hg, rfl⟩

end Languages

end NetGuard.Storage
