import NetGuard.Library.Lexicographic

/-! # The orders of names and addresses

Names are compared by their parts from the last to the first, addresses from the first to the
last, and both by their lengths when one runs out of parts. That is the lexicographic order of
the parts. The parts are texts, also those of an address: 10 comes before 9.
-/
namespace NetGuard.Storage
open Lexicographic

/-- A Dart string, as the UTF-16 code units that it is compared by. -/
abbrev CodeUnits := List UInt16

def dot : UInt16 := 0x2E
def colon : UInt16 := 0x3A

section Compare

/-- The loop over the parts that both strings have. -/
def compareParts : List CodeUnits → List CodeUnits → Ordering
  | a :: aParts, b :: bParts =>
    let cmp := compare a b
    if cmp ≠ .eq then cmp else compareParts aParts bParts
  | _, _ => .eq

def compareHostnames (a b : CodeUnits) : Ordering :=
  let aParts := (a.splitOn dot).reverse
  let bParts := (b.splitOn dot).reverse
  let cmp := compareParts aParts bParts
  if cmp ≠ .eq then cmp else compare a.length b.length

/-- The order of `bool` comes from a package. -/
def compareIPs (compareBool : Bool → Bool → Ordering) (a b : CodeUnits) : Ordering :=
  let aV6 := a.contains colon
  let bV6 := b.contains colon
  if aV6 ≠ bV6 then compareBool aV6 bV6
  else
    let aParts := a.splitOn (if aV6 then colon else dot)
    let bParts := b.splitOn (if bV6 then colon else dot)
    let cmp := compareParts aParts bParts
    if cmp ≠ .eq then cmp else compare a.length b.length

theorem ite_ne_eq (o o' : Ordering) : (if o ≠ .eq then o else o') = o.then o' := by
  cases o <;> rfl

theorem compareParts_eq (as bs : List CodeUnits) : compareParts as bs = compareCommon compare as bs := by
  fun_induction compareCommon compare as bs with
  | case1 a as b bs ih => rw [compareParts, ite_ne_eq, ih]
  | case2 as bs hnot =>
    unfold compareParts
    split
    next a as b bs => exact absurd rfl (hnot a as b bs rfl)
    next => rfl

end Compare

section Hostnames
variable {a b c d s : CodeUnits}

theorem compareHostnames_eq (a b : CodeUnits) :
    compareHostnames a b =
      List.compareLex compare (a.splitOn dot).reverse (b.splitOn dot).reverse := by
  rw [compareLex_eq_then partsSize_lt, partsSize_reverse, partsSize_reverse, compare_partsSize,
    ← compareParts_eq, ← ite_ne_eq]
  rfl

theorem transCmp_compareHostnames : Std.TransCmp compareHostnames := by
  have hparts : compareHostnames = compareOn fun a : CodeUnits => (a.splitOn dot).reverse := by
    funext a b
    exact compareHostnames_eq a b
  rw [hparts]
  infer_instance

theorem lawfulEqCmp_compareHostnames : Std.LawfulEqCmp compareHostnames where
  compare_self {a} := by
    rw [compareHostnames_eq]
    exact Std.ReflCmp.compare_self
  eq_of_compare {a b} h := by
    rw [compareHostnames_eq] at h
    have hparts := Std.LawfulEqCmp.eq_of_compare h
    exact splitOn_injective (List.reverse_injective hparts)

/-- The domain and, before it, more labels. -/
def SubdomainOf (s d : CodeUnits) : Prop := ∃ labels, s = labels ++ dot :: d

theorem SubdomainOf.parts (h : SubdomainOf s d) : ∃ parts, parts ≠ [] ∧
    (s.splitOn dot).reverse = (d.splitOn dot).reverse ++ parts := by
  obtain ⟨labels, rfl⟩ := h
  refine ⟨(labels.splitOn dot).reverse, by simp, ?_⟩
  rw [List.splitOn_append_cons_self, List.reverse_append]

theorem subdomainOf_of_front (hne : c ≠ d)
    (hfront : (d.splitOn dot).reverse <+: (c.splitOn dot).reverse) : SubdomainOf c d := by
  obtain ⟨labels, hlabels⟩ : ∃ labels, labels ++ d.splitOn dot = c.splitOn dot :=
    List.reverse_prefix.mp hfront
  have hsome : labels ≠ [] := by
    rintro rfl
    exact hne (splitOn_injective hlabels).symm
  refine ⟨[dot].intercalate labels, ?_⟩
  have hjoined := congrArg [dot].intercalate hlabels
  rwa [intercalate_append hsome (List.splitOn_ne_nil dot d), List.intercalate_splitOn,
    List.intercalate_splitOn, eq_comm] at hjoined

/-- The subdomains of a domain come directly behind it, before all other names. -/
structure GroupsSubdomains (cmp : CodeUnits → CodeUnits → Ordering) : Prop where
  after : ∀ d s, SubdomainOf s d → cmp d s = .lt
  before : ∀ d s c, SubdomainOf s d → c ≠ d → ¬ SubdomainOf c d → cmp d c = .lt → cmp s c = .lt

theorem groupsSubdomains_compareHostnames : GroupsSubdomains compareHostnames where
  after d s hs := by
    obtain ⟨parts, hne, hparts⟩ := hs.parts
    rw [compareHostnames_eq, hparts]
    exact compareLex_append_self hne
  before d s c hs hne hc hlt := by
    obtain ⟨parts, -, hparts⟩ := hs.parts
    rw [compareHostnames_eq] at hlt ⊢
    rw [hparts]
    exact compareLex_append_of_lt hlt (fun hfront => hc (subdomainOf_of_front hne hfront)) parts

end Hostnames

section Addresses
variable {compareBool : Bool → Bool → Ordering} {a b : CodeUnits}

/-- `false` comes before `true`. -/
structure FalseFirst (compareBool : Bool → Bool → Ordering) : Prop where
  lt : compareBool false true = .lt
  gt : compareBool true false = .gt

def isV6 (a : CodeUnits) : Bool := a.contains colon

def ipParts (a : CodeUnits) : List CodeUnits := a.splitOn (if isV6 a then colon else dot)

theorem compareIPs_eq (h : FalseFirst compareBool) (a b : CodeUnits) :
    compareIPs compareBool a b = compareLex (compareOn isV6) (compareOn ipParts) a b := by
  have hparts : (compare (ipParts a) (ipParts b) : Ordering) =
      (compareParts (ipParts a) (ipParts b)).then (compare a.length b.length) := by
    rw [compareParts_eq, ← compare_partsSize]
    exact compareLex_eq_then partsSize_lt _ _
  rw [compareLex, compareOn, compareOn, hparts]
  simp only [compareIPs, ite_ne_eq, ipParts, isV6]
  have hlt : compare false true = Ordering.lt := rfl
  have hgt : compare true false = Ordering.gt := rfl
  by_cases ha : colon ∈ a <;> by_cases hb : colon ∈ b <;> simp [ha, hb, h.lt, h.gt, hlt, hgt]

theorem transCmp_compareIPs (h : FalseFirst compareBool) : Std.TransCmp (compareIPs compareBool) := by
  have hlex : compareIPs compareBool = compareLex (compareOn isV6) (compareOn ipParts) := by
    funext a b
    exact compareIPs_eq h a b
  rw [hlex]
  infer_instance

theorem lawfulEqCmp_compareIPs (h : FalseFirst compareBool) :
    Std.LawfulEqCmp (compareIPs compareBool) where
  compare_self {a} := by
    rw [compareIPs_eq h]
    exact Std.ReflCmp.compare_self
  eq_of_compare {a b} heq := by
    rw [compareIPs_eq h, compareLex_eq_eq] at heq
    have hversion : isV6 a = isV6 b := Std.LawfulEqCmp.eq_of_compare heq.1
    have hparts : ipParts a = ipParts b := Std.LawfulEqCmp.eq_of_compare heq.2
    rw [ipParts, ipParts, hversion] at hparts
    exact splitOn_injective hparts

theorem compareIPs_v4_v6 (h : FalseFirst compareBool) (ha : isV6 a = false) (hb : isV6 b = true) :
    compareIPs compareBool a b = .lt := by
  rw [compareIPs_eq h, compareLex, compareOn, ha, hb]
  rfl

end Addresses

section Octets

/-- An octet in decimal. -/
def decimal (n : UInt8) : CodeUnits :=
  (Nat.toDigits 10 n.toNat).map fun c => UInt16.ofNat c.toNat

def octetDigits (n : ℕ) : List ℕ :=
  if n < 10 then [n] else if n < 100 then [n / 10, n % 10] else [n / 100, n / 10 % 10, n % 10]

theorem decimal_eq (n : UInt8) :
    decimal n = (octetDigits n.toNat).map fun d => UInt16.ofNat (48 + d) := by
  have hall : ∀ n < 256, ((Nat.toDigits 10 n).map fun c => UInt16.ofNat c.toNat) =
      (octetDigits n).map fun d => UInt16.ofNat (48 + d) := by decide +kernel
  exact hall n.toNat n.toNat_lt

theorem octetDigits_lt {n : ℕ} (hn : n < 256) : ∀ d ∈ octetDigits n, d < 10 := by
  unfold octetDigits
  split
  · simpa
  split
  · simp
    omega
  · simp
    omega

theorem value_octetDigits (n : ℕ) : value 10 (octetDigits n) = n := by
  unfold octetDigits
  split
  · simp [value]
  split
  · simp [value]
    omega
  · simp [value]
    omega

theorem length_octetDigits (n : ℕ) :
    (octetDigits n).length = if n < 10 then 1 else if n < 100 then 2 else 3 := by
  unfold octetDigits
  split
  · rfl
  split
  · rfl
  · rfl

theorem length_octetDigits_le {m n : ℕ} (h : m ≤ n) :
    (octetDigits m).length ≤ (octetDigits n).length := by
  rw [length_octetDigits, length_octetDigits]
  split_ifs <;> omega

theorem length_decimal (n : UInt8) : (decimal n).length = (octetDigits n.toNat).length := by
  rw [decimal_eq, List.length_map]

theorem compare_toNat (x y : UInt16) : compare x y = compare x.toNat y.toNat := by
  simp only [compare, compareOfLessAndEq, UInt16.lt_iff_toNat_lt, ← UInt16.toNat_inj]

/-- The texts of two octets compare as their digits. -/
theorem compare_decimal (x y : UInt8) :
    compare (decimal x) (decimal y) =
      List.compareLex compare (octetDigits x.toNat) (octetDigits y.toNat) := by
  have hcodes (n : UInt8) : (decimal n).map UInt16.toNat = (octetDigits n.toNat).map (48 + ·) := by
    rw [decimal_eq, List.map_map]
    apply List.map_congr_left
    intro d hd
    have hlt := octetDigits_lt n.toNat_lt d hd
    rw [Function.comp_apply, UInt16.toNat_ofNat', Nat.mod_eq_of_lt (by omega)]
  have hshift : (fun d e : ℕ => compare (48 + d) (48 + e)) = compare := by
    funext d e
    simp [compare, compareOfLessAndEq]
  calc compare (decimal x) (decimal y)
      = List.compareLex (fun c d : UInt16 => compare c.toNat d.toNat) (decimal x) (decimal y) :=
        congrArg (fun cmp => List.compareLex cmp (decimal x) (decimal y))
          (funext fun c => funext fun d => compare_toNat c d)
    _ = List.compareLex compare ((octetDigits x.toNat).map (48 + ·))
          ((octetDigits y.toNat).map (48 + ·)) := by rw [← compareLex_map, hcodes, hcodes]
    _ = List.compareLex compare (octetDigits x.toNat) (octetDigits y.toNat) := by
        rw [compareLex_map, hshift]

theorem decimal_injective {x y : UInt8} (h : decimal x = decimal y) : x = y := by
  have hdigits : List.compareLex compare (octetDigits x.toNat) (octetDigits y.toNat) = .eq := by
    rw [← compare_decimal, h]
    exact Std.ReflCmp.compare_self
  have hvalue := congrArg (value 10) (Std.LawfulEqCmp.eq_of_compare hdigits)
  rw [value_octetDigits, value_octetDigits] at hvalue
  exact UInt8.toNat_inj.mp hvalue

instance lawfulEqCmp_decimal :
    Std.LawfulEqCmp fun x y : UInt8 => compare (decimal x) (decimal y) where
  compare_self := Std.ReflCmp.compare_self
  eq_of_compare h := decimal_injective (Std.LawfulEqCmp.eq_of_compare h)

instance lawfulEqCmp_octet : Std.LawfulEqCmp fun x y : UInt8 => compare x.toNat y.toNat where
  compare_self := Std.ReflCmp.compare_self
  eq_of_compare h := UInt8.toNat_inj.mp (Std.LawfulEqCmp.eq_of_compare h)

/-- The smaller of two octets does not exceed the other once zeros have made it as long. -/
def TextOrder (x y : UInt8) : Prop :=
  (x < y → x.toNat * 10 ^ ((decimal y).length - (decimal x).length) ≤ y.toNat) ∧
    (y < x → y.toNat * 10 ^ ((decimal x).length - (decimal y).length) ≤ x.toNat)

instance (x y : UInt8) : Decidable (TextOrder x y) := inferInstanceAs (Decidable (_ ∧ _))

theorem compare_decimal_lt_iff {x y : UInt8} (hlt : x < y) :
    compare (decimal x) (decimal y) = .lt ↔
      x.toNat * 10 ^ ((decimal y).length - (decimal x).length) ≤ y.toNat := by
  have hlength := length_octetDigits_le (Nat.le_of_lt (UInt8.lt_iff_toNat_lt.mp hlt))
  have hgt := compareLex_eq_gt_iff hlength (by decide) (octetDigits_lt x.toNat_lt)
    (octetDigits_lt y.toNat_lt)
  rw [value_octetDigits, value_octetDigits, ← length_decimal, ← length_decimal,
    ← compare_decimal] at hgt
  have hne : compare (decimal x) (decimal y) ≠ .eq := by
    intro heq
    rw [decimal_injective (Std.LawfulEqCmp.eq_of_compare heq)] at hlt
    exact UInt8.lt_irrefl y hlt
  rw [← Nat.not_lt, ← hgt]
  cases hcmp : compare (decimal x) (decimal y) with
  | lt => simp
  | eq => exact absurd hcmp hne
  | gt => simp

theorem compare_decimal_iff (x y : UInt8) :
    compare (decimal x) (decimal y) = compare x.toNat y.toNat ↔ TextOrder x y := by
  rw [TextOrder]
  rcases Nat.lt_trichotomy x.toNat y.toNat with hlt | heq | hgt
  · have hlt' : x < y := UInt8.lt_iff_toNat_lt.mpr hlt
    have hnot : ¬ y < x := UInt8.not_lt.mpr (UInt8.le_of_lt hlt')
    rw [compare_lt_iff_lt.mpr hlt, compare_decimal_lt_iff hlt']
    simp [hlt', hnot]
  · obtain rfl := UInt8.toNat_inj.mp heq
    have hself : compare (decimal x) (decimal x) = .eq := Std.ReflCmp.compare_self
    rw [hself, compare_eq_iff_eq.mpr rfl]
    simp [UInt8.lt_irrefl]
  · have hgt' : y < x := UInt8.lt_iff_toNat_lt.mpr hgt
    have hnot : ¬ x < y := UInt8.not_lt.mpr (UInt8.le_of_lt hgt')
    rw [compare_gt_iff_gt.mpr hgt, Std.OrientedCmp.gt_iff_lt, compare_decimal_lt_iff hgt']
    simp [hgt', hnot]

theorem not_mem_decimal {code : UInt16} (hcode : code.toNat < 48 ∨ 58 ≤ code.toNat) (n : UInt8) :
    code ∉ decimal n := by
  intro hmem
  rw [decimal_eq, List.mem_map] at hmem
  obtain ⟨d, hd, rfl⟩ := hmem
  have hlt := octetDigits_lt n.toNat_lt d hd
  rw [UInt16.toNat_ofNat', Nat.mod_eq_of_lt (by omega)] at hcode
  omega

end Octets

section Numeric

structure Ipv4 where
  a : UInt8
  b : UInt8
  c : UInt8
  d : UInt8
  deriving DecidableEq, Repr

namespace Ipv4

def octets (ip : Ipv4) : List UInt8 := [ip.a, ip.b, ip.c, ip.d]

/-- The address as a number of 32 bits. -/
def number (ip : Ipv4) : ℕ := value 256 (ip.octets.map UInt8.toNat)

/-- The dotted notation. -/
def text (ip : Ipv4) : CodeUnits := [dot].intercalate (ip.octets.map decimal)

theorem splitOn_text (ip : Ipv4) : ip.text.splitOn dot = ip.octets.map decimal := by
  apply List.splitOn_intercalate dot
  · intro part hpart
    obtain ⟨n, -, rfl⟩ := List.mem_map.mp hpart
    exact not_mem_decimal (by decide) n
  · simp [octets]

theorem isV6_text (ip : Ipv4) : isV6 ip.text = false := by
  have hnot (n : UInt8) : colon ∉ decimal n := not_mem_decimal (by decide) n
  have hdot : colon ≠ dot := by decide
  simp [isV6, text, octets, List.intercalate_cons_of_ne_nil, hnot, hdot]

theorem compare_number (ip ip' : Ipv4) :
    compare ip.number ip'.number =
      List.compareLex (fun x y : UInt8 => compare x.toNat y.toNat) ip.octets ip'.octets := by
  have hbound (ip : Ipv4) : ∀ n ∈ ip.octets.map UInt8.toNat, n < 256 := by
    intro n hn
    obtain ⟨x, -, rfl⟩ := List.mem_map.mp hn
    exact x.toNat_lt
  rw [← compareLex_map, compareLex_eq_compare_value (by simp [octets]) (hbound ip) (hbound ip')]
  rfl

end Ipv4

variable {compareBool : Bool → Bool → Ordering}

theorem compareIPs_text (h : FalseFirst compareBool) (ip ip' : Ipv4) :
    compareIPs compareBool ip.text ip'.text =
      List.compareLex (fun x y : UInt8 => compare (decimal x) (decimal y)) ip.octets ip'.octets := by
  have hparts (ip : Ipv4) : ipParts ip.text = ip.octets.map decimal := by
    rw [ipParts, ip.isV6_text]
    exact ip.splitOn_text
  rw [compareIPs_eq h, compareLex, compareOn, compareOn, ip.isV6_text, ip'.isV6_text, hparts,
    hparts, ← compareLex_map]
  rfl

/-- Two addresses compare as numbers exactly if the first octets that differ do as texts. -/
theorem compareIPs_text_iff (h : FalseFirst compareBool) (ip ip' : Ipv4) :
    compareIPs compareBool ip.text ip'.text = compare ip.number ip'.number ↔
      FirstDifference TextOrder ip.octets ip'.octets := by
  have hrelation : (fun x y : UInt8 => compare (decimal x) (decimal y) = compare x.toNat y.toNat) =
      TextOrder := by
    funext x y
    exact propext (compare_decimal_iff x y)
  rw [compareIPs_text h, Ipv4.compare_number, compareLex_eq_iff, hrelation]

/-- Both orders are total, a name comes before its subdomains and these before all others, and
IPv4 comes before IPv6. IPv4 addresses are in numeric order exactly where the first octets
that differ are as texts. -/
theorem orders_usable_iff (h : FalseFirst compareBool) :
    (Std.TransCmp compareHostnames ∧ Std.LawfulEqCmp compareHostnames ∧
      GroupsSubdomains compareHostnames) ∧
    (Std.TransCmp (compareIPs compareBool) ∧ Std.LawfulEqCmp (compareIPs compareBool)) ∧
    (∀ (ip : Ipv4) (b : CodeUnits), isV6 b = true → compareIPs compareBool ip.text b = .lt) ∧
    ∀ ip ip' : Ipv4, compareIPs compareBool ip.text ip'.text = compare ip.number ip'.number ↔
      FirstDifference TextOrder ip.octets ip'.octets :=
  ⟨⟨transCmp_compareHostnames, lawfulEqCmp_compareHostnames, groupsSubdomains_compareHostnames⟩,
    ⟨transCmp_compareIPs h, lawfulEqCmp_compareIPs h⟩,
    fun ip _ hb => compareIPs_v4_v6 h ip.isV6_text hb, compareIPs_text_iff h⟩

/-- The order of the package. -/
theorem falseFirst_compare : FalseFirst compare := ⟨rfl, rfl⟩

theorem orders_usable_sample :
    compareIPs compare (Ipv4.text ⟨10, 0, 0, 1⟩) (Ipv4.text ⟨10, 0, 0, 10⟩) = .lt := by
  rw [((orders_usable_iff falseFirst_compare).2.2.2 _ _).mpr (by decide)]
  decide

/-- The text of 10 comes before that of 9. -/
theorem not_compareIPs_numeric :
    ¬ ∀ ip ip' : Ipv4, compareIPs compare ip.text ip'.text = compare ip.number ip'.number := by
  intro hall
  have hnine := hall ⟨9, 0, 0, 1⟩ ⟨10, 0, 0, 1⟩
  rw [compareIPs_text_iff falseFirst_compare] at hnine
  exact absurd hnine (by decide)

end Numeric

end NetGuard.Storage
