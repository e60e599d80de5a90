import Mathlib.Data.List.Basic
import Mathlib.Algebra.Order.Group.Nat
import Mathlib.Order.Defs.LinearOrder
import Mathlib.Algebra.BigOperators.Group.List.Basic
import Mathlib.Tactic.Ring

/-! # Lexicographic comparisons

Lists are compared item by item, and one that runs out comes first. A comparison that only
goes as far as both lists reach and then asks for their sizes gives the same. Two comparisons
of the items agree on lists as they do on the first items that differ, and on digits the
order of the lists is that of the numbers they stand for. The parts of a string that is split
at a separator make up the string again.
-/
namespace Lexicographic

variable {α : Type*} {cmp cmp₁ cmp₂ : α → α → Ordering} {as bs cs : List α}

section Common

/-- Two lists as far as both reach. -/
def compareCommon (cmp : α → α → Ordering) : List α → List α → Ordering
  | a :: as, b :: bs => (cmp a b).then (compareCommon cmp as bs)
  | _, _ => .eq

/-- Behind a common front, any size that grows with the list tells which one runs out. -/
theorem compareLex_eq_then_front [Std.LawfulEqCmp cmp] {size : List α → ℕ}
    (hsize : ∀ as b bs, size as < size (as ++ b :: bs)) (front as bs : List α) :
    List.compareLex cmp as bs =
      (compareCommon cmp as bs).then (compare (size (front ++ as)) (size (front ++ bs))) := by
  induction as generalizing front bs with
  | nil =>
    cases bs with
    | nil => simp [compareCommon, List.compareLex]
    | cons b bs =>
      have hlt := hsize front b bs
      rw [List.compareLex_nil_cons, List.append_nil, compare_lt_iff_lt.mpr hlt]
      rfl
  | cons a as ih =>
    cases bs with
    | nil =>
      have hlt := hsize front a as
      rw [List.compareLex_cons_nil, List.append_nil, compare_gt_iff_gt.mpr hlt]
      rfl
    | cons b bs =>
      rw [List.compareLex_cons_cons, compareCommon, Ordering.then_assoc]
      cases hab : cmp a b with
      | lt => rfl
      | gt => rfl
      | eq =>
        obtain rfl := Std.LawfulEqCmp.eq_of_compare hab
        have hrest := ih (front ++ [a]) bs
        simpa [List.append_assoc] using hrest

theorem compareLex_eq_then [Std.LawfulEqCmp cmp] {size : List α → ℕ}
    (hsize : ∀ as b bs, size as < size (as ++ b :: bs)) (as bs : List α) :
    List.compareLex cmp as bs =
      (compareCommon cmp as bs).then (compare (size as) (size bs)) :=
  compareLex_eq_then_front hsize [] as bs

end Common

section Prefix

theorem compareLex_append_self [Std.ReflCmp cmp] (hbs : bs ≠ []) :
    List.compareLex cmp as (as ++ bs) = .lt := by
  induction as with
  | nil =>
    cases bs with
    | nil => exact absurd rfl hbs
    | cons b bs => rfl
  | cons a as ih =>
    have hself : cmp a a = .eq := Std.ReflCmp.compare_self
    rw [List.cons_append, List.compareLex_cons_cons, hself, Ordering.eq_then, ih]

/-- What comes behind a list without continuing it comes behind every continuation of it. -/
theorem compareLex_append_of_lt [Std.LawfulEqCmp cmp] (hlt : List.compareLex cmp as cs = .lt)
    (hnot : ¬ as <+: cs) (bs : List α) : List.compareLex cmp (as ++ bs) cs = .lt := by
  induction as generalizing cs with
  | nil => exact absurd List.nil_prefix hnot
  | cons a as ih =>
    cases cs with
    | nil => simp [List.compareLex_cons_nil] at hlt
    | cons c cs =>
      rw [List.compareLex_cons_cons] at hlt
      rw [List.cons_append, List.compareLex_cons_cons]
      cases hac : cmp a c with
      | lt => rfl
      | gt => simp [hac] at hlt
      | eq =>
        obtain rfl := Std.LawfulEqCmp.eq_of_compare hac
        rw [hac] at hlt
        refine ih hlt ?_
        intro hfront
        exact hnot (List.cons_prefix_cons.mpr ⟨rfl, hfront⟩)

end Prefix

section FirstDifference
variable [DecidableEq α]

/-- The first items that differ are related. -/
def FirstDifference (P : α → α → Prop) : List α → List α → Prop
  | a :: as, b :: bs => if a = b then FirstDifference P as bs else P a b
  | _, _ => True

instance FirstDifference.instDecidable {P : α → α → Prop} [∀ a b, Decidable (P a b)] :
    ∀ as bs, Decidable (FirstDifference P as bs)
  | [], _ => .isTrue trivial
  | _ :: _, [] => .isTrue trivial
  | a :: as, b :: bs =>
    have := FirstDifference.instDecidable (P := P) as bs
    inferInstanceAs (Decidable (if a = b then FirstDifference P as bs else P a b))

theorem compareLex_eq_iff [Std.LawfulEqCmp cmp₁] [Std.LawfulEqCmp cmp₂] (as bs : List α) :
    List.compareLex cmp₁ as bs = List.compareLex cmp₂ as bs ↔
      FirstDifference (fun a b => cmp₁ a b = cmp₂ a b) as bs := by
  induction as generalizing bs with
  | nil => cases bs <;> simp [FirstDifference, List.compareLex]
  | cons a as ih =>
    cases bs with
    | nil => simp [FirstDifference, List.compareLex]
    | cons b bs =>
      rw [List.compareLex_cons_cons, List.compareLex_cons_cons, FirstDifference]
      by_cases hab : a = b
      · subst hab
        have hself₁ : cmp₁ a a = .eq := Std.ReflCmp.compare_self
        have hself₂ : cmp₂ a a = .eq := Std.ReflCmp.compare_self
        rw [if_pos rfl, hself₁, hself₂, Ordering.eq_then, Ordering.eq_then, ih]
      · have hne₁ : cmp₁ a b ≠ .eq := fun h => hab (Std.LawfulEqCmp.eq_of_compare h)
        have hne₂ : cmp₂ a b ≠ .eq := fun h => hab (Std.LawfulEqCmp.eq_of_compare h)
        rw [if_neg hab]
        cases h₁ : cmp₁ a b <;> cases h₂ : cmp₂ a b <;> simp_all

end FirstDifference

theorem compareLex_map {β : Type*} {cmp : β → β → Ordering} (f : α → β) (as bs : List α) :
    List.compareLex cmp (as.map f) (bs.map f) =
      List.compareLex (fun a b => cmp (f a) (f b)) as bs := by
  induction as generalizing bs with
  | nil => cases bs <;> rfl
  | cons a as ih =>
    cases bs with
    | nil => rfl
    | cons b bs =>
      rw [List.map_cons, List.map_cons, List.compareLex_cons_cons, List.compareLex_cons_cons, ih]

section Digits
variable {b : ℕ} {ds es : List ℕ}

/-- The number that digits of base `b` stand for, the highest first. -/
def value (b : ℕ) : List ℕ → ℕ
  | [] => 0
  | d :: ds => d * b ^ ds.length + value b ds

theorem value_lt (hds : ∀ d ∈ ds, d < b) : value b ds < b ^ ds.length := by
  induction ds with
  | nil => exact Nat.one_pos
  | cons d ds ih =>
    obtain ⟨hd, hds⟩ := List.forall_mem_cons.mp hds
    have hrest := ih hds
    have hle : (d + 1) * b ^ ds.length ≤ b * b ^ ds.length := Nat.mul_le_mul_right _ hd
    rw [value, List.length_cons, Nat.pow_succ']
    rw [Nat.add_mul, Nat.one_mul] at hle
    omega

theorem value_append_zeros (ds : List ℕ) (k : ℕ) :
    value b (ds ++ List.replicate k 0) = value b ds * b ^ k := by
  induction ds with
  | nil =>
    induction k with
    | zero => rfl
    | succ k ih =>
      simp only [List.nil_append, value, Nat.zero_mul] at ih ⊢
      rw [List.replicate_succ, value, ih, Nat.zero_mul]
  | cons d ds ih =>
    rw [List.cons_append, value, value, ih, List.length_append, List.length_replicate, pow_add]
    ring

theorem compareLex_eq_compare_value (hlength : ds.length = es.length) (hds : ∀ d ∈ ds, d < b)
    (hes : ∀ e ∈ es, e < b) :
    List.compareLex compare ds es = compare (value b ds) (value b es) := by
  induction ds generalizing es with
  | nil =>
    obtain rfl : es = [] := List.eq_nil_of_length_eq_zero hlength.symm
    rfl
  | cons d ds ih =>
    cases es with
    | nil => simp at hlength
    | cons e es =>
      obtain ⟨hd, hds⟩ := List.forall_mem_cons.mp hds
      obtain ⟨he, hes⟩ := List.forall_mem_cons.mp hes
      have hlength : ds.length = es.length := Nat.succ.inj hlength
      have hlow := value_lt hds
      have hlow' := value_lt hes
      rw [List.compareLex_cons_cons, ih hlength hds hes, value, value, hlength]
      rw [hlength] at hlow
      rcases Nat.lt_trichotomy d e with hlt | rfl | hgt
      · have hle : (d + 1) * b ^ es.length ≤ e * b ^ es.length := Nat.mul_le_mul_right _ hlt
        rw [Nat.add_mul, Nat.one_mul] at hle
        rw [compare_lt_iff_lt.mpr hlt, Ordering.lt_then, eq_comm, compare_lt_iff_lt]
        omega
      · rw [compare_eq_iff_eq.mpr rfl, Ordering.eq_then]
        rcases Nat.lt_trichotomy (value b ds) (value b es) with hlt | heq | hgt
        · rw [compare_lt_iff_lt.mpr hlt, eq_comm, compare_lt_iff_lt]
          omega
        · rw [heq, compare_eq_iff_eq.mpr rfl, compare_eq_iff_eq.mpr rfl]
        · rw [compare_gt_iff_gt.mpr hgt, eq_comm, compare_gt_iff_gt]
          omega
      · have hle : (e + 1) * b ^ es.length ≤ d * b ^ es.length := Nat.mul_le_mul_right _ hgt
        rw [Nat.add_mul, Nat.one_mul] at hle
        rw [compare_gt_iff_gt.mpr hgt, Ordering.gt_then, eq_comm, compare_gt_iff_gt]
        omega

/-- Filling a shorter list up with zeros keeps it from overtaking. -/
theorem compareLex_zeros (hlength : ds.length ≤ es.length) :
    List.compareLex compare (ds ++ List.replicate (es.length - ds.length) 0) es = .gt ↔
      List.compareLex compare ds es = .gt := by
  induction ds generalizing es with
  | nil =>
    induction es with
    | nil => rfl
    | cons e es ih =>
      have hzero : compare 0 e ≠ .gt := by simp [compare_gt_iff_gt]
      have hrest := ih (Nat.zero_le _)
      simp only [List.nil_append, List.length_nil, Nat.sub_zero] at hrest ⊢
      rw [List.length_cons, List.replicate_succ, List.compareLex_cons_cons,
        List.compareLex_nil_cons]
      cases hcmp : compare 0 e with
      | lt => rfl
      | eq =>
        rw [Ordering.eq_then, hrest]
        cases es <;> simp [List.compareLex]
      | gt => exact absurd hcmp hzero
  | cons d ds ih =>
    cases es with
    | nil => simp at hlength
    | cons e es =>
      have hrest := ih (Nat.le_of_succ_le_succ hlength)
      rw [List.length_cons, List.length_cons, Nat.add_sub_add_right, List.cons_append,
        List.compareLex_cons_cons, List.compareLex_cons_cons]
      cases compare d e with
      | lt => rfl
      | eq => exact hrest
      | gt => simp

/-- Digits come behind longer ones if the number comes behind once it is as long. -/
theorem compareLex_eq_gt_iff (hlength : ds.length ≤ es.length) (hb : 0 < b)
    (hds : ∀ d ∈ ds, d < b) (hes : ∀ e ∈ es, e < b) :
    List.compareLex compare ds es = .gt ↔
      value b es < value b ds * b ^ (es.length - ds.length) := by
  have hfilled : ∀ d ∈ ds ++ List.replicate (es.length - ds.length) 0, d < b := by
    intro d hd
    rcases List.mem_append.mp hd with hd | hd
    · exact hds d hd
    · rw [List.eq_of_mem_replicate hd]
      exact hb
  rw [← compareLex_zeros hlength, compareLex_eq_compare_value (by simp; omega) hfilled hes,
    value_append_zeros, compare_gt_iff_gt]

end Digits

section Parts

/-- The length of a string that is made of the parts, and of one more separator. -/
def partsSize (parts : List (List α)) : ℕ := (parts.map fun part => part.length + 1).sum

theorem partsSize_lt (parts : List (List α)) (part : List α) (rest : List (List α)) :
    partsSize parts < partsSize (parts ++ part :: rest) := by
  simp only [partsSize, List.map_append, List.map_cons, List.sum_append, List.sum_cons]
  omega

@[simp] theorem partsSize_reverse (parts : List (List α)) :
    partsSize parts.reverse = partsSize parts := by
  simp [partsSize]

theorem partsSize_splitOn [BEq α] (x : α) (as : List α) :
    partsSize (as.splitOn x) = as.length + 1 := by
  induction as with
  | nil => rfl
  | cons a as ih =>
    rw [List.splitOn_cons_eq_if_modifyHead]
    split
    · simp only [partsSize, List.map_cons, List.sum_cons, List.length_nil, List.length_cons] at ih ⊢
      omega
    · cases hparts : as.splitOn x with
      | nil => exact absurd hparts (List.splitOn_ne_nil x as)
      | cons part parts =>
        rw [hparts] at ih
        simp only [partsSize, List.modifyHead_cons, List.map_cons, List.sum_cons,
          List.length_cons] at ih ⊢
        omega

/-- The sizes of the parts compare as the lengths of the strings. -/
theorem compare_partsSize [BEq α] (x y : α) (as bs : List α) :
    compare (partsSize (as.splitOn x)) (partsSize (bs.splitOn y)) =
      compare as.length bs.length := by
  rw [partsSize_splitOn, partsSize_splitOn]
  simp [compare, compareOfLessAndEq]

theorem splitOn_injective [BEq α] [LawfulBEq α] {x : α} (h : as.splitOn x = bs.splitOn x) :
    as = bs := by
  have hjoined := congrArg [x].intercalate h
  rwa [List.intercalate_splitOn, List.intercalate_splitOn] at hjoined

theorem intercalate_append {x : α} {parts rest : List (List α)} (hparts : parts ≠ [])
    (hrest : rest ≠ []) :
    [x].intercalate (parts ++ rest) = [x].intercalate parts ++ x :: [x].intercalate rest := by
  induction parts with
  | nil => exact absurd rfl hparts
  | cons part parts ih =>
    cases parts with
    | nil => simp [List.intercalate_cons_of_ne_nil hrest]
    | cons next parts =>
      have hnext := ih (List.cons_ne_nil next parts)
      rw [List.cons_append, List.intercalate_cons_of_ne_nil (by simp), hnext,
        List.intercalate_cons_of_ne_nil (List.cons_ne_nil next parts)]
      simp

end Parts

end Lexicographic
