import NetGuard.Engine.Packet

/-! # The order of sequence numbers

`compare_u32` orders two numbers by the distance from one to the other, up to half of the
circle. At the last distance before half it is the plain order of the two values that
decides, so there the answer is not a matter of the distance any more.
-/
namespace NetGuard.Engine
open Serial

variable {a b : UInt32}

theorem compareU32_cases (a b : UInt32) :
    compareU32 a b = 0 ∧ a = b ∨ compareU32 a b = -1 ∧ a ≠ b ∨ compareU32 a b = 1 ∧ a ≠ b := by
  unfold compareU32
  split
  next heq => exact .inl ⟨rfl, heq⟩
  next hne =>
    split
    · exact .inr (.inl ⟨rfl, hne⟩)
    · exact .inr (.inr ⟨rfl, hne⟩)

theorem compareU32_eq_zero_iff : compareU32 a b = 0 ↔ a = b := by
  rcases compareU32_cases a b with ⟨hcompare, heq⟩ | ⟨hcompare, hne⟩ | ⟨hcompare, hne⟩
  · exact iff_of_true hcompare heq
  · exact iff_of_false (by omega) hne
  · exact iff_of_false (by omega) hne

theorem compareU32_eq_neg_one_iff : compareU32 a b = -1 ↔ compareU32 a b < 0 := by
  rcases compareU32_cases a b with ⟨hcompare, -⟩ | ⟨hcompare, -⟩ | ⟨hcompare, -⟩ <;> omega

theorem compareU32_eq_one_iff : compareU32 a b = 1 ↔ a ≠ b ∧ ¬ compareU32 a b < 0 := by
  rw [← compareU32_pos_iff]
  rcases compareU32_cases a b with ⟨hcompare, -⟩ | ⟨hcompare, -⟩ | ⟨hcompare, -⟩ <;> omega

theorem lt_of_compareU32_neg (hhalf : ahead a b ≠ 2 ^ 31) (h : compareU32 a b < 0) : Lt a b := by
  have hle := ahead_of_compareU32_neg h
  refine ⟨?_, by omega⟩
  rw [Nat.pos_iff_ne_zero]
  intro hzero
  exact (compareU32_neg_iff.mp h).1 (ahead_eq_zero.mp hzero).symm

/-- Away from the last distance before half of the circle only the distance counts. -/
theorem compareU32_neg_iff_lt (hhalf : ahead a b ≠ 2 ^ 31) (hlast : ahead a b ≠ 2 ^ 31 - 1) :
    compareU32 a b < 0 ↔ Lt a b := by
  constructor
  · exact lt_of_compareU32_neg hhalf
  · intro hlt
    have hless := hlt.2
    exact compareU32_before hlt.1 (by omega)

/-- At that distance the number that wraps around counts as the one before. -/
theorem compareU32_last (hlast : ahead a b = 2 ^ 31 - 1) : compareU32 a b < 0 ↔ b < a := by
  rw [compareU32_neg_iff, hlast, UInt32.lt_iff_toNat_lt]
  have hne : a ≠ b := by
    rintro rfl
    simp at hlast
  constructor
  · rintro ⟨-, hless | ⟨-, hplain⟩⟩
    · exact absurd hless (Nat.lt_irrefl _)
    · exact hplain
  · intro hplain
    exact ⟨hne, .inr ⟨by decide, hplain⟩⟩

theorem ahead_add_right (a b c : UInt32) : ahead (a + c) (b + c) = ahead a b := by
  have ha := a.toNat_lt
  have hb := b.toNat_lt
  have hc := c.toNat_lt
  simp only [ahead_eq, UInt32.toNat_add]
  omega

/-- What a comparison of serial numbers answers for `a` and `b`. -/
structure ComparesSerially (a b : UInt32) : Prop where
  equal : compareU32 a b = 0 ↔ a = b
  before : compareU32 a b = -1 ↔ 0 < ahead a b ∧ ahead a b < 2 ^ 31
  after : compareU32 a b = 1 ↔ a ≠ b ∧ ¬ (0 < ahead a b ∧ ahead a b < 2 ^ 31)
  antisymm : compareU32 b a = -compareU32 a b
  shift : ∀ c, compareU32 (a + c) (b + c) = compareU32 a b

theorem compareU32_add_right (hhalf : ahead a b ≠ 2 ^ 31) (hlast : ahead a b ≠ 2 ^ 31 - 1)
    (c : UInt32) : compareU32 (a + c) (b + c) = compareU32 a b := by
  have hahead := ahead_add_right a b c
  have heq : a + c = b + c ↔ a = b := UInt32.add_left_inj c
  have hneg : compareU32 (a + c) (b + c) < 0 ↔ compareU32 a b < 0 := by
    rw [compareU32_neg_iff_lt hhalf hlast, compareU32_neg_iff_lt (by rwa [hahead]) (by rwa [hahead]),
      Lt, Lt, hahead]
  rcases compareU32_cases a b with ⟨hcompare, hsame⟩ | ⟨hcompare, hne⟩ | ⟨hcompare, hne⟩
  · rw [hcompare, compareU32_eq_zero_iff.mpr (heq.mpr hsame)]
  · rw [hcompare, compareU32_eq_neg_one_iff, hneg]
    omega
  · rw [hcompare, compareU32_eq_one_iff, hneg]
    exact ⟨fun h => hne (heq.mp h), by omega⟩

/-- Two numbers at the last distance, moved so that the first is 0, are told apart
the other way than two of which the second has wrapped. -/
theorem not_compareU32_add_right (hlast : ahead a b = 2 ^ 31 - 1) :
    ∃ c, compareU32 (a + c) (b + c) ≠ compareU32 a b := by
  by_contra hshift
  push Not at hshift
  have hwrapped := hshift (0 - b)
  have hplain := hshift (0 - a)
  have hneg (c : UInt32) : compareU32 (a + c) (b + c) < 0 ↔ b + c < a + c :=
    compareU32_last (by rwa [ahead_add_right])
  have ha := a.toNat_lt
  have hb := b.toNat_lt
  have hwraps : b + (0 - b) < a + (0 - b) := by
    rw [ahead_eq] at hlast
    simp only [UInt32.lt_iff_toNat_lt, UInt32.toNat_add, UInt32.toNat_sub, UInt32.toNat_zero]
    omega
  have hstays : ¬ b + (0 - a) < a + (0 - a) := by
    rw [ahead_eq] at hlast
    simp only [UInt32.lt_iff_toNat_lt, UInt32.toNat_add, UInt32.toNat_sub, UInt32.toNat_zero]
    omega
  have hbefore := (hneg _).mpr hwraps
  rw [hwrapped] at hbefore
  rw [← hneg, hplain] at hstays
  exact hstays hbefore

theorem compareU32_antisymm (hhalf : ahead a b ≠ 2 ^ 31) (hlast : ahead a b ≠ 2 ^ 31 - 1)
    (hplain : ¬ (b < a ∧ a - b = 0x7FFFFFFF)) : compareU32 b a = -compareU32 a b := by
  rcases compareU32_cases a b with ⟨hcompare, rfl⟩ | ⟨hcompare, hne⟩ | ⟨hcompare, hne⟩
  · simp [compareU32]
  · have hlt := (compareU32_neg_iff_lt hhalf hlast).mp (by omega)
    rw [hcompare, compareU32_eq_one_iff.mpr]
    · omega
    · refine ⟨hne.symm, ?_⟩
      intro hneg
      have hswap := hlt.ahead_gt
      have hle := ahead_of_compareU32_neg hneg
      omega
  · have hnot : ¬ Lt a b := by
      rw [← compareU32_neg_iff_lt hhalf hlast]
      omega
    have hpos : ahead a b ≠ 0 := fun h => hne (ahead_eq_zero.mp h).symm
    have hswap := ahead_swap hne
    have hbound := ahead_lt a b
    have hback : 0 < ahead b a ∧ ahead b a < 2 ^ 31 := by
      rw [Lt] at hnot
      omega
    rw [hcompare, compareU32_eq_neg_one_iff]
    by_cases hfar : ahead b a = 2 ^ 31 - 1
    · -- the way back has the last distance, and `b` has wrapped
      rw [compareU32_last hfar]
      by_contra hless
      apply hplain
      have hvalues : a.toNat ≠ b.toNat := fun h => hne (UInt32.toNat_inj.mp h)
      rw [UInt32.lt_iff_toNat_lt] at hless ⊢
      exact ⟨by omega, UInt32.toNat_inj.mp hfar⟩
    · exact compareU32_before hback.1 (by omega)

theorem not_compareU32_antisymm (hplain : b < a ∧ a - b = 0x7FFFFFFF) :
    compareU32 a b = 1 ∧ compareU32 b a = 1 := by
  obtain ⟨hless, hdistance⟩ := hplain
  have hfar : ahead b a = 2 ^ 31 - 1 := congrArg UInt32.toNat hdistance
  have hne : a ≠ b := by
    rintro rfl
    simp at hfar
  have hswap := ahead_swap hne
  rw [compareU32_eq_one_iff, compareU32_eq_one_iff, compareU32_last hfar]
  refine ⟨⟨hne, ?_⟩, hne.symm, ?_⟩
  · intro hneg
    have hle := ahead_of_compareU32_neg hneg
    omega
  · intro hwrapped
    rw [UInt32.lt_iff_toNat_lt] at hless hwrapped
    omega

/-- The comparison is that of serial numbers exactly away from the pairs at the last
distance before half of the circle, and from those whose values differ by it. -/
theorem comparesSerially_iff (a b : UInt32) (hhalf : ahead a b ≠ 2 ^ 31) :
    ComparesSerially a b ↔ ahead a b ≠ 2 ^ 31 - 1 ∧ ¬ (b < a ∧ a - b = 0x7FFFFFFF) := by
  constructor
  · intro h
    refine ⟨?_, ?_⟩
    · intro hlast
      obtain ⟨c, hc⟩ := not_compareU32_add_right hlast
      exact hc (h.shift c)
    · intro hplain
      obtain ⟨hforth, hback⟩ := not_compareU32_antisymm hplain
      have hanti := h.antisymm
      rw [hforth, hback] at hanti
      exact absurd hanti (by decide)
  · rintro ⟨hlast, hplain⟩
    have hneg := compareU32_neg_iff_lt hhalf hlast
    exact ⟨compareU32_eq_zero_iff, compareU32_eq_neg_one_iff.trans hneg,
      compareU32_eq_one_iff.trans (and_congr_right fun _ => not_congr hneg),
      compareU32_antisymm hhalf hlast hplain, compareU32_add_right hhalf hlast⟩

theorem comparesSerially_sample : ComparesSerially 0xFFFFFFFF 5 :=
  (comparesSerially_iff 0xFFFFFFFF 5 (by decide)).mpr (by decide)

/-- 0 is less than half of the circle before 0x7FFFFFFF, but compares behind it, as that
does behind 0; and both moved on by 0x80000001 compare the other way. -/
theorem not_comparesSerially :
    (0 < ahead 0 0x7FFFFFFF ∧ ahead 0 0x7FFFFFFF < 2 ^ 31) ∧ compareU32 0 0x7FFFFFFF = 1 ∧
      compareU32 0x7FFFFFFF 0 = 1 ∧
      compareU32 (0 + 0x80000001) (0x7FFFFFFF + 0x80000001) = -1 := by
  decide

end NetGuard.Engine
