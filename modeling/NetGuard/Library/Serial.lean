import Mathlib.Data.List.Basic
import Mathlib.Algebra.Group.Nat.Defs

/-! # Serial numbers

Counters of 32 bits that wrap. `ahead r s` is how far `s` lies ahead of `r` on the
circle. Positions counted from a base are natural numbers without a wrap; two of them
that lie close together can be told apart by their counters.
-/
namespace Serial

def ahead (r s : UInt32) : ℕ := (s - r).toNat

def shift (base : UInt32) (n : ℕ) : UInt32 := base + UInt32.ofNat n

theorem ahead_lt (r s : UInt32) : ahead r s < 2 ^ 32 := (s - r).toNat_lt

theorem ahead_eq (r s : UInt32) : ahead r s = (2 ^ 32 - r.toNat + s.toNat) % 2 ^ 32 := by
  simp [ahead, UInt32.toNat_sub]

theorem shift_toNat (base : UInt32) (n : ℕ) : (shift base n).toNat = (base.toNat + n) % 2 ^ 32 := by
  simp [shift, UInt32.toNat_add, UInt32.toNat_ofNat']

@[simp] theorem shift_zero (base : UInt32) : shift base 0 = base := by simp [shift]

@[simp] theorem ahead_self (r : UInt32) : ahead r r = 0 := by simp [ahead]

theorem shift_add (base : UInt32) (m n : ℕ) : shift (shift base m) n = shift base (m + n) := by
  apply UInt32.toNat_inj.mp
  simp only [shift_toNat]
  omega

theorem shift_ahead (r s : UInt32) : shift r (ahead r s) = s := by
  apply UInt32.toNat_inj.mp
  have hr := r.toNat_lt
  have hs := s.toNat_lt
  simp only [shift_toNat, ahead_eq]
  omega

theorem ahead_shift (r : UInt32) (n : ℕ) : ahead r (shift r n) = n % 2 ^ 32 := by
  have hr := r.toNat_lt
  simp only [shift_toNat, ahead_eq]
  omega

theorem ahead_eq_zero {r s : UInt32} : ahead r s = 0 ↔ s = r := by
  constructor
  · intro h
    simpa [h] using (shift_ahead r s).symm
  · rintro rfl
    simp

/-- Going forward from `r` to `s` and from `s` to `r` is once around the circle. -/
theorem ahead_swap {r s : UInt32} (h : r ≠ s) : ahead r s + ahead s r = 2 ^ 32 := by
  have hr := r.toNat_lt
  have hs := s.toNat_lt
  have hne : r.toNat ≠ s.toNat := fun he => h (UInt32.toNat_inj.mp he)
  simp only [ahead_eq]
  omega

/-- One number comes before another when it is less than half of the circle behind it. -/
def Lt (r s : UInt32) : Prop := 0 < ahead r s ∧ ahead r s < 2 ^ 31

def Le (r s : UInt32) : Prop := ahead r s < 2 ^ 31

instance (r s : UInt32) : Decidable (Lt r s) :=
  inferInstanceAs (Decidable (0 < ahead r s ∧ ahead r s < 2 ^ 31))

instance (r s : UInt32) : Decidable (Le r s) := inferInstanceAs (Decidable (ahead r s < 2 ^ 31))

theorem Lt.ne {r s : UInt32} (h : Lt r s) : r ≠ s := by
  rintro rfl
  exact absurd h.1 (by simp)

theorem Lt.ahead_gt {r s : UInt32} (h : Lt r s) : 2 ^ 31 < ahead s r := by
  have hswap := ahead_swap h.ne
  have hlt := h.2
  omega

theorem ahead_eq_sub {base r s : UInt32} (h : ahead base r ≤ ahead base s) :
    ahead r s = ahead base s - ahead base r := by
  have hbase := base.toNat_lt
  have hr := r.toNat_lt
  have hs := s.toNat_lt
  simp only [ahead_eq] at *
  omega

/-- Within half of the circle the order is that of the positions. -/
theorem lt_iff_ahead_lt {base r s : UInt32} (hr : ahead base r < 2 ^ 31)
    (hs : ahead base s < 2 ^ 31) : Lt r s ↔ ahead base r < ahead base s := by
  rw [Lt]
  rcases Nat.le_total (ahead base r) (ahead base s) with hle | hle
  · rw [ahead_eq_sub hle]
    omega
  · have hback := ahead_eq_sub hle
    by_cases hsame : r = s
    · subst hsame
      simp
    · have hswap := ahead_swap hsame
      omega

theorem ahead_shift_shift (base : UInt32) {m n : ℕ} (h : m ≤ n) :
    ahead (shift base m) (shift base n) = (n - m) % 2 ^ 32 := by
  have hb := base.toNat_lt
  simp only [shift_toNat, ahead_eq]
  omega

theorem shift_ne {base : UInt32} {m n : ℕ} (h : m < n) (hclose : n - m < 2 ^ 32) :
    shift base m ≠ shift base n := by
  intro he
  have hz := ahead_shift_shift base (Nat.le_of_lt h)
  rw [he, ahead_self, Nat.mod_eq_of_lt hclose] at hz
  omega

section Blocks
variable {α : Type*} {start seq : UInt32} {data : List α} {blocks : List (UInt32 × List α)}

/-- Blocks that follow each other on the circle: each has the number of its first item
and starts where the one before it ends. -/
def Consecutive (start : UInt32) : List (UInt32 × List α) → Prop
  | [] => True
  | (seq, data) :: rest => seq = start ∧ Consecutive (shift start data.length) rest

def items (blocks : List (UInt32 × List α)) : List α := blocks.flatMap Prod.snd

@[simp] theorem items_append (xs ys : List (UInt32 × List α)) :
    items (xs ++ ys) = items xs ++ items ys := by simp [items]

@[simp] theorem items_singleton (seq : UInt32) (data : List α) : items [(seq, data)] = data := by
  simp [items]

theorem Consecutive.snoc (h : Consecutive start blocks)
    (hseq : seq = shift start (items blocks).length) :
    Consecutive start (blocks ++ [(seq, data)]) := by
  induction blocks generalizing start with
  | nil => simpa [Consecutive, items] using hseq
  | cons block rest ih =>
    obtain ⟨hfirst, hrest⟩ := h
    refine ⟨hfirst, ih hrest ?_⟩
    rw [hseq, shift_add]
    simp [items]

end Blocks

end Serial
