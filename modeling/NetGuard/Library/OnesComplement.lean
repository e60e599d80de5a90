import Mathlib.Algebra.BigOperators.Group.List.Basic
import Mathlib.Data.Nat.Bitwise
import Mathlib.Data.Nat.ModEq
import Mathlib.Tactic.Ring

/-! # One's-complement sums

Words below a base `b` are added with an end-around carry, so that the sum is the total
modulo `b - 1`. Of the two zeros, `0` is only reached when every word is `0`; a total that is
a multiple otherwise comes out as `b - 1`. Folding the carries of a wide total gives the same.
-/
namespace OnesComplement

variable {b : ℕ}

def add (b x y : ℕ) : ℕ := if x + y < b then x + y else x + y + 1 - b

def sum (b : ℕ) (ws : List ℕ) : ℕ := ws.foldl (add b) 0

/-- What is left of a total when all carries are added in again. -/
def residue (b n : ℕ) : ℕ := if n = 0 then 0 else (n - 1) % (b - 1) + 1

@[simp] theorem residue_zero : residue b 0 = 0 := rfl

theorem residue_eq_zero {n : ℕ} : residue b n = 0 ↔ n = 0 := by
  unfold residue
  split <;> simp [*]

theorem residue_of_lt {n : ℕ} (h : n < b) : residue b n = n := by
  unfold residue
  split
  next h0 => exact h0.symm
  next h0 =>
    rw [Nat.mod_eq_of_lt (by omega)]
    omega

theorem residue_lt (hb : 1 < b) (n : ℕ) : residue b n < b := by
  unfold residue
  split
  · omega
  · have hmod := Nat.mod_lt (n - 1) (show 0 < b - 1 by omega)
    omega

theorem residue_modEq (n : ℕ) : residue b n ≡ n [MOD b - 1] := by
  unfold residue
  split
  next h0 => rw [h0]
  next h0 =>
    have hmod : (n - 1) % (b - 1) + 1 ≡ n - 1 + 1 [MOD b - 1] := (Nat.mod_modEq _ _).add_right 1
    rwa [Nat.sub_add_cancel (Nat.pos_of_ne_zero h0)] at hmod

theorem residue_congr {m n : ℕ} (h : m ≡ n [MOD b - 1]) (hzero : m = 0 ↔ n = 0) :
    residue b m = residue b n := by
  unfold residue
  by_cases hm : m = 0
  · rw [if_pos hm, if_pos (hzero.mp hm)]
  · have hn : n ≠ 0 := fun hn => hm (hzero.mpr hn)
    rw [if_neg hm, if_neg hn]
    have hstep : m - 1 + 1 ≡ n - 1 + 1 [MOD b - 1] := by
      rwa [Nat.sub_add_cancel (Nat.pos_of_ne_zero hm), Nat.sub_add_cancel (Nat.pos_of_ne_zero hn)]
    exact congrArg (· + 1) (Nat.ModEq.add_right_cancel' 1 hstep)

theorem residue_add_left (m n : ℕ) : residue b (residue b m + n) = residue b (m + n) := by
  apply residue_congr ((residue_modEq m).add_right n)
  rw [Nat.add_eq_zero_iff, Nat.add_eq_zero_iff, residue_eq_zero]

theorem add_lt {x y : ℕ} (hx : x < b) (hy : y < b) : add b x y < b := by
  unfold add
  split <;> omega

/-- One end-around carry is all that two words can leave. -/
theorem add_eq_residue {x y : ℕ} (hx : x < b) (hy : y < b) : add b x y = residue b (x + y) := by
  unfold add
  split
  next h => exact (residue_of_lt h).symm
  next h =>
    rw [Nat.not_lt] at h
    have hmod : x + y ≡ x + y + 1 - b [MOD b - 1] := by
      have hsplit : x + y = (x + y + 1 - b) + (b - 1) := by omega
      calc x + y = (x + y + 1 - b) + (b - 1) := hsplit
        _ ≡ x + y + 1 - b [MOD b - 1] := Nat.add_mod_right _ _
    rw [residue_congr hmod (by omega), residue_of_lt (by omega)]

theorem foldl_add_eq {x : ℕ} {ws : List ℕ} (hx : x < b) (hws : ∀ w ∈ ws, w < b) :
    ws.foldl (add b) x = residue b (x + ws.sum) := by
  induction ws generalizing x with
  | nil => simp [residue_of_lt hx]
  | cons w ws ih =>
    obtain ⟨hw, hws⟩ := List.forall_mem_cons.mp hws
    rw [List.foldl_cons, ih (add_lt hx hw) hws, add_eq_residue hx hw, residue_add_left,
      List.sum_cons, Nat.add_assoc]

theorem sum_eq_residue {ws : List ℕ} (hb : 1 < b) (hws : ∀ w ∈ ws, w < b) :
    sum b ws = residue b ws.sum := by
  rw [sum, foldl_add_eq (by omega) hws, Nat.zero_add]

/-- Adding the high part of a wide total to its low word. -/
theorem residue_fold (hb : 1 < b) (n : ℕ) : residue b (n % b + n / b) = residue b n := by
  have hsplit := Nat.mod_add_div n b
  apply residue_congr
  · calc n % b + n / b ≡ n % b + n / b + (b - 1) * (n / b) [MOD b - 1] :=
          (Nat.add_mul_mod_self_left _ _ _).symm
      _ = n % b + b * (n / b) := by
          obtain ⟨c, rfl⟩ : ∃ c, b = c + 1 := ⟨b - 1, by omega⟩
          rw [Nat.add_sub_cancel]
          ring
      _ = n := hsplit
  · constructor
    · intro hzero
      have hquot : n / b = 0 := (Nat.add_eq_zero_iff.mp hzero).2
      have hrem : n % b = 0 := (Nat.add_eq_zero_iff.mp hzero).1
      rw [hquot, hrem] at hsplit
      exact hsplit.symm
    · rintro rfl
      simp

theorem residue_eq_ones_iff {n : ℕ} (hb : 1 < b) :
    residue b n = b - 1 ↔ n ≠ 0 ∧ n ≡ 0 [MOD b - 1] := by
  constructor
  · intro h
    constructor
    · rintro rfl
      rw [residue_zero] at h
      omega
    · have hmod := residue_modEq (b := b) n
      rw [Nat.ModEq, h, Nat.mod_self] at hmod
      rw [Nat.ModEq, ← hmod, Nat.zero_mod]
  · rintro ⟨hn, hmod⟩
    have hones : n ≡ b - 1 [MOD b - 1] := by
      rwa [Nat.ModEq, Nat.mod_self, ← Nat.zero_mod (b - 1)]
    rw [residue_congr hones (by omega), residue_of_lt (by omega)]

/-- A word and its complement add up to all ones. -/
theorem residue_add_complement (hb : 1 < b) (n : ℕ) :
    residue b (n + (b - 1 - residue b n)) = b - 1 := by
  have hlt := residue_lt hb n
  rw [← residue_add_left, show residue b n + (b - 1 - residue b n) = b - 1 by omega,
    residue_of_lt (by omega)]

/-- All ones do not depend on the scale of the words, such as their byte order. -/
theorem residue_mul_eq_ones_iff {k n : ℕ} (hb : 1 < b) (hk : k ≠ 0) (hcoprime : (b - 1).Coprime k) :
    residue b (k * n) = b - 1 ↔ residue b n = b - 1 := by
  rw [residue_eq_ones_iff hb, residue_eq_ones_iff hb]
  apply and_congr (by simp [hk])
  constructor
  · intro h
    exact Nat.ModEq.cancel_left_of_coprime hcoprime h
  · intro h
    exact h.mul_left k

/-- A change of the total that is no multiple of `b - 1` shows in the sum. -/
theorem residue_ne_ones {m n d : ℕ} (hb : 1 < b) (hn : residue b n = b - 1) (hd : 0 < d)
    (hlt : d < b - 1) (hdiff : m + d = n ∨ m = n + d) : residue b m ≠ b - 1 := by
  rw [Ne, residue_eq_ones_iff hb]
  rintro ⟨-, hm⟩
  have hzero := ((residue_eq_ones_iff hb).mp hn).2
  have hdmod : d ≡ 0 [MOD b - 1] := by
    rcases hdiff with rfl | rfl
    · exact Nat.ModEq.add_left_cancel hm hzero
    · exact Nat.ModEq.add_left_cancel hzero hm
  have hdvd := (Nat.modEq_zero_iff_dvd).mp hdmod
  exact absurd (Nat.le_of_dvd hd hdvd) (by omega)

/-- Changing one bit of a number changes it by the value of the bit. -/
theorem xor_two_pow (n i : ℕ) : (n ^^^ 2 ^ i) + 2 ^ i = n ∨ (n ^^^ 2 ^ i) = n + 2 ^ i := by
  have hpos : 0 < 2 ^ i := Nat.two_pow_pos i
  have hhigh : (n ^^^ 2 ^ i) / 2 ^ i = n / 2 ^ i ^^^ 1 := by
    rw [Nat.xor_div_two_pow, Nat.div_self hpos]
  have hlow : (n ^^^ 2 ^ i) % 2 ^ i = n % 2 ^ i := by
    rw [Nat.xor_mod_two_pow, Nat.mod_self, Nat.xor_zero]
  have hhalf : (n / 2 ^ i ^^^ 1) / 2 = n / 2 ^ i / 2 := by
    rw [Nat.xor_div_two, show 1 / 2 = 0 from rfl, Nat.xor_zero]
  have hbit : (n / 2 ^ i ^^^ 1) % 2 = 1 ↔ ¬ n / 2 ^ i % 2 = 1 := by
    rw [Nat.xor_mod_two_eq_one]
    simp
  have hn := Nat.div_add_mod n (2 ^ i)
  have hx := Nat.div_add_mod (n ^^^ 2 ^ i) (2 ^ i)
  rw [hhigh, hlow] at hx
  rcases Nat.mod_two_eq_zero_or_one (n / 2 ^ i) with heven | hodd
  · have hq : n / 2 ^ i ^^^ 1 = n / 2 ^ i + 1 := by omega
    right
    rw [hq, Nat.mul_add, Nat.mul_one] at hx
    omega
  · have hq : n / 2 ^ i = (n / 2 ^ i ^^^ 1) + 1 := by omega
    left
    rw [hq, Nat.mul_add, Nat.mul_one] at hn
    omega

end OnesComplement
