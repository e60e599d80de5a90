import NetGuard.Engine.Checksum

/-! # Chained checksums

A checksum taken in parts is the checksum of the whole, not only modulo 65535: the total of
the words never leaves 32 bits, and of the two zeros the folded one depends on the total
alone. With its complement stored in the message the sum comes out as all ones.
-/
namespace NetGuard.Engine
open OnesComplement

section Fold
variable {sum : UInt32}

/-- One turn of the loop that folds the carries in. -/
def foldStep (sum : UInt32) : UInt32 := (sum &&& (0xFFFF : UInt32)) + (sum >>> (16 : UInt32))

theorem foldStep_toNat (sum : UInt32) :
    (foldStep sum).toNat = sum.toNat % 65536 + sum.toNat / 65536 := by
  have hlt := sum.toNat_lt
  have hlow : (sum &&& (0xFFFF : UInt32)).toNat = sum.toNat % 65536 := by
    rw [UInt32.toNat_and, show (0xFFFF : UInt32).toNat = 2 ^ 16 - 1 from rfl,
      Nat.and_two_pow_sub_one_eq_mod]
  have hhigh : (sum >>> (16 : UInt32)).toNat = sum.toNat / 65536 := by
    rw [UInt32.toNat_shiftRight, Nat.shiftRight_eq_div_pow]
    rfl
  rw [foldStep, UInt32.toNat_add, hlow, hhigh]
  exact Nat.mod_eq_of_lt (by omega)

theorem foldChecksum_of_lt (hsmall : sum.toNat < 65536) : foldChecksum sum = sum.toUInt16 := by
  rw [foldChecksum, dif_pos hsmall]

theorem foldChecksum_step (hlarge : ¬ sum.toNat < 65536) :
    foldChecksum sum = foldChecksum (foldStep sum) := by
  have hstep : UInt32.ofNat (sum.toNat % 65536 + sum.toNat / 65536) = foldStep sum := by
    rw [← foldStep_toNat, UInt32.ofNat_toNat]
  rw [foldChecksum, dif_neg hlarge, hstep]

/-- The loop ends after `n` turns: the carries are gone then, and not before. -/
structure FoldsIn (n : ℕ) (sum : UInt32) : Prop where
  turn : ∀ k < n, ¬ (foldStep^[k] sum).toNat < 65536
  done : (foldStep^[n] sum).toNat < 65536
  result : foldChecksum sum = (foldStep^[n] sum).toUInt16

theorem FoldsIn.zero (hsmall : sum.toNat < 65536) : FoldsIn 0 sum where
  turn k hk := absurd hk (Nat.not_lt_zero k)
  done := hsmall
  result := foldChecksum_of_lt hsmall

theorem FoldsIn.succ {n : ℕ} (hlarge : ¬ sum.toNat < 65536) (h : FoldsIn n (foldStep sum)) :
    FoldsIn (n + 1) sum where
  turn k hk := by
    cases k with
    | zero => exact hlarge
    | succ k => exact h.turn k (Nat.lt_of_succ_lt_succ hk)
  done := h.done
  result := (foldChecksum_step hlarge).trans h.result

/-- A second turn can only be left with the carry of the first. -/
theorem exists_foldsIn (sum : UInt32) : ∃ n ≤ 2, FoldsIn n sum := by
  have hlt := sum.toNat_lt
  by_cases hsmall : sum.toNat < 65536
  · exact ⟨0, by decide, .zero hsmall⟩
  have hfirst := foldStep_toNat sum
  by_cases hone : (foldStep sum).toNat < 65536
  · exact ⟨1, by decide, .succ hsmall (.zero hone)⟩
  have hsecond := foldStep_toNat (foldStep sum)
  exact ⟨2, by decide, .succ hsmall (.succ hone (.zero (by omega)))⟩

end Fold

section Chain
variable {start : UInt16} {a b front rest : List UInt8}

/-- Behind an even number of bytes the total goes on with the next word. -/
theorem checksumWords_append (sum : UInt32) (heven : front.length % 2 = 0) (rest : List UInt8) :
    checksumWords sum (front ++ rest) = checksumWords (checksumWords sum front) rest := by
  fun_induction checksumWords sum front with
  | case1 sum a b front ih =>
    simp only [List.length_cons] at heven
    rw [List.cons_append, List.cons_append, checksumWords, ih (by omega)]
  | case2 sum a => simp at heven
  | case3 sum => rfl

/-- What `calc_checksum` computes on its way: every total that it passes through is the sum
of the words so far, and two turns fold its carries in. -/
structure ChecksumExact (start : UInt16) (buffer : List UInt8) : Prop where
  result : calcChecksum start buffer = foldChecksum (checksumWords start.toUInt32 buffer)
  passes : ∀ front rest, buffer = front ++ rest → front.length % 2 = 0 →
    checksumWords start.toUInt32 buffer =
      checksumWords (checksumWords start.toUInt32 front) rest
  total : ∀ front rest, buffer = front ++ rest →
    (checksumWords start.toUInt32 front).toNat = start.toNat + wordTotal front
  fold : ∀ sum : UInt32, (foldStep sum).toNat = sum.toNat % 65536 + sum.toNat / 65536
  ends : ∃ n ≤ 2, FoldsIn n (checksumWords start.toUInt32 buffer)

theorem checksumExact {buffer : List UInt8} (hlen : buffer.length ≤ 131070) :
    ChecksumExact start buffer where
  result := rfl
  passes front rest hsplit heven := by
    rw [hsplit, checksumWords_append _ heven]
  total front rest hsplit := by
    rw [hsplit, List.length_append] at hlen
    exact checksumWords_start (by omega)
  fold := foldStep_toNat
  ends := exists_foldsIn _

theorem calcChecksum_append (heven : a.length % 2 = 0) (hlen : a.length + b.length ≤ 131070) :
    calcChecksum (calcChecksum start a) b = calcChecksum start (a ++ b) := by
  apply UInt16.toNat_inj.mp
  rw [calcChecksum_toNat (by omega), calcChecksum_toNat (by omega),
    calcChecksum_toNat (by rwa [List.length_append]), residue_add_left, wordTotal_append heven,
    Nat.add_assoc]

/-- Chained checksums are those of the whole, nothing overflows on the way, and a message
with the complement of its sum stored in it verifies. -/
theorem calcChecksum_chained (start : UInt16) :
    (∀ a b : List UInt8, a.length % 2 = 0 → a.length + b.length ≤ 65575 →
      calcChecksum (calcChecksum start a) b = calcChecksum start (a ++ b) ∧
        ChecksumExact start a ∧ ChecksumExact (calcChecksum start a) b ∧
        ChecksumExact start (a ++ b)) ∧
    ∀ front rest : List UInt8, front.length % 2 = 0 → front.length + 2 + rest.length ≤ 65575 →
      calcChecksum start (front ++
        (hostWord (~~~ calcChecksum start (front ++ (hostWord 0 ++ rest))) ++ rest)) = 0xFFFF := by
  constructor
  · intro a b heven hlen
    have hwhole : (a ++ b).length ≤ 131070 := by
      rw [List.length_append]
      omega
    exact ⟨calcChecksum_append heven (by omega), checksumExact (by omega),
      checksumExact (by omega), checksumExact hwhole⟩
  · intro front rest hfront hlen
    exact calcChecksum_stored hfront (by omega)

/-- Five bytes in two parts, the carry of the first folded in before the second. -/
theorem calcChecksum_chained_sample :
    calcChecksum (calcChecksum 1 [0xFF, 0xFF, 2, 0]) [7] =
        calcChecksum 1 [0xFF, 0xFF, 2, 0, 7] ∧
      calcChecksum 0 ([1, 2] ++ (hostWord (~~~ calcChecksum 0 ([1, 2] ++ (hostWord 0 ++ [3])))
        ++ [3])) = 0xFFFF := by
  have hchain := (calcChecksum_chained 1).1 [0xFF, 0xFF, 2, 0] [7] (by decide) (by decide)
  have hstored := (calcChecksum_chained 0).2 [1, 2] [3] (by decide) (by decide)
  exact ⟨hchain.1, hstored⟩

end Chain

end NetGuard.Engine
