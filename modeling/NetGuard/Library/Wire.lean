import Mathlib.Data.List.Basic
import Mathlib.Data.List.GetD

/-! # Bytes on the wire

A memory holds a list from a position on. Words are in network order, the high byte first.
-/
namespace Wire

section At
variable {α : Type*} {m : ℕ → α} {i : ℕ} {l l' : List α}

def At (m : ℕ → α) (i : ℕ) : List α → Prop
  | [] => True
  | a :: l => m i = a ∧ At m (i + 1) l

instance At.decidable [DecidableEq α] (m : ℕ → α) : (i : ℕ) → (l : List α) → Decidable (At m i l)
  | _, [] => isTrue trivial
  | i, a :: l =>
    have := At.decidable m (i + 1) l
    inferInstanceAs (Decidable (m i = a ∧ At m (i + 1) l))

@[simp] theorem at_nil : At m i [] := trivial

@[simp] theorem at_cons {a : α} : At m i (a :: l) ↔ m i = a ∧ At m (i + 1) l := Iff.rfl

@[simp] theorem at_append : At m i (l ++ l') ↔ At m i l ∧ At m (i + l.length) l' := by
  induction l generalizing i with
  | nil => simp
  | cons a l ih =>
    simp only [List.cons_append, at_cons, ih, List.length_cons, and_assoc]
    rw [show i + 1 + l.length = i + (l.length + 1) by omega]

theorem At.drop (h : At m i l) (n : ℕ) : At m (i + n) (l.drop n) := by
  induction n generalizing i l with
  | zero => exact h
  | succ n ih =>
    cases l with
    | nil => exact at_nil
    | cons a l =>
      have hrest := ih h.2
      rwa [Nat.add_assoc, Nat.add_comm 1] at hrest

theorem At.take (h : At m i l) (n : ℕ) : At m i (l.take n) := by
  rw [← List.take_append_drop n l, at_append] at h
  exact h.1

theorem at_replicate {a : α} (h : ∀ k, m k = a) (n : ℕ) : At m i (List.replicate n a) := by
  induction n generalizing i with
  | zero => exact at_nil
  | succ n ih => exact ⟨h i, ih⟩

theorem at_shift {k : ℕ} : At (fun j => m (k + j)) i l ↔ At m (k + i) l := by
  induction l generalizing i with
  | nil => simp
  | cons a l ih => simp only [at_cons, ih, Nat.add_assoc]

theorem At.move {j : ℕ} (h : At m i l) (hij : i = j) : At m j l := hij ▸ h

/-- What the memory holds is read back. -/
theorem At.map_range (h : At m i l) : (List.range l.length).map (fun k => m (i + k)) = l := by
  induction l generalizing i with
  | nil => rfl
  | cons a l ih =>
    obtain ⟨ha, hl⟩ := h
    rw [List.length_cons, List.range_succ_eq_map, List.map_cons, List.map_map, Nat.add_zero, ha]
    apply congrArg (a :: ·)
    calc (List.range l.length).map ((fun k => m (i + k)) ∘ Nat.succ)
        = (List.range l.length).map fun k => m (i + 1 + k) := by
          apply List.map_congr_left
          intro k _
          rw [Function.comp_apply, show i + k.succ = i + 1 + k by omega]
      _ = l := ih hl

theorem at_map_range (m : ℕ → α) (i n : ℕ) : At m i ((List.range n).map fun k => m (i + k)) := by
  induction n generalizing i with
  | zero => exact at_nil
  | succ n ih =>
    rw [List.range_succ_eq_map, List.map_cons, List.map_map]
    refine ⟨rfl, ?_⟩
    have hrest := ih (i + 1)
    convert hrest using 2
    apply funext
    intro k
    rw [Function.comp_apply, show i + k.succ = i + 1 + k by omega]

theorem at_getD (l : List α) (a : α) : At (fun k => l.getD k a) 0 l := by
  induction l with
  | nil => exact at_nil
  | cons b l ih =>
    have hrest : At (fun k => (b :: l).getD (1 + k) a) 0 l := by
      simpa only [Nat.add_comm 1, List.getD_cons_succ] using ih
    exact ⟨rfl, (at_shift (m := fun k => (b :: l).getD k a) (k := 1)).mp hrest⟩

end At

section Store
variable {α : Type*} {m : ℕ → α} {i j : ℕ} {l l' : List α}

/-- The memory after the list has been copied to the position. -/
def store (m : ℕ → α) (i : ℕ) (l : List α) : ℕ → α :=
  fun k => if i ≤ k then l.getD (k - i) (m k) else m k

theorem store_of_outside {k : ℕ} (h : k < i ∨ i + l.length ≤ k) : store m i l k = m k := by
  unfold store
  split
  · rw [List.getD_eq_default _ _ (by omega)]
  · rfl

theorem at_store_of_disjoint (h : j + l'.length ≤ i ∨ i + l.length ≤ j) :
    At (store m i l) j l' ↔ At m j l' := by
  induction l' generalizing j with
  | nil => simp
  | cons a l' ih =>
    rw [List.length_cons] at h
    rw [at_cons, at_cons, ih (by omega), store_of_outside (by omega)]

theorem at_store_self (m : ℕ → α) (i : ℕ) (l : List α) : At (store m i l) i l := by
  have hget (k : ℕ) (hk : k < l.length) : store m i l (i + k) = l[k] := by
    unfold store
    rw [if_pos (Nat.le_add_right i k), Nat.add_sub_cancel_left, List.getD_eq_getElem l _ hk]
  have hread : (List.range l.length).map (fun k => store m i l (i + k)) = l := by
    apply List.ext_getElem
    · simp
    · intro k hk hk'
      simpa using hget k hk'
  have hat := at_map_range (store m i l) i l.length
  rwa [hread] at hat

/-- The memory after several lists have been copied, one after the other. -/
def stores (m : ℕ → α) (ws : List (ℕ × List α)) : ℕ → α :=
  ws.foldl (fun m w => store m w.1 w.2) m

theorem at_stores_of_disjoint {ws : List (ℕ × List α)}
    (h : ∀ w ∈ ws, j + l'.length ≤ w.1 ∨ w.1 + w.2.length ≤ j) :
    At (stores m ws) j l' ↔ At m j l' := by
  induction ws generalizing m with
  | nil => rfl
  | cons w ws ih =>
    obtain ⟨hw, hws⟩ := List.forall_mem_cons.mp h
    exact (ih hws).trans (at_store_of_disjoint hw)

/-- What was copied stays where nothing else is copied to later. -/
theorem at_stores {ws : List (ℕ × List α)} (k : ℕ) (hk : ws[k]? = some (i, l))
    (h : ∀ w ∈ ws.drop (k + 1), i + l.length ≤ w.1 ∨ w.1 + w.2.length ≤ i) :
    At (stores m ws) i l := by
  induction ws generalizing m k with
  | nil => simp at hk
  | cons w ws ih =>
    cases k with
    | zero =>
      obtain rfl : w = (i, l) := by simpa using hk
      exact (at_stores_of_disjoint h).mpr (at_store_self m i l)
    | succ k => exact ih k (by simpa using hk) h

end Store

section Words
variable {m : ℕ → UInt8} {i n : ℕ}

def word (m : ℕ → UInt8) (i : ℕ) : ℕ := (m i).toNat * 256 + (m (i + 1)).toNat

def be16 (n : ℕ) : List UInt8 := [UInt8.ofNat (n / 256), UInt8.ofNat n]

@[simp] theorem length_be16 (n : ℕ) : (be16 n).length = 2 := rfl

theorem word_congr {m' : ℕ → UInt8} (h : ∀ k < 2, m (i + k) = m' (i + k)) :
    word m i = word m' i := by
  have hhigh := h 0 Nat.two_pos
  have hlow := h 1 Nat.one_lt_two
  rw [Nat.add_zero] at hhigh
  rw [word, word, hhigh, hlow]

theorem word_of_at (h : At m i (be16 n)) (hn : n < 65536) : word m i = n := by
  obtain ⟨hhigh, hlow, -⟩ := h
  rw [word, hhigh, hlow, UInt8.toNat_ofNat', UInt8.toNat_ofNat']
  omega

def be32 (n : ℕ) : List UInt8 := be16 (n / 65536) ++ be16 (n % 65536)

@[simp] theorem length_be32 (n : ℕ) : (be32 n).length = 4 := rfl

theorem words_of_at (h : At m i (be32 n)) (hn : n < 4294967296) :
    word m i * 65536 + word m (i + 2) = n := by
  rw [be32, at_append, length_be16] at h
  rw [word_of_at h.1 (by omega), word_of_at h.2 (Nat.mod_lt n (by decide))]
  omega

end Words

end Wire
