import Mathlib.Data.List.Basic
import Mathlib.Data.List.Forall2
import Mathlib.Algebra.Group.Nat.Defs

/-! # Slots that are used again

Items take, one after the other, the slots whose old item need not be kept, and what is
left of them is put behind the last slot.
-/

variable {α : Type*} {keep : α → Bool} {old new : List α}

def refill (keep : α → Bool) : List α → List α → List α
  | [], new => new
  | a :: old, [] => a :: old
  | a :: old, b :: new =>
    if keep a then a :: refill keep old (b :: new) else b :: refill keep old new

namespace Slots

@[simp] theorem refill_nil (keep : α → Bool) (old : List α) : refill keep old [] = old := by
  cases old <;> rfl

/-- The first item goes to the first slot that is free. -/
theorem refill_cons (keep : α → Bool) (old : List α) (b : α) (new : List α) :
    refill keep old (b :: new) =
      old.takeWhile keep ++ b :: refill keep (old.dropWhile keep).tail new := by
  induction old with
  | nil => cases new <;> rfl
  | cons a old ih =>
    by_cases ha : keep a
    · simp [refill, ha, ih]
    · simp [refill, ha]

/-- The list grows by the items that find no free slot. -/
theorem length_refill (keep : α → Bool) (old new : List α) :
    (refill keep old new).length = old.length + (new.length - old.countP fun a => !keep a) := by
  fun_induction refill keep old new with
  | case1 new => simp
  | case2 a old => simp
  | case3 a old b new ha ih =>
    rw [List.length_cons, ih, List.countP_cons_of_neg (by simp [ha]), List.length_cons (a := a)]
    omega
  | case4 a old b new ha ih =>
    rw [List.length_cons, ih, List.countP_cons_of_pos (by simp [ha]), List.length_cons,
      List.length_cons]
    omega

/-- What is to be kept stays in its slot. -/
theorem getElem?_refill {i : ℕ} {a : α} (hold : old[i]? = some a) (ha : keep a) :
    (refill keep old new)[i]? = some a := by
  fun_induction refill keep old new generalizing i with
  | case1 new => simp at hold
  | case2 a' old => exact hold
  | case3 a' old b new ha' ih =>
    cases i with
    | zero => exact hold
    | succ i => exact ih hold
  | case4 a' old b new ha' ih =>
    cases i with
    | zero =>
      obtain rfl : a' = a := by simpa using hold
      exact absurd ha ha'
    | succ i => exact ih hold

theorem mem_refill {a : α} (h : a ∈ refill keep old new) : a ∈ old ∨ a ∈ new := by
  fun_induction refill keep old new with
  | case1 new => exact .inr h
  | case2 a' old => exact .inl h
  | case3 a' old b new ha' ih =>
    rcases List.mem_cons.mp h with rfl | hrest
    · exact .inl List.mem_cons_self
    · exact (ih hrest).imp_left (List.mem_cons_of_mem _)
  | case4 a' old b new ha' ih =>
    rcases List.mem_cons.mp h with rfl | hrest
    · exact .inr List.mem_cons_self
    · exact (ih hrest).imp (List.mem_cons_of_mem _) (List.mem_cons_of_mem _)

theorem mem_refill_of_new {a : α} (h : a ∈ new) : a ∈ refill keep old new := by
  fun_induction refill keep old new with
  | case1 new => exact h
  | case2 a' old => exact absurd h List.not_mem_nil
  | case3 a' old b new ha' ih => exact List.mem_cons_of_mem _ (ih h)
  | case4 a' old b new ha' ih =>
    rcases List.mem_cons.mp h with rfl | hrest
    · exact List.mem_cons_self
    · exact List.mem_cons_of_mem _ (ih hrest)

/-- Each item has a slot of its own, which was free or is new. -/
theorem exists_slots (keep : α → Bool) (old new : List α) :
    ∃ slots : List ℕ, slots.Pairwise (· < ·) ∧
      List.Forall₂ (fun b i => (refill keep old new)[i]? = some b ∧
        ∀ a, old[i]? = some a → keep a = false) new slots := by
  fun_induction refill keep old new with
  | case1 new =>
    refine ⟨List.range new.length, List.pairwise_lt_range, List.forall₂_iff_get.mpr ⟨by simp, ?_⟩⟩
    intro i hnew hrange
    simp [hnew]
  | case2 a old => exact ⟨[], .nil, .nil⟩
  | case3 a old b new ha ih =>
    obtain ⟨slots, hslots, hfilled⟩ := ih
    refine ⟨slots.map (· + 1), hslots.map _ (fun _ _ h => Nat.succ_lt_succ h), ?_⟩
    exact List.forall₂_map_right_iff.mpr hfilled
  | case4 a old b new ha ih =>
    obtain ⟨slots, hslots, hfilled⟩ := ih
    refine ⟨0 :: slots.map (· + 1), List.pairwise_cons.mpr ⟨?_, ?_⟩, ?_⟩
    · simp
    · exact hslots.map _ (fun _ _ h => Nat.succ_lt_succ h)
    · refine .cons ⟨rfl, ?_⟩ (List.forall₂_map_right_iff.mpr hfilled)
      intro a' ha'
      obtain rfl : a = a' := by simpa using ha'
      exact Bool.eq_false_iff.mpr ha

section Current
variable {keep' : α → Bool} {past : List α}

/-- Of what is to be kept the slots hold all that was ever put into them, and nothing else. -/
def Current (keep : α → Bool) (past slots : List α) : Prop :=
  ∀ a, keep a = true → (a ∈ slots ↔ a ∈ past)

theorem Current.mono (h : Current keep past old) (hkeep : ∀ a, keep' a = true → keep a = true) :
    Current keep' past old :=
  fun a ha => h a (hkeep a ha)

theorem Current.refill (h : Current keep past old) (new : List α) :
    Current keep (past ++ new) (refill keep old new) := by
  intro a ha
  rw [List.mem_append, ← h a ha]
  constructor
  · exact mem_refill
  · rintro (hold | hnew)
    · obtain ⟨i, hi⟩ := List.mem_iff_getElem?.mp hold
      exact List.mem_iff_getElem?.mpr ⟨i, getElem?_refill hi ha⟩
    · exact mem_refill_of_new hnew

end Current

end Slots
