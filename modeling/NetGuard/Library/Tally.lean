import Mathlib.Algebra.BigOperators.Group.Finset.Piecewise
import Mathlib.Algebra.BigOperators.Group.List.Basic
import Mathlib.Data.List.Nodup

/-! # Tallies by key

The entries of a list have keys, and the total of a key is the sum of the values of its
entries. Where no key occurs twice, adding to the entry of a key adds to its total. The
totals of all keys decide the sum of all entries.
-/
namespace Tally

variable {α κ M : Type*} [DecidableEq κ] [AddCommMonoid M] {key : α → κ} {value : α → M}
  {k k₀ : κ} {l : List α}

def total (key : α → κ) (value : α → M) (k : κ) (l : List α) : M :=
  ((l.filter fun a => key a = k).map value).sum

@[simp] theorem total_nil : total key value k [] = 0 := rfl

theorem total_cons (a : α) (l : List α) :
    total key value k (a :: l) = (if key a = k then value a else 0) + total key value k l := by
  by_cases ha : key a = k
  · simp [total, ha]
  · simp [total, ha]

theorem total_append (l l' : List α) :
    total key value k (l ++ l') = total key value k l + total key value k l' := by
  simp [total]

theorem total_perm {l' : List α} (h : l.Perm l') : total key value k l = total key value k l' :=
  ((h.filter _).map value).sum_eq

theorem total_filter (key : α → κ) (value : α → M) (k : κ) (p : κ → Bool) (l : List α) :
    total key value k (l.filter fun a => p (key a)) = if p k then total key value k l else 0 := by
  induction l with
  | nil => simp
  | cons a l ih =>
    rw [List.filter_cons, total_cons]
    by_cases ha : key a = k
    · cases hp : p k with
      | true => simp [ha, hp, ih, total_cons]
      | false => simp [ha, hp, ih]
    · split
      · simp [total_cons, ha, ih]
      · simp [ih]

theorem total_of_not_mem (h : k ∉ l.map key) : total key value k l = 0 := by
  have hnone : (l.filter fun a => key a = k) = [] := by
    rw [List.filter_eq_nil_iff]
    intro a ha hk
    exact h (List.mem_map.mpr ⟨a, ha, by simpa using hk⟩)
  rw [total, hnone]
  rfl

theorem total_of_mem {a : α} (hnodup : (l.map key).Nodup) (ha : a ∈ l) :
    total key value (key a) l = value a := by
  induction l with
  | nil => simp at ha
  | cons b l ih =>
    rw [List.map_cons, List.nodup_cons] at hnodup
    rw [total_cons]
    rcases List.mem_cons.mp ha with rfl | ha
    · rw [if_pos rfl, total_of_not_mem hnodup.1, add_zero]
    · have hne : key b ≠ key a := fun h => hnodup.1 (h ▸ List.mem_map_of_mem ha)
      rw [if_neg hne, zero_add, ih hnodup.2 ha]

omit [DecidableEq κ] in
theorem sum_filter (p : α → Bool) (value : α → M) (l : List α) :
    ((l.filter p).map value).sum = (l.map fun a => if p a then value a else 0).sum := by
  induction l with
  | nil => rfl
  | cons a l ih =>
    rw [List.filter_cons, List.map_cons, List.sum_cons, ← ih]
    split
    · rw [List.map_cons, List.sum_cons]
    · rw [zero_add]

theorem sum_eq_sum_total (s : Finset κ) (hs : ∀ a ∈ l, key a ∈ s) :
    (l.map value).sum = ∑ k ∈ s, total key value k l := by
  induction l with
  | nil => simp
  | cons a l ih =>
    simp only [List.map_cons, List.sum_cons, total_cons, Finset.sum_add_distrib, Finset.sum_ite_eq,
      if_pos (hs a List.mem_cons_self), ih fun b hb => hs b (List.mem_cons_of_mem a hb)]

theorem sum_total (value : α → M) {ks : List κ} (hnodup : ks.Nodup) (hks : ∀ a ∈ l, key a ∈ ks) :
    (ks.map fun k => total key value k l).sum = (l.map value).sum := by
  rw [sum_eq_sum_total ks.toFinset fun a ha => List.mem_toFinset.mpr (hks a ha),
    List.sum_toFinset _ hnodup]

theorem sum_congr {β : Type*} {key' : β → κ} {value' : β → M} {l' : List β}
    (h : ∀ k, total key value k l = total key' value' k l') :
    (l.map value).sum = (l'.map value').sum := by
  rw [sum_eq_sum_total ((l.map key).toFinset ∪ (l'.map key').toFinset),
    sum_eq_sum_total ((l.map key).toFinset ∪ (l'.map key').toFinset)]
  · exact Finset.sum_congr rfl fun k _ => h k
  · intro a ha
    simp only [Finset.mem_union, List.mem_toFinset]
    exact .inr (List.mem_map_of_mem ha)
  · intro a ha
    simp only [Finset.mem_union, List.mem_toFinset]
    exact .inl (List.mem_map_of_mem ha)

/-- A change of the entries of one key. -/
def atKey (key : α → κ) (k₀ : κ) (f : α → α) (l : List α) : List α :=
  l.map fun a => if key a = k₀ then f a else a

theorem keys_atKey {f : α → α} (hkey : ∀ a, key (f a) = key a) (l : List α) :
    (atKey key k₀ f l).map key = l.map key := by
  rw [atKey, List.map_map]
  apply List.map_congr_left
  intro a _
  simp only [Function.comp_apply, apply_ite key, hkey, ite_self]

theorem atKey_of_not_mem {f : α → α} (h : k₀ ∉ l.map key) : atKey key k₀ f l = l := by
  have hid : ∀ a ∈ l, (if key a = k₀ then f a else a) = id a := by
    intro a ha
    apply if_neg
    rintro rfl
    exact h (List.mem_map_of_mem ha)
  rw [atKey, List.map_congr_left hid, List.map_id]

theorem total_atKey (k : κ) {f : α → α} {c : M} (hkey : ∀ a, key (f a) = key a)
    (hvalue : ∀ a, value (f a) = value a + c) (hnodup : (l.map key).Nodup)
    (hmem : k₀ ∈ l.map key) :
    total key value k (atKey key k₀ f l) =
      total key value k l + if k₀ = k then c else 0 := by
  induction l with
  | nil => simp at hmem
  | cons a l ih =>
    rw [List.map_cons, List.nodup_cons] at hnodup
    have hcons : atKey key k₀ f (a :: l) =
        (if key a = k₀ then f a else a) :: atKey key k₀ f l := rfl
    rw [hcons, total_cons, total_cons]
    by_cases ha : key a = k₀
    · rw [atKey_of_not_mem (ha ▸ hnodup.1), if_pos ha, hkey, hvalue, ha]
      by_cases hk : k₀ = k
      · simp only [if_pos hk]
        rw [add_assoc, add_comm c, add_assoc]
      · simp only [if_neg hk, add_zero]
    · have htail : k₀ ∈ l.map key := by
        rcases List.mem_cons.mp hmem with hhead | htail
        · exact (ha hhead.symm).elim
        · exact htail
      rw [ih hnodup.2 htail, if_neg ha, add_assoc]

end Tally
