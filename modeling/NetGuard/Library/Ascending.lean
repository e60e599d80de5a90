import Mathlib.Data.List.Basic

/-! # Lists in the order of positions

A list whose items stand at strictly increasing positions between two bounds. What it
means for an item to stand at a position is a parameter; an item may stand at several.
-/

variable {α : Type*} {R S : ℕ → α → Prop} {hi lo : ℕ} {l : List α}

/-- The items of the list stand at increasing positions from `lo` to `hi`. -/
def Ascending (R : ℕ → α → Prop) (hi : ℕ) : ℕ → List α → Prop
  | _, [] => True
  | lo, a :: rest => ∃ n, lo ≤ n ∧ n ≤ hi ∧ R n a ∧ Ascending R hi (n + 1) rest

namespace Ascending

theorem mono_lo {lo' : ℕ} (h : Ascending R hi lo l) (hlo : lo' ≤ lo) : Ascending R hi lo' l := by
  cases l with
  | nil => trivial
  | cons a rest =>
    obtain ⟨n, hn, hhi, hR, hrest⟩ := h
    exact ⟨n, Nat.le_trans hlo hn, hhi, hR, hrest⟩

theorem mono_hi {hi' : ℕ} (h : Ascending R hi lo l) (hle : hi ≤ hi') : Ascending R hi' lo l := by
  induction l generalizing lo with
  | nil => trivial
  | cons a rest ih =>
    obtain ⟨n, hn, hhi, hR, hrest⟩ := h
    exact ⟨n, hn, Nat.le_trans hhi hle, hR, ih hrest⟩

theorem mem (h : Ascending R hi lo l) {a : α} (ha : a ∈ l) : ∃ n, lo ≤ n ∧ n ≤ hi ∧ R n a := by
  induction l generalizing lo with
  | nil => simp at ha
  | cons b rest ih =>
    obtain ⟨n, hn, hhi, hR, hrest⟩ := h
    rcases List.mem_cons.mp ha with rfl | hmem
    · exact ⟨n, hn, hhi, hR⟩
    · obtain ⟨m, hm, hmhi, hmR⟩ := ih hrest hmem
      exact ⟨m, by omega, hmhi, hmR⟩

theorem shift {k : ℕ} (hR : ∀ n a, k ≤ n → R n a → S (n - k) a) (h : Ascending R hi lo l)
    (hk : k ≤ lo) : Ascending S (hi - k) (lo - k) l := by
  induction l generalizing lo with
  | nil => trivial
  | cons a rest ih =>
    obtain ⟨n, hn, hhi, ha, hrest⟩ := h
    have htail := ih hrest (by omega)
    exact ⟨n - k, by omega, by omega, hR n a (by omega) ha, htail.mono_lo (by omega)⟩

/-- Where an item can stand at one position only, the order is that of the positions. -/
theorem iff_pairwise {f : α → ℕ} (hR : ∀ n a, n ≤ hi → (R n a ↔ f a = n)) :
    Ascending R hi lo l ↔
      (∀ a ∈ l, lo ≤ f a ∧ f a ≤ hi) ∧ l.Pairwise fun a b => f a < f b := by
  induction l generalizing lo with
  | nil => simp [Ascending]
  | cons a rest ih =>
    rw [Ascending, List.forall_mem_cons, List.pairwise_cons]
    constructor
    · rintro ⟨n, hn, hhi, ha, hrest⟩
      obtain rfl := (hR n a hhi).mp ha
      obtain ⟨hbounds, hpairs⟩ := ih.mp hrest
      exact ⟨⟨⟨hn, hhi⟩, fun b hb => ⟨by have hb := hbounds b hb; omega, (hbounds b hb).2⟩⟩,
        fun b hb => (hbounds b hb).1, hpairs⟩
    · rintro ⟨⟨⟨hn, hhi⟩, hbounds⟩, hfirst, hpairs⟩
      exact ⟨f a, hn, hhi, (hR _ a hhi).mpr rfl,
        ih.mpr ⟨fun b hb => ⟨hfirst b hb, (hbounds b hb).2⟩, hpairs⟩⟩

end Ascending
