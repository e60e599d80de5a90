import Mathlib.Data.List.Count
import Mathlib.Data.List.Induction
import NetGuard.Library.Run
import NetGuard.Library.Table

/-! # Ledgers of one resource

A history acquires and releases a resource. It is orderly when the resource is acquired
only while it is free and released only while it is held, and then every holder but the
last has released it exactly once before the next one acquires it.
-/
namespace Ledger
open Run (Timed)

variable {α : Type*} {acquires releases : α → Bool} {l items : List α} {a : α}

def Orderly (acquires releases : α → Bool) : List α → Prop :=
  Timed fun pre a =>
    (acquires a = true → pre.countP acquires = pre.countP releases) ∧
    (releases a = true → pre.countP releases < pre.countP acquires)

theorem Orderly.nil : Orderly acquires releases [] := by
  intro pre a post heq
  simp at heq

theorem Orderly.bounds (h : Orderly acquires releases l) :
    l.countP releases ≤ l.countP acquires ∧ l.countP acquires ≤ l.countP releases + 1 := by
  induction l using List.reverseRecOn with
  | nil => simp
  | append_singleton l a ih =>
    have hbefore := ih h.left
    obtain ⟨hacquire, hrelease⟩ := h l a [] rfl
    simp only [List.countP_append, List.countP_singleton]
    by_cases ha : acquires a = true
    · have hfree := hacquire ha
      by_cases hr : releases a = true
      · have hheld := hrelease hr
        omega
      · simp only [ha, hr, if_true, Bool.false_eq_true, if_false]
        omega
    · by_cases hr : releases a = true
      · have hheld := hrelease hr
        simp only [ha, hr, if_true, Bool.false_eq_true, if_false]
        omega
      · simp only [ha, hr, Bool.false_eq_true, if_false]
        omega

theorem Orderly.acquire (h : Orderly acquires releases l)
    (hfree : l.countP acquires = l.countP releases) (hnot : releases a = false) :
    Orderly acquires releases (l ++ [a]) := by
  apply Timed.snoc h
  refine ⟨fun _ => hfree, ?_⟩
  intro hreleases
  rw [hnot] at hreleases
  exact absurd hreleases Bool.false_ne_true

/-- Items that acquire nothing and release no more than what is held. -/
theorem Orderly.release (h : Orderly acquires releases l)
    (hnone : ∀ a ∈ items, acquires a = false)
    (hheld : l.countP releases + items.countP releases ≤ l.countP acquires) :
    Orderly acquires releases (l ++ items) := by
  induction items generalizing l with
  | nil => simpa using h
  | cons a rest ih =>
    have ha : acquires a = false := hnone a List.mem_cons_self
    have hrest : ∀ b ∈ rest, acquires b = false :=
      fun b hb => hnone b (List.mem_cons_of_mem a hb)
    have hnext : Orderly acquires releases (l ++ [a]) := by
      apply Timed.snoc h
      constructor
      · intro hacquires
        rw [ha] at hacquires
        exact absurd hacquires Bool.false_ne_true
      · intro hreleases
        rw [List.countP_cons_of_pos hreleases] at hheld
        omega
    have hleft : (l ++ [a]).countP releases + rest.countP releases ≤ (l ++ [a]).countP acquires := by
      simp only [List.countP_append, List.countP_cons, List.countP_nil] at hheld ⊢
      omega
    simpa using ih hnext hrest hleft

/-- From one acquisition to the next there is exactly one release; after the last one what
is released and what is held make one. -/
theorem Orderly.life {before after : List α}
    (h : Orderly acquires releases (before ++ a :: after)) (ha : acquires a = true) :
    (after.takeWhile (fun b => !acquires b) ≠ after →
      (after.takeWhile (fun b => !acquires b)).countP releases = 1) ∧
    (after.takeWhile (fun b => !acquires b) = after →
      (before ++ a :: after).countP acquires + after.countP releases =
        (before ++ a :: after).countP releases + 1) := by
  obtain ⟨hacquire, hrelease⟩ := h before a after rfl
  have hfree := hacquire ha
  have hnot : releases a = false := by
    by_contra hreleases
    have hheld := hrelease (by simpa using hreleases)
    omega
  rcases Table.search acquires after with ⟨life, b, rest, hcut, hlist, hb, hlife⟩ | ⟨hcut, hnone⟩
  · rw [List.span_eq_takeWhile_dropWhile] at hcut
    rw [(Prod.mk.inj hcut).1]
    have hagain : (before ++ a :: life).countP acquires = (before ++ a :: life).countP releases :=
      (h (before ++ a :: life) b rest (by simp [hlist])).1 hb
    have hidle : life.countP acquires = 0 := List.countP_eq_zero.mpr (by simpa using hlife)
    constructor
    · intro _
      rw [List.countP_append, List.countP_append, List.countP_cons_of_pos ha,
        List.countP_cons_of_neg (by simpa using hnot)] at hagain
      omega
    · intro hall
      rw [hlist] at hall
      exact absurd hall (by simp)
  · rw [List.span_eq_takeWhile_dropWhile] at hcut
    rw [(Prod.mk.inj hcut).1]
    have hidle : after.countP acquires = 0 := List.countP_eq_zero.mpr (by simpa using hnone)
    refine ⟨fun hne => absurd rfl hne, ?_⟩
    intro _
    rw [List.countP_append, List.countP_append, List.countP_cons_of_pos ha,
      List.countP_cons_of_neg (by simpa using hnot)]
    omega

end Ledger
