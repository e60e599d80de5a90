import Mathlib.Logic.Function.Basic

/-! # Memo tables

A memo table holds values of a function that were computed before. A table that is
filled only with values of the function stays valid, whichever of its keys are filled.
-/
namespace Memo

variable {κ ν : Type*} {f : κ → ν} {m : κ → Option ν} {key : κ} {value : ν}

def Valid (f : κ → ν) (m : κ → Option ν) : Prop := ∀ key value, m key = some value → value = f key

theorem valid_empty : Valid f fun _ => none := by
  intro key value h
  simp at h

variable [DecidableEq κ]

def fill (f : κ → ν) (m : κ → Option ν) (key : κ) : κ → Option ν :=
  Function.update m key (some (f key))

theorem Valid.fill (h : Valid f m) (key : κ) : Valid f (Memo.fill f m key) := by
  intro key' value hvalue
  by_cases hkey : key' = key
  · subst hkey
    rw [Memo.fill, Function.update_self] at hvalue
    exact (Option.some.inj hvalue).symm
  · rw [Memo.fill, Function.update_of_ne hkey] at hvalue
    exact h key' value hvalue

theorem isSome_fill_iff {key' : κ} :
    (fill f m key key').isSome ↔ key' = key ∨ (m key').isSome := by
  by_cases hkey : key' = key
  · simp [fill, hkey]
  · simp [fill, hkey]

end Memo
