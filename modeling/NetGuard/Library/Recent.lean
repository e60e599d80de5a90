import Mathlib.Logic.Function.Basic
import Mathlib.Data.List.Induction

/-! # Maps written by a history

Each event of a history writes at most one key of a map. At every key the map holds
the value that was written there last, or what it held before the history.
-/
namespace Recent

section Last
variable {ε ν : Type*} {f : ε → Option ν} {value : ν} {es : List ε}

/-- The value of the last event that has one. -/
def last (f : ε → Option ν) (es : List ε) : Option ν := es.reverse.findSome? f

theorem last_concat {e : ε} : last f (es ++ [e]) = (f e).or (last f es) := by
  rw [last, List.reverse_append, List.reverse_singleton, List.singleton_append,
    List.findSome?_cons]
  cases f e with
  | none => rfl
  | some _ => rfl

theorem last_eq_some_iff :
    last f es = some value ↔
      ∃ pre e post, es = pre ++ e :: post ∧ f e = some value ∧ ∀ e' ∈ post, f e' = none := by
  rw [last, List.findSome?_eq_some_iff]
  constructor
  · rintro ⟨later, e, earlier, heq, hvalue, hnone⟩
    refine ⟨earlier.reverse, e, later.reverse, ?_, hvalue, ?_⟩
    · rw [← List.reverse_reverse es, heq]
      simp
    · intro e' he'
      exact hnone e' (List.mem_reverse.mp he')
  · rintro ⟨pre, e, post, rfl, hvalue, hnone⟩
    refine ⟨post.reverse, e, pre.reverse, by simp, hvalue, ?_⟩
    intro e' he'
    exact hnone e' (List.mem_reverse.mp he')

theorem isSome_last_iff : (last f es).isSome ↔ ∃ e ∈ es, (f e).isSome := by
  rw [last, List.findSome?_isSome_iff]
  simp only [List.mem_reverse]

theorem last_map {ν' : Type*} (g : ν → ν') (es : List ε) :
    last (fun e => (f e).map g) es = (last f es).map g := by
  rw [last, last, List.map_findSome?]
  rfl

/-- Events without a value may be left out. -/
theorem last_filter {p : ε → Bool} (hskip : ∀ e, p e = false → f e = none) :
    last f (es.filter p) = last f es := by
  induction es using List.reverseRecOn with
  | nil => rfl
  | append_singleton es e ih =>
    rw [List.filter_append, last_concat]
    cases hp : p e with
    | true => simp [hp, last_concat, ih]
    | false => simp [hp, hskip e hp, ih]

end Last

section Map
variable {ε κ ν : Type*} [DecidableEq κ] {key : κ} {value : ν}

def put (m : κ → Option ν) : Option (κ × ν) → κ → Option ν
  | none => m
  | some (key, value) => Function.update m key (some value)

def writtenAt (key : κ) : Option (κ × ν) → Option ν
  | none => none
  | some (key', value) => if key' = key then some value else none

theorem writtenAt_eq_some_iff {w : Option (κ × ν)} :
    writtenAt key w = some value ↔ w = some (key, value) := by
  cases w with
  | none => simp [writtenAt]
  | some w =>
    obtain ⟨key', value'⟩ := w
    by_cases hkey : key' = key
    · simp [writtenAt, hkey]
    · simp [writtenAt, hkey]

theorem put_apply (m : κ → Option ν) (w : Option (κ × ν)) :
    put m w key = (writtenAt key w).or (m key) := by
  cases w with
  | none => rfl
  | some w =>
    obtain ⟨key', value'⟩ := w
    by_cases hkey : key' = key
    · subst hkey
      simp [put, writtenAt]
    · have hother : key ≠ key' := fun h => hkey h.symm
      simp [put, writtenAt, hkey, Function.update_of_ne hother]

theorem replay_apply (write : ε → Option (κ × ν)) (key : κ) (es : List ε) (m : κ → Option ν) :
    es.foldl (fun m e => put m (write e)) m key =
      (last (fun e => writtenAt key (write e)) es).or (m key) := by
  induction es using List.reverseRecOn with
  | nil => rfl
  | append_singleton es e ih =>
    rw [List.foldl_append, List.foldl_cons, List.foldl_nil, put_apply, ih, last_concat,
      Option.or_assoc]

end Map

end Recent
