import Mathlib.Data.List.Basic

/-! # Footprints

The ranges of a memory that a computation reads or writes. A footprint below a bound stays inside
a buffer of that length, memories that agree on what is read are the same to the computation, and
outside of what is written the memory is left as it was.
-/
namespace Footprint

structure Range where
  start : Nat
  count : Nat
  deriving DecidableEq, Repr

variable {β : Type*} {n : Nat} {r : Range} {rs rs' : List Range} {m m' : Nat → β}

def Range.Below (r : Range) (n : Nat) : Prop := ∀ i < r.count, r.start + i < n

instance (r : Range) (n : Nat) : Decidable (r.Below n) :=
  inferInstanceAs (Decidable (∀ i < r.count, r.start + i < n))

theorem Range.below_iff {start count : Nat} (hcount : 0 < count) :
    Range.Below ⟨start, count⟩ n ↔ start + count ≤ n := by
  constructor
  · intro h
    have hlast := h (count - 1) (Nat.sub_one_lt_of_lt hcount)
    simp only at hlast
    omega
  · intro h i hi
    simp only at hi ⊢
    omega

/-- The footprint stays inside a buffer of the length. -/
def Below (rs : List Range) (n : Nat) : Prop := ∀ r ∈ rs, r.Below n

instance (rs : List Range) (n : Nat) : Decidable (Below rs n) :=
  inferInstanceAs (Decidable (∀ r ∈ rs, r.Below n))

theorem Below.mono {k : Nat} (h : Below rs n) (hle : n ≤ k) : Below rs k :=
  fun r hr i hi => Nat.lt_of_lt_of_le (h r hr i hi) hle

@[simp] theorem below_nil : Below [] n := by simp [Below]

@[simp] theorem below_cons : Below (r :: rs) n ↔ r.Below n ∧ Below rs n := List.forall_mem_cons

@[simp] theorem below_append : Below (rs ++ rs') n ↔ Below rs n ∧ Below rs' n :=
  List.forall_mem_append

@[simp] theorem below_flatMap {ι : Type*} {is : List ι} {f : ι → List Range} :
    Below (is.flatMap f) n ↔ ∀ i ∈ is, Below (f i) n := List.forall_mem_flatMap

/-- What is read behind a guard. -/
def guarded (P : Prop) [Decidable P] (rs : List Range) : List Range := if P then rs else []

@[simp] theorem below_guarded {P : Prop} [Decidable P] : Below (guarded P rs) n ↔ (P → Below rs n) := by
  unfold guarded
  split <;> simp [*]

/-- The memories agree on the footprint. -/
def Agree (rs : List Range) (m m' : Nat → β) : Prop :=
  ∀ r ∈ rs, ∀ i < r.count, m (r.start + i) = m' (r.start + i)

@[simp] theorem agree_cons : Agree (r :: rs) m m' ↔
    (∀ i < r.count, m (r.start + i) = m' (r.start + i)) ∧ Agree rs m m' := List.forall_mem_cons

@[simp] theorem agree_append : Agree (rs ++ rs') m m' ↔ Agree rs m m' ∧ Agree rs' m m' :=
  List.forall_mem_append

@[simp] theorem agree_nil : Agree [] m m' := by simp [Agree]

@[simp] theorem agree_guarded {P : Prop} [Decidable P] :
    Agree (guarded P rs) m m' ↔ (P → Agree rs m m') := by
  unfold guarded
  split <;> simp [*]

/-- A computation whose footprint is inside the buffer does not see what lies behind it. -/
theorem Below.agree (h : Below rs n) (hsame : ∀ i < n, m i = m' i) : Agree rs m m' :=
  fun r hr i hi => hsame _ (h r hr i hi)

/-- Outside the ranges that are written the memory is as before. -/
def Frame (ws : List Range) (m m' : Nat → β) : Prop :=
  ∀ k, (∀ r ∈ ws, k < r.start ∨ r.start + r.count ≤ k) → m' k = m k

theorem Frame.refl (ws : List Range) (m : Nat → β) : Frame ws m m := fun _ _ => rfl

theorem Frame.trans {m'' : Nat → β} (h : Frame rs m m') (h' : Frame rs' m' m'') :
    Frame (rs ++ rs') m m'' := by
  intro k hk
  rw [h' k fun r hr => hk r (List.mem_append_right _ hr),
    h k fun r hr => hk r (List.mem_append_left _ hr)]

end Footprint
