import Mathlib.Logic.Relation
import Mathlib.Data.List.Basic

/-! # Runs of a machine

A machine has a step function over states and events. A run folds the step over a
list of events. What one step preserves a whole run preserves, also when the step
preserves it only under a condition on the state and the event, and also when it
speaks of the events that came before. A step may itself be a chain of moves, and a
machine may refuse a step.
-/
namespace Run

variable {σ ε : Type*} {step : σ → ε → σ} {C : σ → ε → Prop}

def Along (step : σ → ε → σ) (C : σ → ε → Prop) : σ → List ε → Prop
  | _, [] => True
  | s, e :: es => C s e ∧ Along step C (step s e) es

theorem Along.of_forall (hC : ∀ s e, C s e) : ∀ s es, Along step C s es
  | _, [] => trivial
  | s, e :: es => ⟨hC s e, of_forall hC (step s e) es⟩

theorem Along.split {es es' : List ε} {s : σ} (h : Along step C s (es ++ es')) :
    Along step C s es ∧ Along step C (es.foldl step s) es' := by
  induction es generalizing s with
  | nil => exact ⟨trivial, h⟩
  | cons e es ih => exact ⟨⟨h.1, (ih h.2).1⟩, (ih h.2).2⟩

/-- A machine that another one projects to meets the same conditions along its runs. -/
theorem Along.lift {τ : Type*} {step' : τ → ε → τ} {es : List ε} (f : τ → σ)
    (hf : ∀ t e, f (step' t e) = step (f t) e) {t : τ} (h : Along step C (f t) es) :
    Along step' (fun t e => C (f t) e) t es := by
  induction es generalizing t with
  | nil => trivial
  | cons e es ih =>
    refine ⟨h.1, ih ?_⟩
    rw [hf]
    exact h.2

theorem Along.history {P : List ε → σ → Prop}
    (hstep : ∀ past s e, C s e → P past s → P (past ++ [e]) (step s e)) (past : List ε)
    {es : List ε} {s : σ} (hrun : Along step C s es) (h : P past s) :
    P (past ++ es) (es.foldl step s) := by
  induction es generalizing past s with
  | nil => simpa using h
  | cons e es ih =>
    have hnext := ih (past ++ [e]) hrun.2 (hstep past s e hrun.1 h)
    simpa using hnext

theorem Along.invariant {P : σ → Prop} (hstep : ∀ s e, C s e → P s → P (step s e))
    {es : List ε} {s : σ} (hrun : Along step C s es) (h : P s) : P (es.foldl step s) :=
  hrun.history (P := fun _ s => P s) (fun _ s e => hstep s e) [] h

/-- The condition may be read together with what it preserves. -/
theorem Along.with_invariant {P : σ → Prop} (hstep : ∀ s e, C s e → P s → P (step s e))
    {es : List ε} {s : σ} (hrun : Along step C s es) (h : P s) :
    Along step (fun s e => C s e ∧ P s) s es := by
  induction es generalizing s with
  | nil => trivial
  | cons e es ih => exact ⟨⟨hrun.1, h⟩, ih hrun.2 (hstep s e hrun.1 h)⟩

theorem invariant {P : σ → Prop} (hstep : ∀ s e, P s → P (step s e)) (es : List ε) {s : σ}
    (h : P s) : P (es.foldl step s) :=
  (Along.of_forall (C := fun _ _ => True) (fun _ _ => trivial) s es).invariant
    (fun s e _ => hstep s e) h

theorem along_iff_forall (step : σ → ε → σ) (C : σ → ε → Prop) {es : List ε} {s : σ} :
    Along step C s es ↔ ∀ pre e post, es = pre ++ e :: post → C (pre.foldl step s) e := by
  induction es generalizing s with
  | nil =>
    apply iff_of_true trivial
    intro pre e post heq
    simp at heq
  | cons e es ih =>
    constructor
    · rintro ⟨hfirst, hrest⟩ pre e' post heq
      cases pre with
      | nil => exact (List.cons.inj heq).1 ▸ hfirst
      | cons e'' pre =>
        obtain ⟨rfl, htail⟩ := List.cons.inj heq
        exact ih.mp hrest pre e' post htail
    · intro h
      refine ⟨h [] e es rfl, ih.mpr ?_⟩
      intro pre e' post heq
      exact h (e :: pre) e' post (by rw [heq]; rfl)

/-- Two conditions that agree where an invariant holds, and of which one keeps it, hold
along the same runs. -/
theorem Along.congr {I : σ → Prop} {D : σ → ε → Prop} {P : ε → Prop}
    (hiff : ∀ s e, P e → I s → (C s e ↔ D s e)) (hkeep : ∀ s e, P e → I s → C s e → I (step s e))
    {es : List ε} {s : σ} (hes : ∀ e ∈ es, P e) (h : I s) :
    Along step C s es ↔ Along step D s es := by
  induction es generalizing s with
  | nil => exact Iff.rfl
  | cons e es ih =>
    have he := hes e List.mem_cons_self
    have hrest : ∀ e' ∈ es, P e' := fun e' he' => hes e' (List.mem_cons_of_mem _ he')
    constructor
    · rintro ⟨hfirst, htail⟩
      exact ⟨(hiff s e he h).mp hfirst, (ih hrest (hkeep s e he h hfirst)).mp htail⟩
    · rintro ⟨hfirst, htail⟩
      have hfirst' := (hiff s e he h).mpr hfirst
      exact ⟨hfirst', (ih hrest (hkeep s e he h hfirst')).mpr htail⟩

theorem chain_invariant {move : σ → σ → Prop} {P : σ → Prop}
    (hmove : ∀ s t, move s t → P s → P t) {s t : σ} (h : Relation.ReflTransGen move s t) :
    P s → P t := by
  induction h with
  | refl => exact id
  | tail _ hlast ih => exact fun hs => hmove _ _ hlast (ih hs)

section Countdown
variable {m : σ → ℕ} {good : ε → Bool}

/-- A measure that never grows and that every good event lowers runs out after as many good
events. -/
theorem Along.countdown (hle : ∀ s e, C s e → m (step s e) ≤ m s)
    (hlt : ∀ s e, C s e → good e = true → m s ≠ 0 → m (step s e) < m s) {es : List ε} {s : σ}
    (hrun : Along step C s es) : m (es.foldl step s) ≤ m s - es.countP good := by
  induction es generalizing s with
  | nil => exact Nat.le_refl _
  | cons e es ih =>
    have hrest := ih hrun.2
    have hfirst := hle s e hrun.1
    rw [List.foldl_cons]
    by_cases hgood : good e = true
    · rw [List.countP_cons_of_pos hgood]
      have hlower := hlt s e hrun.1 hgood
      omega
    · rw [List.countP_cons_of_neg hgood]
      omega

end Countdown

section Timed
variable {α : Type*} {P : List α → α → Prop} {l : List α}

/-- Each item of a history meets a condition on the items before it. -/
def Timed (P : List α → α → Prop) (l : List α) : Prop :=
  ∀ pre a post, l = pre ++ a :: post → P pre a

theorem Timed.mono {Q : List α → α → Prop} (h : Timed P l) (himp : ∀ pre a, P pre a → Q pre a) :
    Timed Q l := fun pre a post heq => himp pre a (h pre a post heq)

theorem Timed.left {l' : List α} (h : Timed P (l ++ l')) : Timed P l := by
  intro pre a post heq
  exact h pre a (post ++ l') (by simp [heq])

theorem Timed.snoc {a : α} (h : Timed P l) (ha : P l a) : Timed P (l ++ [a]) := by
  intro pre b post heq
  rcases List.eq_nil_or_concat post with rfl | ⟨post', last, rfl⟩
  · obtain ⟨rfl, hlast⟩ := List.append_inj' heq rfl
    exact List.singleton_inj.mp hlast ▸ ha
  · have heq' : l ++ [a] = (pre ++ b :: post') ++ [last] := by simpa using heq
    exact h pre b post' (List.append_inj' heq' rfl).1

theorem Timed.extend {items : List α} (h : Timed P l)
    (hitems : ∀ pre a post, items = pre ++ a :: post → P (l ++ pre) a) : Timed P (l ++ items) := by
  induction items generalizing l with
  | nil => simpa using h
  | cons a rest ih =>
    have hnext := h.snoc (by simpa using hitems [] a rest rfl)
    rw [← List.singleton_append, ← List.append_assoc]
    refine ih hnext fun pre b post heq => ?_
    rw [List.append_assoc]
    exact hitems (a :: pre) b post (by rw [heq]; rfl)

theorem Timed.append {items : List α} (h : Timed P l) (hitems : ∀ a ∈ items, ∀ pre, P pre a) :
    Timed P (l ++ items) :=
  h.extend fun pre a _ heq => hitems a (by simp [heq]) (l ++ pre)

theorem Timed.of_forall (h : ∀ a ∈ l, ∀ pre, P pre a) : Timed P l :=
  fun pre a _ heq => h a (by simp [heq]) pre

end Timed

section Partial
variable {next : σ → ε → Option σ} {P : σ → Prop}

/-- A run of a machine that may refuse a step. -/
def Steps (next : σ → ε → Option σ) (s : σ) (es : List ε) : Option σ := es.foldlM next s

@[simp] theorem steps_nil (s : σ) : Steps next s [] = some s := rfl

theorem steps_cons {e : ε} {es : List ε} {s s' : σ} :
    Steps next s (e :: es) = some s' ↔ ∃ t, next s e = some t ∧ Steps next t es = some s' :=
  Option.bind_eq_some_iff

theorem steps_invariant (hstep : ∀ s e t, next s e = some t → P s → P t) {es : List ε} {s s' : σ}
    (hrun : Steps next s es = some s') (h : P s) : P s' := by
  induction es generalizing s with
  | nil => exact Option.some.inj hrun ▸ h
  | cons e es ih =>
    obtain ⟨t, hfirst, hrest⟩ := steps_cons.mp hrun
    exact ih hrest (hstep s e t hfirst h)

/-- What holds at the end of a run and not at its start, some step has brought about. -/
theorem steps_turn {es : List ε} {s s' : σ} (hrun : Steps next s es = some s') (hnot : ¬ P s)
    (h : P s') : ∃ pre e post t t', es = pre ++ e :: post ∧ Steps next s pre = some t ∧
      next t e = some t' ∧ ¬ P t ∧ P t' := by
  induction es generalizing s with
  | nil => exact absurd (Option.some.inj hrun ▸ h) hnot
  | cons e es ih =>
    obtain ⟨t, hfirst, hrest⟩ := steps_cons.mp hrun
    by_cases ht : P t
    · exact ⟨[], e, es, s, t, rfl, rfl, hfirst, hnot, ht⟩
    · obtain ⟨pre, e', post, t', t'', rfl, hpre, hturn⟩ := ih hrest ht
      exact ⟨e :: pre, e', post, t', t'', rfl, steps_cons.mpr ⟨t, hfirst, hpre⟩, hturn⟩

/-- A measure that never grows and that every good step lowers bounds how many of them there
are. -/
theorem steps_countdown {m : σ → ℕ} {good : ε → Bool}
    (hstep : ∀ s e t, next s e = some t → P s → P t)
    (hle : ∀ s e t, next s e = some t → P s → m t + (if good e then 1 else 0) ≤ m s)
    {es : List ε} {s s' : σ} (hrun : Steps next s es = some s') (h : P s) :
    m s' + es.countP good ≤ m s := by
  induction es generalizing s with
  | nil => exact Option.some.inj hrun ▸ Nat.le_refl _
  | cons e es ih =>
    obtain ⟨t, hfirst, hrest⟩ := steps_cons.mp hrun
    have hlater := ih hrest (hstep s e t hfirst h)
    have hnow := hle s e t hfirst h
    rw [List.countP_cons]
    omega

end Partial

end Run
