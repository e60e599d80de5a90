import Mathlib.Data.List.TakeDrop
import Mathlib.Data.List.Nodup
import Mathlib.Data.List.Forall2
import Mathlib.Order.Defs.PartialOrder

/-! # Tables as lists

A table is a list of entries of which some have a key. It is searched from the front,
an entry is replaced where it stands, and a loop over all entries may change or drop each.
-/
namespace Table

variable {α κ τ : Type*} {key : α → Option κ} {test : α → Bool} {l : List α}

/-- A search for the first entry that passes the test: where the list is cut, or that no
entry passes. -/
theorem search (test : α → Bool) (l : List α) :
    (∃ before a rest, l.span (fun x => !test x) = (before, a :: rest) ∧
      l = before ++ a :: rest ∧ test a = true ∧ ∀ b ∈ before, test b = false) ∨
    (l.span (fun x => !test x) = (l, []) ∧ ∀ b ∈ l, test b = false) := by
  induction l with
  | nil => exact .inr ⟨rfl, by simp⟩
  | cons a l ih =>
    by_cases ha : test a = true
    · exact .inl ⟨[], a, l, by simp [List.span_eq_takeWhile_dropWhile, ha], rfl, ha, by simp⟩
    have ha' : test a = false := by simpa using ha
    have hspan : (a :: l).span (fun x => !test x) =
        (a :: (l.span fun x => !test x).1, (l.span fun x => !test x).2) := by
      simp [List.span_eq_takeWhile_dropWhile, ha']
    rw [hspan]
    rcases ih with ⟨before, b, rest, hcut, heq, hb, hbefore⟩ | ⟨hcut, hnone⟩
    · refine .inl ⟨a :: before, b, rest, ?_, ?_, hb, ?_⟩
      · rw [hcut]
      · rw [heq]
        rfl
      · simpa [ha'] using hbefore
    · refine .inr ⟨?_, ?_⟩
      · rw [hcut]
      · simpa [ha'] using hnone

/-- The search cuts the list at the entry that is found first. -/
theorem search_found {a : α} (h : l.find? test = some a) :
    ∃ before rest, l.span (fun x => !test x) = (before, a :: rest) ∧ l = before ++ a :: rest ∧
      test a = true ∧ ∀ b ∈ before, test b = false := by
  rcases search test l with ⟨before, b, rest, hcut, hlist, hb, hbefore⟩ | ⟨-, hnone⟩
  · have hfind : l.find? test = some b :=
      List.find?_eq_some_iff_append.mpr ⟨hb, before, rest, hlist, by simpa using hbefore⟩
    obtain rfl := Option.some.inj (hfind.symm.trans h)
    exact ⟨before, rest, hcut, hlist, hb, hbefore⟩
  · exact absurd (List.find?_some h) (by simp [hnone a (List.mem_of_find?_eq_some h)])

def keys (key : α → Option κ) (l : List α) : List κ := l.filterMap key

@[simp] theorem keys_cons_none {a : α} (h : key a = none) (l : List α) :
    keys key (a :: l) = keys key l := by
  simp [keys, h]

@[simp] theorem keys_cons_some {a : α} {k : κ} (h : key a = some k) (l : List α) :
    keys key (a :: l) = k :: keys key l := by
  simp [keys, h]

theorem mem_keys {k : κ} : k ∈ keys key l ↔ ∃ a ∈ l, key a = some k := by simp [keys]

theorem keys_replace {a b : α} (h : key b = key a) (before rest : List α) :
    keys key (before ++ b :: rest) = keys key (before ++ a :: rest) := by
  simp [keys, List.filterMap_append, List.filterMap_cons, h]

theorem nodup_replace {a b : α} {j k : κ} {before rest : List α} (ha : key a = some j)
    (hb : key b = some k) (hnew : k ∉ keys key (before ++ a :: rest))
    (h : (keys key (before ++ a :: rest)).Nodup) : (keys key (before ++ b :: rest)).Nodup := by
  simp only [keys, List.filterMap_append, List.filterMap_cons, ha, hb] at hnew h ⊢
  rw [List.nodup_middle] at h ⊢
  rw [List.nodup_cons] at h ⊢
  refine ⟨fun hmem => hnew ?_, h.2⟩
  rcases List.mem_append.mp hmem with hmem | hmem
  · exact List.mem_append_left _ hmem
  · exact List.mem_append_right _ (List.mem_cons_of_mem _ hmem)

/-- With unique keys the search for a key finds the entry that has it. -/
theorem eq_of_key {a b : α} {k : κ} (h : (keys key l).Nodup) (ha : a ∈ l) (hb : b ∈ l)
    (hka : key a = some k) (hkb : key b = some k) : a = b := by
  induction l with
  | nil => simp at ha
  | cons c l ih =>
    have hrest : (keys key l).Nodup := h.sublist ((List.sublist_cons_self c l).filterMap key)
    have hfirst {d : α} (hc : key c = some k) (hd : d ∈ l) (hkd : key d = some k) : False := by
      rw [keys_cons_some hc, List.nodup_cons] at h
      exact h.1 (mem_keys.mpr ⟨d, hd, hkd⟩)
    rcases List.mem_cons.mp ha with rfl | hrestA
    · rcases List.mem_cons.mp hb with rfl | hrestB
      · rfl
      · exact (hfirst hka hrestB hkb).elim
    · rcases List.mem_cons.mp hb with rfl | hrestB
      · exact (hfirst hkb hrestA hka).elim
      · exact ih hrest hrestA hrestB

/-- A loop over all entries with a state; `none` drops the entry. -/
def sweep (f : α → τ → Option α × τ) : List α → τ → List α × τ
  | [], t => ([], t)
  | a :: l, t =>
    let (kept, t) := f a t
    let (rest, t) := sweep f l t
    (kept.toList ++ rest, t)

/-- What holds of the table and the state holds after the loop when the turn of each entry,
with the entries before it done and those after it to come, preserves it. -/
theorem sweep_invariant {f : α → τ → Option α × τ} {I : List α → τ → Prop}
    (hf : ∀ before a rest t, I (before ++ a :: rest) t →
      I (before ++ ((f a t).1.toList ++ rest)) (f a t).2) (before l : List α) (t : τ)
    (h : I (before ++ l) t) : I (before ++ (sweep f l t).1) (sweep f l t).2 := by
  induction l generalizing before t with
  | nil => exact h
  | cons a l ih =>
    have hturn : I ((before ++ (f a t).1.toList) ++ l) (f a t).2 := by
      simpa using hf before a l t h
    simpa [sweep] using ih (before ++ (f a t).1.toList) (f a t).2 hturn

/-- An entry that a loop keeps had its turn, between the first state and the last one. -/
theorem mem_sweep {f : α → τ → Option α × τ} {R : τ → τ → Prop} (hrefl : ∀ t, R t t)
    (htrans : ∀ r s t, R r s → R s t → R r t) (hf : ∀ a t, R t (f a t).2) {l : List α} {t : τ}
    {b : α} (hb : b ∈ (sweep f l t).1) :
    ∃ a s, R t s ∧ (f a s).1 = some b ∧ R (f a s).2 (sweep f l t).2 := by
  have hlate (l : List α) (t : τ) : R t (sweep f l t).2 := by
    induction l generalizing t with
    | nil => exact hrefl t
    | cons a l ih => exact htrans _ _ _ (hf a t) (ih (f a t).2)
  induction l generalizing t with
  | nil => simp [sweep] at hb
  | cons a l ih =>
    rcases List.mem_append.mp hb with hb | hb
    · exact ⟨a, t, hrefl t, Option.mem_toList.mp hb, hlate l _⟩
    · obtain ⟨c, s, hs, hkept, hend⟩ := ih hb
      exact ⟨c, s, htrans _ _ _ (hf a t) hs, hkept, hend⟩

/-- What each turn makes of an entry that is as all of them are before the loop. -/
theorem forall_sweep {f : α → τ → Option α × τ} {P Q : α → Prop}
    (hf : ∀ a t, P a → ∀ b ∈ (f a t).1, Q b) (h : ∀ a ∈ l, P a) (t : τ) :
    ∀ b ∈ (sweep f l t).1, Q b := by
  intro b hb
  induction l generalizing t with
  | nil => exact absurd hb List.not_mem_nil
  | cons a l ih =>
    rcases List.mem_append.mp hb with hkept | hrest
    · exact hf a t (h a List.mem_cons_self) b (Option.mem_toList.mp hkept)
    · exact ih (fun a' ha' => h a' (List.mem_cons_of_mem _ ha')) _ hrest

section Gather
variable {β : Type*} (f : α → τ → Option α × τ)

/-- The turn of an entry in a loop with an accumulator beside its state. -/
def gather (g : α → τ → β → β) (a : α) (s : τ × β) : Option α × τ × β :=
  ((f a s.1).1, (f a s.1).2, g a s.1 s.2)

/-- The accumulator changes neither what is kept nor the state. -/
theorem sweep_gather (g : α → τ → β → β) (l : List α) (t : τ) (b : β) :
    sweep (gather f g) l (t, b) = ((sweep f l t).1, (sweep f l t).2,
      (sweep (gather f g) l (t, b)).2.2) := by
  induction l generalizing t b with
  | nil => rfl
  | cons a l ih =>
    simp only [sweep, gather]
    rw [ih]

/-- An accumulator that looks at the kept entries alone folds them. -/
theorem gather_kept (g : β → α → β) (l : List α) (t : τ) (b : β) :
    (sweep (gather f fun a t b => (f a t).1.elim b (g b)) l (t, b)).2.2 =
      (sweep f l t).1.foldl g b := by
  induction l generalizing t b with
  | nil => rfl
  | cons a l ih =>
    simp only [sweep, gather, List.foldl_append, ih]
    cases (f a t).1 <;> rfl

/-- A fold that never grows is below what it makes of any entry of the list. -/
theorem foldl_le [Preorder β] {g : β → α → β} (hg : ∀ b a, g b a ≤ b) (l : List α) (b : β) :
    l.foldl g b ≤ b ∧ ∀ c, ∀ a ∈ l, (∀ b, g b a ≤ c) → l.foldl g b ≤ c := by
  induction l generalizing b with
  | nil => simp
  | cons a l ih =>
    obtain ⟨hle, hmem⟩ := ih (g b a)
    refine ⟨le_trans hle (hg b a), ?_⟩
    intro c d hd hc
    rcases List.mem_cons.mp hd with rfl | hd
    · exact le_trans hle (hc b)
    · exact hmem c d hd hc

/-- A flag that a turn sets stays set. -/
theorem gather_or (p : α → τ → Bool) (l : List α) (t : τ) (b : Bool) :
    (sweep (gather f fun a t b => b || p a t) l (t, b)).2.2 = true ↔
      b = true ∨ ∃ before a rest, l = before ++ a :: rest ∧ p a (sweep f before t).2 = true := by
  induction l generalizing t b with
  | nil => simp [sweep]
  | cons a l ih =>
    simp only [sweep, gather, ih, Bool.or_eq_true, or_assoc]
    refine or_congr_right ⟨?_, ?_⟩
    · rintro (ha | ⟨before, c, rest, rfl, hc⟩)
      · exact ⟨[], a, l, rfl, ha⟩
      · exact ⟨a :: before, c, rest, rfl, hc⟩
    · rintro ⟨before, c, rest, hl, hc⟩
      cases before with
      | nil =>
        obtain ⟨rfl, rfl⟩ := List.cons.inj hl
        exact .inl hc
      | cons d before =>
        obtain ⟨rfl, rfl⟩ := List.cons.inj hl
        exact .inr ⟨before, c, rest, rfl, hc⟩

end Gather

/-- A loop that looks at each entry alone drops some entries and maps the others. -/
theorem sweep_eq_map {f : α → τ → Option α × τ} {keep : α → Bool} {g : α → α}
    (hf : ∀ a t, (f a t).1 = if keep a then some (g a) else none) (l : List α) (t : τ) :
    (sweep f l t).1 = (l.filter keep).map g := by
  induction l generalizing t with
  | nil => rfl
  | cons a l ih =>
    simp only [sweep, hf, ih]
    by_cases hkeep : keep a = true
    · simp [hkeep]
    · simp [hkeep]

section Later
variable {R : α → α → Prop} {l' : List α}

/-- The loop keeps the order of the entries it does not drop. -/
theorem sweep_later {f : α → τ → Option α × τ} (hR : ∀ a t b, (f a t).1 = some b → R b a)
    (l : List α) (t : τ) : List.SublistForall₂ R (sweep f l t).1 l := by
  induction l generalizing t with
  | nil => exact .nil
  | cons a l ih =>
    simp only [sweep]
    cases hkept : (f a t).1 with
    | none => exact .cons_right (ih _)
    | some b => exact .cons (hR a t b hkept) (ih _)

theorem replace_later [Std.Refl R] {a b : α} (h : R b a) (before rest : List α) :
    List.SublistForall₂ R (before ++ b :: rest) (before ++ a :: rest) := by
  induction before with
  | nil => exact .cons h (Std.Refl.refl rest)
  | cons c before ih => exact .cons (Std.Refl.refl c) ih

theorem keys_later (hkey : ∀ b a, R b a → key b = key a) (h : List.SublistForall₂ R l' l) :
    (keys key l').Sublist (keys key l) := by
  induction h with
  | nil => exact List.nil_sublist _
  | @cons b a l' l hba _ ih =>
    have hsame := hkey b a hba
    cases hka : key a with
    | none => rwa [keys_cons_none hka, keys_cons_none (hsame.trans hka)]
    | some k =>
      rw [keys_cons_some hka, keys_cons_some (hsame.trans hka)]
      exact ih.cons_cons k
  | cons_right _ ih => exact ih.trans ((List.sublist_cons_self _ _).filterMap key)

theorem forall_later {P : α → Prop} (hP : ∀ b a, R b a → P a → P b)
    (h : List.SublistForall₂ R l' l) (hall : ∀ a ∈ l, P a) : ∀ b ∈ l', P b := by
  induction h with
  | nil => simp
  | @cons b a l' l hba _ ih =>
    intro c hc
    rcases List.mem_cons.mp hc with rfl | hc
    · exact hP c a hba (hall a List.mem_cons_self)
    · exact ih (fun d hd => hall d (List.mem_cons_of_mem a hd)) c hc
  | @cons_right a l' l _ ih => exact ih (fun d hd => hall d (List.mem_cons_of_mem a hd))

end Later

section Labels
variable {μ ω : Type*} {R : α → μ → Prop} {Q : μ → ω → Prop} {ms : List μ}

/-- The labels of the entries that a loop keeps. -/
def labels (f : α → τ → Option α × τ) : List α → List μ → τ → List μ
  | a :: l, m :: ms, t => (if (f a t).1.isSome then [m] else []) ++ labels f l ms (f a t).2
  | _, _, _ => []

theorem labels_sublist (f : α → τ → Option α × τ) (l : List α) (ms : List μ) (t : τ) :
    (labels f l ms t).Sublist ms := by
  induction l generalizing ms t with
  | nil => cases ms <;> exact List.nil_sublist _
  | cons a l ih =>
    cases ms with
    | nil => exact List.nil_sublist _
    | cons m ms =>
      simp only [labels]
      split
      · exact (ih ms _).cons_cons m
      · exact (ih ms _).cons m

/-- A loop with a log: the entries keep what ties them to their labels, and each item of the
log belongs to a label. -/
theorem sweep_labels {f : α → List ω → Option α × List ω}
    (hf : ∀ a m t, R a m →
      (∀ b ∈ (f a t).1, R b m) ∧ ∃ os, (f a t).2 = t ++ os ∧ ∀ o ∈ os, Q m o)
    (h : List.Forall₂ R l ms) (t : List ω) :
    List.Forall₂ R (sweep f l t).1 (labels f l ms t) ∧
      ∃ os, (sweep f l t).2 = t ++ os ∧ ∀ o ∈ os, ∃ m ∈ ms, Q m o := by
  induction h generalizing t with
  | nil => exact ⟨.nil, [], by simp [sweep], by simp⟩
  | @cons a m l ms ham _ ih =>
    obtain ⟨hkept, os, hout, hos⟩ := hf a m t ham
    obtain ⟨hrest, vs, hvs, hlog⟩ := ih (f a t).2
    simp only [sweep, labels]
    constructor
    · cases hfa : (f a t).1 with
      | none => simpa using hrest
      | some b => simpa using ⟨hkept b hfa, hrest⟩
    · refine ⟨os ++ vs, by rw [hvs, hout, List.append_assoc], ?_⟩
      intro o ho
      rcases List.mem_append.mp ho with ho | ho
      · exact ⟨m, List.mem_cons_self, hos o ho⟩
      · obtain ⟨m', hm', hQ⟩ := hlog o ho
        exact ⟨m', List.mem_cons_of_mem m hm', hQ⟩

theorem eq_append_of_splitAt {i : Nat} {a : α} {before rest : List α}
    (h : l.splitAt i = (before, a :: rest)) : l = before ++ a :: rest := by
  rw [List.splitAt_eq] at h
  obtain ⟨rfl, hdrop⟩ := Prod.mk.inj h
  rw [← hdrop]
  exact (List.take_append_drop ..).symm

theorem splitAt_some {i : Nat} {a : α} (h : l[i]? = some a) :
    l.splitAt i = (l.take i, a :: l.drop (i + 1)) := by
  rw [List.splitAt_eq, List.drop_eq_getElem?_toList_append, h]
  rfl

/-- What the relation says of an entry alone holds of all entries. -/
theorem forall_of_labels {P : α → Prop} (hR : ∀ a m, R a m → P a) (h : List.Forall₂ R l ms) :
    ∀ a ∈ l, P a :=
  ((List.forall₂_and_left l ms).mp (h.imp fun a m hr => ⟨hR a m hr, hr⟩)).1

theorem replace_labels {a b : α} (hR : ∀ m, R a m → R b m) {before rest : List α}
    (h : List.Forall₂ R (before ++ a :: rest) ms) : List.Forall₂ R (before ++ b :: rest) ms := by
  induction before generalizing ms with
  | nil =>
    cases h with
    | cons ham hrest => exact .cons (hR _ ham) hrest
  | cons c before ih =>
    cases h with
    | cons hcm hrest => exact .cons hcm (ih hrest)

theorem label_of_getElem? {i : Nat} {a : α} (h : List.Forall₂ R l ms) (ha : l[i]? = some a) :
    ∃ m, ms[i]? = some m ∧ R a m := by
  induction h generalizing i with
  | nil => simp at ha
  | @cons b m l ms hbm _ ih =>
    cases i with
    | zero =>
      obtain rfl : b = a := by simpa using ha
      exact ⟨m, by simp, hbm⟩
    | succ i => simpa using ih (i := i) (by simpa using ha)

theorem modify_labels {i : Nat} {f : μ → μ} (hf : ∀ a m, l[i]? = some a → R a m → R a (f m))
    (h : List.Forall₂ R l ms) : List.Forall₂ R l (ms.modify i f) := by
  induction h generalizing i with
  | nil => simp
  | @cons a m l ms ham hrest ih =>
    cases i with
    | zero => exact .cons (hf a m (by simp) ham) hrest
    | succ i => exact .cons ham (ih fun b m hb => hf b m (by simpa using hb))

end Labels

end Table
