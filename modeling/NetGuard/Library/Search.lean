import NetGuard.Library.Regex
import Mathlib.Computability.Language

/-! # What a search finds

An expression without boundaries reads the texts of a language. A search goes through a
text from left to right: where a fragment begins it takes the fragment and goes on behind
it, and elsewhere it goes on with the next symbol.
-/
namespace Regex
variable {α : Type*} {r s : Regex α} {L M : Language α} {c e : Cursor α} {word : α → Bool}

section Reads

/-- The ends of `r` are those behind a text of `L`. -/
def Reads (r : Regex α) (L : Language α) : Prop :=
  ∀ c e : Cursor α, e ∈ r.ends c ↔
    ∃ x ∈ L, c.rest = x ++ e.rest ∧ e.previous = x.getLast?.or c.previous

/-- The texts of one symbol. -/
def symbol (p : α → Bool) : Language α := {x | ∃ a, p a = true ∧ x = [a]}

theorem mem_symbol {p : α → Bool} {x : List α} : x ∈ symbol p ↔ ∃ a, p a = true ∧ x = [a] := Iff.rfl

/-- At most `n` texts of `L`. -/
def atMost (n : Nat) (L : Language α) : Language α := {x | ∃ k ≤ n, x ∈ L ^ k}

theorem mem_atMost {n : Nat} {x : List α} : x ∈ atMost n L ↔ ∃ k ≤ n, x ∈ L ^ k := Iff.rfl

theorem Reads.of_iff (hr : Reads r L) (h : ∀ x, x ∈ L ↔ x ∈ M) : Reads r M := by
  intro c e
  rw [hr c e]
  exact exists_congr fun x => and_congr_left' (h x)

theorem reads_empty : Reads (.empty : Regex α) 1 := by
  intro c e
  simp only [ends, List.mem_singleton, Language.mem_one, exists_eq_left, List.nil_append,
    List.getLast?_nil, Option.none_or]
  obtain ⟨previous, rest⟩ := c
  obtain ⟨previous', rest'⟩ := e
  rw [Cursor.mk.injEq, and_comm, eq_comm (a := rest')]

theorem reads_one (p : α → Bool) : Reads (.one p) (symbol p) := by
  rintro ⟨previous, text⟩ ⟨previous', rest'⟩
  have hmem : (∃ x ∈ symbol p, text = x ++ rest' ∧ previous' = x.getLast?.or previous) ↔
      ∃ a, p a = true ∧ text = a :: rest' ∧ previous' = some a := by
    constructor
    · rintro ⟨x, ⟨a, ha, rfl⟩, htext, hprevious⟩
      exact ⟨a, ha, htext, hprevious⟩
    · rintro ⟨a, ha, htext, hprevious⟩
      exact ⟨[a], ⟨a, ha, rfl⟩, htext, hprevious⟩
  rw [hmem]
  cases text with
  | nil => simp [ends]
  | cons b rest =>
    simp only [ends, List.cons.injEq]
    split
    next hb =>
      rw [List.mem_singleton, Cursor.mk.injEq]
      constructor
      · rintro ⟨rfl, rfl⟩
        exact ⟨b, hb, ⟨rfl, rfl⟩, rfl⟩
      · rintro ⟨a, -, ⟨rfl, rfl⟩, rfl⟩
        exact ⟨rfl, rfl⟩
    next hb =>
      simp only [List.not_mem_nil, false_iff]
      rintro ⟨a, ha, ⟨rfl, -⟩, -⟩
      exact hb ha

theorem Reads.seq (hr : Reads r L) (hs : Reads s M) : Reads (.seq r s) (L * M) := by
  intro c e
  rw [ends, List.mem_flatMap]
  constructor
  · rintro ⟨d, hd, he⟩
    obtain ⟨x, hx, hrest, hprevious⟩ := (hr c d).mp hd
    obtain ⟨y, hy, hrest', hprevious'⟩ := (hs d e).mp he
    refine ⟨x ++ y, Language.append_mem_mul hx hy, ?_, ?_⟩
    · rw [hrest, hrest', List.append_assoc]
    · rw [hprevious', hprevious, List.getLast?_append, Option.or_assoc]
  · rintro ⟨z, hz, hrest, hprevious⟩
    obtain ⟨x, hx, y, hy, rfl⟩ := Language.mem_mul.mp hz
    refine ⟨⟨x.getLast?.or c.previous, y ++ e.rest⟩, ?_, ?_⟩
    · exact (hr _ _).mpr ⟨x, hx, by rw [hrest, List.append_assoc], rfl⟩
    · refine (hs _ _).mpr ⟨y, hy, rfl, ?_⟩
      rw [hprevious, List.getLast?_append, Option.or_assoc]

theorem Reads.alt (hr : Reads r L) (hs : Reads s M) : Reads (.alt r s) (L + M) := by
  intro c e
  rw [ends, List.mem_append, hr c e, hs c e]
  simp only [Language.mem_add, or_and_right, exists_or]

theorem Reads.exactly (hr : Reads r L) (n : Nat) : Reads (exactly n r) (L ^ n) := by
  induction n with
  | zero => exact reads_empty
  | succ n ih =>
    rw [pow_succ']
    exact hr.seq ih

theorem atMost_zero (L : Language α) : atMost 0 L = 1 := by
  ext x
  rw [mem_atMost]
  constructor
  · rintro ⟨k, hk, hx⟩
    obtain rfl := Nat.le_zero.mp hk
    rwa [pow_zero] at hx
  · intro hx
    exact ⟨0, le_rfl, by rwa [pow_zero]⟩

theorem atMost_succ (n : Nat) (L : Language α) : atMost (n + 1) L = L * atMost n L + 1 := by
  ext x
  rw [Language.mem_add, mem_atMost]
  constructor
  · rintro ⟨k, hk, hx⟩
    cases k with
    | zero => exact .inr (by rwa [pow_zero] at hx)
    | succ k =>
      rw [pow_succ'] at hx
      obtain ⟨y, hy, z, hz, rfl⟩ := Language.mem_mul.mp hx
      exact .inl (Language.append_mem_mul hy ⟨k, by omega, hz⟩)
  · rintro (hx | hx)
    · obtain ⟨y, hy, z, ⟨k, hk, hz⟩, rfl⟩ := Language.mem_mul.mp hx
      refine ⟨k + 1, by omega, ?_⟩
      rw [pow_succ']
      exact Language.append_mem_mul hy hz
    · exact ⟨0, by omega, by rwa [pow_zero]⟩

theorem Reads.upTo (hr : Reads r L) (n : Nat) : Reads (upTo n r) (atMost n L) := by
  induction n with
  | zero =>
    rw [atMost_zero]
    exact reads_empty
  | succ n ih =>
    rw [atMost_succ]
    exact (hr.seq ih).alt reads_empty

theorem Reads.between (hr : Reads r L) (m n : Nat) :
    Reads (between m n r) (L ^ m * atMost (n - m) L) :=
  (hr.exactly m).seq (hr.upTo (n - m))

end Reads

section Bounded

/-- An expression between two boundaries ends where it does, if there is a boundary. -/
theorem ends_bounded (c : Cursor α) :
    (Regex.seq (.boundary word) (.seq r (.boundary word))).ends c =
      if c.isBoundary word then (r.ends c).filter fun e => e.isBoundary word else [] := by
  have hfilter : ∀ l : List (Cursor α), l.flatMap (Regex.boundary word).ends =
      l.filter fun e => e.isBoundary word := by
    intro l
    induction l with
    | nil => rfl
    | cons e l ih =>
      rw [List.flatMap_cons, ih, ends, List.filter_cons]
      split <;> rfl
  rw [ends, ends]
  split
  · rw [List.flatMap_singleton, ends, hfilter]
  · rfl

/-- The first end of a list of ends in which only those from one place go on. -/
theorem head?_flatMap {β γ : Type*} {l : List β} {f : β → List γ} {b : β} (hb : b ∈ l)
    (hne : f b ≠ []) (hother : ∀ b' ∈ l, f b' ≠ [] → b' = b) :
    (l.flatMap f).head? = (f b).head? := by
  induction l with
  | nil => simp at hb
  | cons b' l ih =>
    rw [List.flatMap_cons]
    cases hf : f b' with
    | nil =>
      have hmem : b ∈ l := by
        rcases List.mem_cons.mp hb with rfl | hmem
        · exact absurd hf hne
        · exact hmem
      exact ih hmem fun b'' hb'' => hother b'' (List.mem_cons_of_mem _ hb'')
    | cons e es =>
      obtain rfl := hother b' List.mem_cons_self (by simp [hf])
      rw [hf]
      rfl

theorem head?_of_unique {β : Type*} {l : List β} {b : β} (hb : b ∈ l) (hunique : ∀ b' ∈ l, b' = b) :
    l.head? = some b := by
  cases l with
  | nil => simp at hb
  | cons b' l => rw [hunique b' List.mem_cons_self, List.head?_cons]

end Bounded

section Words
variable {x x' rest rest' : List α}

/-- A run of word symbols ends where the first other symbol comes. -/
theorem append_inj_of_word (hx : ∀ a ∈ x, word a = true) (hx' : ∀ a ∈ x', word a = true)
    (hrest : rest.head?.any word = false) (hrest' : rest'.head?.any word = false)
    (heq : x ++ rest = x' ++ rest') : x = x' ∧ rest = rest' := by
  have hrun {y tail : List α} (hy : ∀ a ∈ y, word a = true) (htail : tail.head?.any word = false) :
      (y ++ tail).takeWhile word = y := by
    rw [List.takeWhile_append_of_pos hy]
    cases tail with
    | nil => simp
    | cons a tail =>
      have ha : word a = false := by simpa using htail
      simp [ha]
  have hsame : x = x' := by rw [← hrun hx hrest, heq, hrun hx' hrest']
  subst hsame
  exact ⟨rfl, List.append_cancel_left heq⟩

end Words

section Found

/-- What a search finds in a text, where `Fragment` says when a fragment stands between the
symbol before it and the text behind it. -/
inductive Found (Fragment : Option α → List α → List α → Prop) : Option α → List α → List α → Prop
  | here {previous : Option α} {text x rest : List α} (htext : text = x ++ rest)
    (hx : Fragment previous x rest) : Found Fragment previous text x
  | behind {previous : Option α} {text x rest y : List α} (htext : text = x ++ rest)
    (hx : Fragment previous x rest) (hy : Found Fragment x.getLast? rest y) :
    Found Fragment previous text y
  | next {previous : Option α} {a : α} {rest y : List α}
    (hnone : ∀ x rest', a :: rest = x ++ rest' → ¬ Fragment previous x rest')
    (hy : Found Fragment (some a) rest y) : Found Fragment previous (a :: rest) y

/-- The expression matches the fragments, none of which is empty. -/
structure Finds (r : Regex α) (Fragment : Option α → List α → List α → Prop) : Prop where
  length : ∀ previous text n, r.matchLength ⟨previous, text⟩ = some n ↔
    ∃ x rest, text = x ++ rest ∧ x.length = n ∧ Fragment previous x rest
  ne_nil : ∀ previous x rest, Fragment previous x rest → x ≠ []

variable {Fragment : Option α → List α → List α → Prop} {previous : Option α} {text x rest y : List α}

theorem matchesFrom_skip (r : Regex α) {n : Nat} (hn : n ≤ text.length) :
    r.matchesFrom previous n text =
      r.matchesFrom ((text.take n).getLast?.or previous) 0 (text.drop n) := by
  induction text generalizing n previous with
  | nil =>
    obtain rfl := Nat.le_zero.mp hn
    rfl
  | cons a text ih =>
    cases n with
    | zero => simp
    | succ n =>
      have hn' : n ≤ text.length := Nat.le_of_succ_le_succ hn
      rw [matchesFrom, ih hn', List.take_succ_cons, List.drop_succ_cons, List.getLast?_cons,
        Option.some_or]
      cases (text.take n).getLast? <;> rfl

theorem Finds.unique (h : Finds r Fragment) {x' rest' : List α} (hx : Fragment previous x rest)
    (hx' : Fragment previous x' rest') (heq : x ++ rest = x' ++ rest') : x = x' ∧ rest = rest' := by
  have hlength := (h.length previous (x ++ rest) x.length).mpr ⟨x, rest, rfl, rfl, hx⟩
  have hlength' := (h.length previous (x ++ rest) x'.length).mpr ⟨x', rest', heq, rfl, hx'⟩
  rw [hlength] at hlength'
  exact List.append_inj heq (Option.some.inj hlength')

theorem Finds.matchesFrom_fragment (h : Finds r Fragment) (hx : Fragment previous x rest) :
    r.matchesFrom previous 0 (x ++ rest) = x :: r.matchesFrom x.getLast? 0 rest := by
  have hlength := (h.length previous (x ++ rest) x.length).mpr ⟨x, rest, rfl, rfl, hx⟩
  cases x with
  | nil => exact absurd rfl (h.ne_nil _ _ _ hx)
  | cons a x =>
    rw [List.cons_append] at hlength ⊢
    simp only [matchesFrom, hlength]
    have hskip : r.matchesFrom (some a) x.length (x ++ rest) =
        r.matchesFrom (a :: x).getLast? 0 rest := by
      rw [matchesFrom_skip r (by simp), List.take_left, List.drop_left, List.getLast?_cons]
      cases x.getLast? <;> rfl
    have htake : (a :: (x ++ rest)).take (a :: x).length = a :: x := List.take_left
    rw [htake, List.length_cons, Nat.add_sub_cancel, hskip]

theorem Finds.matchesFrom_none (h : Finds r Fragment) {a : α}
    (hnone : ∀ x rest', a :: rest = x ++ rest' → ¬ Fragment previous x rest') :
    r.matchesFrom previous 0 (a :: rest) = r.matchesFrom (some a) 0 rest := by
  cases hlength : r.matchLength ⟨previous, a :: rest⟩ with
  | none => simp only [matchesFrom, hlength]
  | some n =>
    obtain ⟨x, rest', htext, -, hx⟩ := (h.length _ _ _).mp hlength
    exact absurd hx (hnone x rest' htext)

theorem Finds.matchesFrom_nil (h : Finds r Fragment) : r.matchesFrom previous 0 [] = [] := by
  cases hlength : r.matchLength ⟨previous, []⟩ with
  | none => simp only [matchesFrom, hlength]
  | some n =>
    obtain ⟨x, rest', htext, -, hx⟩ := (h.length _ _ _).mp hlength
    exact absurd (List.append_eq_nil_iff.mp htext.symm).1 (h.ne_nil _ _ _ hx)

/-- The matches are what a search for the fragments finds. -/
theorem Finds.mem_matchesFrom (h : Finds r Fragment) (previous : Option α) (text : List α) :
    y ∈ r.matchesFrom previous 0 text ↔ Found Fragment previous text y := by
  constructor
  · intro hy
    induction hn : text.length using Nat.strong_induction_on generalizing previous text with
    | _ n ih =>
      subst hn
      by_cases hfragment : ∃ x rest, text = x ++ rest ∧ Fragment previous x rest
      · obtain ⟨x, rest, rfl, hx⟩ := hfragment
        have hpos := List.length_pos_iff.mpr (h.ne_nil _ _ _ hx)
        rw [h.matchesFrom_fragment hx, List.mem_cons] at hy
        rcases hy with rfl | hy
        · exact .here rfl hx
        · exact .behind rfl hx (ih _ (by rw [List.length_append]; omega) _ _ hy rfl)
      · cases text with
        | nil =>
          rw [h.matchesFrom_nil] at hy
          exact absurd hy List.not_mem_nil
        | cons a rest =>
          have hnone : ∀ x rest', a :: rest = x ++ rest' → ¬ Fragment previous x rest' :=
            fun x rest' htext hx => hfragment ⟨x, rest', htext, hx⟩
          rw [h.matchesFrom_none hnone] at hy
          exact .next hnone (ih _ (by simp) _ _ hy rfl)
  · intro hfound
    induction hfound with
    | here htext hx =>
      rw [htext, h.matchesFrom_fragment hx]
      exact List.mem_cons_self
    | behind htext hx _ ih =>
      rw [htext, h.matchesFrom_fragment hx]
      exact List.mem_cons_of_mem _ ih
    | next hnone _ ih => rwa [h.matchesFrom_none hnone]

theorem matchLength_eq_some_iff {r : Regex α} {c : Cursor α} {n : Nat} :
    r.matchLength c = some n ↔ ∃ e, (r.ends c).head? = some e ∧ c.rest.length - e.rest.length = n := by
  rw [matchLength, Option.map_eq_some_iff]

/-- The ends of an expression between boundaries, if its texts begin and end in words. -/
theorem mem_ends_bounded (hreads : Reads r L)
    (hfirst : ∀ x ∈ L, ∃ a, x.head? = some a ∧ word a = true)
    (hlast : ∀ x ∈ L, ∃ a, x.getLast? = some a ∧ word a = true) :
    e ∈ (Regex.seq (.boundary word) (.seq r (.boundary word))).ends c ↔
      ∃ x ∈ L, c.rest = x ++ e.rest ∧ e.previous = x.getLast?.or c.previous ∧
        c.previous.any word = false ∧ e.rest.head?.any word = false := by
  have hsides {x : List α} (hx : x ∈ L) (htext : c.rest = x ++ e.rest)
      (hprevious : e.previous = x.getLast?.or c.previous) :
      (c.isBoundary word = !c.previous.any word) ∧ e.isBoundary word = !e.rest.head?.any word := by
    obtain ⟨a, ha, hworda⟩ := hfirst x hx
    obtain ⟨b, hb, hwordb⟩ := hlast x hx
    have hhead : c.rest.head? = some a := by rw [htext, List.head?_append, ha, Option.some_or]
    simp only [Cursor.isBoundary, hhead, hprevious, hb, Option.some_or, Option.any_some, hworda,
      hwordb]
    exact ⟨Bool.bne_true _, Bool.true_bne _⟩
  rw [ends_bounded]
  constructor
  · intro he
    split at he
    next hbegin =>
      obtain ⟨he, hend⟩ := List.mem_filter.mp he
      obtain ⟨x, hx, htext, hprevious⟩ := (hreads _ _).mp he
      obtain ⟨hbegin', hend'⟩ := hsides hx htext hprevious
      refine ⟨x, hx, htext, hprevious, ?_, ?_⟩
      · simpa [hbegin'] using hbegin
      · simpa [hend'] using hend
    next => simp at he
  · rintro ⟨x, hx, htext, hprevious, hbefore, hbehind⟩
    obtain ⟨hbegin, hend⟩ := hsides hx htext hprevious
    rw [hbegin, hbefore, if_pos Bool.not_false, List.mem_filter]
    refine ⟨(hreads _ _).mpr ⟨x, hx, htext, hprevious⟩, ?_⟩
    rw [hend, hbehind]
    rfl

/-- An expression between boundaries finds its texts between other symbols, if they begin
and end in words and at most one of them begins at a place. -/
theorem Finds.of_unique (hreads : Reads r L)
    (hfirst : ∀ x ∈ L, ∃ a, x.head? = some a ∧ word a = true)
    (hlast : ∀ x ∈ L, ∃ a, x.getLast? = some a ∧ word a = true)
    (hunique : ∀ x ∈ L, ∀ x' ∈ L, ∀ rest rest' : List α, rest.head?.any word = false →
      rest'.head?.any word = false → x ++ rest = x' ++ rest' → x = x') :
    Finds (.seq (.boundary word) (.seq r (.boundary word))) fun previous x rest =>
      x ∈ L ∧ previous.any word = false ∧ rest.head?.any word = false := by
  constructor
  · intro previous text n
    rw [matchLength_eq_some_iff]
    constructor
    · rintro ⟨e, he, hn⟩
      obtain ⟨x, hx, htext, -, hbefore, hbehind⟩ :=
        (mem_ends_bounded hreads hfirst hlast).mp (List.mem_of_mem_head? he)
      have htext : text = x ++ e.rest := htext
      refine ⟨x, e.rest, htext, ?_, hx, hbefore, hbehind⟩
      rw [← hn, htext, List.length_append, Nat.add_sub_cancel]
    · rintro ⟨x, rest, rfl, rfl, hx, hbefore, hbehind⟩
      refine ⟨⟨x.getLast?.or previous, rest⟩, head?_of_unique ?_ ?_, ?_⟩
      · exact (mem_ends_bounded hreads hfirst hlast).mpr ⟨x, hx, rfl, rfl, hbefore, hbehind⟩
      · rintro ⟨previous', rest'⟩ he
        obtain ⟨x', hx', htext, hprevious, -, hbehind'⟩ :=
          (mem_ends_bounded hreads hfirst hlast).mp he
        obtain rfl := hunique x hx x' hx' rest rest' hbehind hbehind' htext
        rw [Cursor.mk.injEq]
        exact ⟨hprevious, (List.append_cancel_left htext).symm⟩
      · rw [List.length_append, Nat.add_sub_cancel]
  · rintro previous x rest ⟨hx, -, -⟩ rfl
    obtain ⟨a, ha, -⟩ := hfirst [] hx
    exact absurd ha nofun

/-- What is found stands somewhere in the text. -/
theorem Finds.occurs (h : Finds r Fragment) (hfound : Found Fragment previous text y) :
    ∃ before rest, text = before ++ (y ++ rest) ∧
      Fragment (before.getLast?.or previous) y rest := by
  induction hfound with
  | here htext hx => exact ⟨[], _, htext, hx⟩
  | @behind previous text x rest y htext hx _ ih =>
    obtain ⟨before, rest', hrest, hy⟩ := ih
    refine ⟨x ++ before, rest', by rw [htext, hrest, List.append_assoc], ?_⟩
    have hlast := List.getLast?_eq_some_getLast (h.ne_nil _ _ _ hx)
    rw [List.getLast?_append, Option.or_assoc, hlast, Option.some_or]
    rwa [hlast] at hy
  | @next previous a rest y _ _ ih =>
    obtain ⟨before, rest', hrest, hy⟩ := ih
    refine ⟨a :: before, rest', by rw [hrest, List.cons_append], ?_⟩
    rw [List.getLast?_cons, Option.some_or]
    cases hlast : before.getLast? with
    | none => rwa [hlast] at hy
    | some b => rwa [hlast] at hy

end Found

section Separates
variable {Fragment : Option α → List α → List α → Prop} {sep : α → Bool} {previous : Option α}
  {w rest tail x x' : List α} {a : α}

/-- No fragment has a separator in it, and a separator is for fragments as the begin or the
end of the text. -/
structure Separates (sep : α → Bool) (Fragment : Option α → List α → List α → Prop) : Prop where
  not_mem : ∀ {previous x rest}, Fragment previous x rest → ∀ a ∈ x, sep a = false
  before : ∀ {a x rest}, sep a = true → (Fragment (some a) x rest ↔ Fragment none x rest)
  behind : ∀ {previous a x rest tail}, sep a = true →
    (Fragment previous x (rest ++ a :: tail) ↔ Fragment previous x rest)

/-- What has no separator in it ends in front of the first one. -/
theorem exists_of_append_sep (ha : sep a = true) (hx : ∀ b ∈ x, sep b = false)
    (heq : w ++ a :: tail = x ++ rest) : ∃ w', w = x ++ w' ∧ rest = w' ++ a :: tail := by
  rcases List.append_eq_append_iff.mp heq with ⟨y, rfl, htail⟩ | ⟨w', rfl, htail⟩
  · cases y with
    | nil => exact ⟨[], by simp, htail.symm⟩
    | cons b y =>
      obtain ⟨rfl, -⟩ := List.cons.inj htail
      have hb := hx a (by simp)
      rw [ha] at hb
      exact absurd hb nofun
  · exact ⟨w', rfl, htail⟩

/-- The symbol before the text does not matter if it is a separator. -/
theorem Finds.matchesFrom_sep (h : Finds r Fragment) (hs : Separates sep Fragment)
    (ha : sep a = true) (text : List α) :
    r.matchesFrom (some a) 0 text = r.matchesFrom none 0 text := by
  by_cases hfragment : ∃ x rest, text = x ++ rest ∧ Fragment none x rest
  · obtain ⟨x, rest, rfl, hx⟩ := hfragment
    rw [h.matchesFrom_fragment hx, h.matchesFrom_fragment ((hs.before ha).mpr hx)]
  · cases text with
    | nil => rw [h.matchesFrom_nil, h.matchesFrom_nil]
    | cons b rest =>
      have hnone : ∀ x rest', b :: rest = x ++ rest' → ¬ Fragment none x rest' :=
        fun x rest' htext hx => hfragment ⟨x, rest', htext, hx⟩
      rw [h.matchesFrom_none hnone, h.matchesFrom_none fun x rest' htext hx =>
        hnone x rest' htext ((hs.before ha).mp hx)]

/-- Two sides of a separator are searched on their own. -/
theorem Finds.matchesFrom_append_sep (h : Finds r Fragment) (hs : Separates sep Fragment)
    (ha : sep a = true) (previous : Option α) (w tail : List α) :
    r.matchesFrom previous 0 (w ++ a :: tail) =
      r.matchesFrom previous 0 w ++ r.matchesFrom none 0 tail := by
  induction hn : w.length using Nat.strong_induction_on generalizing previous w with
  | _ n ih =>
    subst hn
    by_cases hfragment : ∃ x w', w = x ++ w' ∧ Fragment previous x w'
    · obtain ⟨x, w', rfl, hx⟩ := hfragment
      have hpos := List.length_pos_iff.mpr (h.ne_nil _ _ _ hx)
      rw [List.append_assoc, h.matchesFrom_fragment hx, h.matchesFrom_fragment ((hs.behind ha).mpr hx),
        ih _ (by rw [List.length_append]; omega) _ _ rfl, List.cons_append]
    · -- a fragment of the whole text would end in front of the separator
      have hnone : ∀ x rest, w ++ a :: tail = x ++ rest → ¬ Fragment previous x rest := by
        intro x rest htext hx
        obtain ⟨w', hw, rfl⟩ := exists_of_append_sep ha (hs.not_mem hx) htext
        exact hfragment ⟨x, w', hw, (hs.behind ha).mp hx⟩
      cases w with
      | nil => rw [List.nil_append, h.matchesFrom_none hnone, h.matchesFrom_sep hs ha,
          h.matchesFrom_nil, List.nil_append]
      | cons b w =>
        rw [List.cons_append] at hnone ⊢
        rw [h.matchesFrom_none hnone, ih _ (by simp) _ _ rfl,
          h.matchesFrom_none fun x w' hw hx => hfragment ⟨x, w', hw, hx⟩]

end Separates

end Regex
