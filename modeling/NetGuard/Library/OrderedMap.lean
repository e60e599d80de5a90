import Mathlib.Algebra.BigOperators.Group.List.Basic
import Mathlib.Data.List.Induction
import Mathlib.Data.List.Nodup

/-! # Maps in the order of insertion

A map is a list of entries in which no key occurs twice. A value is changed in its
place, and a new key goes to the end. What a change adds to one value it adds to the
sum of all values, and a map filled from a list of events holds at each key the events
of that key.
-/

@[ext] structure OrderedMap (κ ν : Type*) where
  entries : List (κ × ν)
  nodup : (entries.map Prod.fst).Nodup

namespace OrderedMap
variable {κ ν ε M : Type*} {k k' : κ} {d v : ν} {f : ν → ν} {l : List (κ × ν)} {m : OrderedMap κ ν}

def empty : OrderedMap κ ν := ⟨[], List.nodup_nil⟩

def keys (m : OrderedMap κ ν) : List κ := m.entries.map Prod.fst

def values (m : OrderedMap κ ν) : List ν := m.entries.map Prod.snd

@[simp] theorem values_empty : (empty : OrderedMap κ ν).values = [] := rfl

@[simp] theorem keys_empty : (empty : OrderedMap κ ν).keys = [] := rfl

def mapValues {ν' : Type*} (g : ν → ν') (m : OrderedMap κ ν) : OrderedMap κ ν' :=
  ⟨m.entries.map fun e => (e.1, g e.2), by simpa [Function.comp_def] using m.nodup⟩

variable [DecidableEq κ]

def lookup (k : κ) : List (κ × ν) → Option ν
  | [] => none
  | e :: l => if e.1 = k then some e.2 else lookup k l

/-- The entries with the value at `k` changed, or a changed default behind them. -/
def change (k : κ) (d : ν) (f : ν → ν) : List (κ × ν) → List (κ × ν)
  | [] => [(k, f d)]
  | e :: l => if e.1 = k then (k, f e.2) :: l else e :: change k d f l

theorem keys_change : (change k d f l).map Prod.fst =
    if k ∈ l.map Prod.fst then l.map Prod.fst else l.map Prod.fst ++ [k] := by
  induction l with
  | nil => rfl
  | cons e l ih =>
    rw [change]
    by_cases he : e.1 = k
    · simp [he]
    · have hk : ¬ k = e.1 := fun h => he h.symm
      rw [if_neg he, List.map_cons, ih]
      by_cases hmem : k ∈ l.map Prod.fst
      · simp [hmem]
      · simp [hmem, hk]

theorem nodup_change (h : (l.map Prod.fst).Nodup) : ((change k d f l).map Prod.fst).Nodup := by
  rw [keys_change]
  split
  next => exact h
  next hnew =>
    have hadded := h.concat hnew
    rwa [List.concat_eq_append] at hadded

theorem lookup_change : lookup k' (change k d f l) =
    if k' = k then some (f ((lookup k l).getD d)) else lookup k' l := by
  induction l with
  | nil =>
    by_cases hk : k' = k
    · simp [change, lookup, hk]
    · have hk' : ¬ k = k' := fun h => hk h.symm
      simp [change, lookup, hk, hk']
  | cons e l ih =>
    rw [change]
    by_cases he : e.1 = k
    · by_cases hk : k' = k
      · simp [lookup, he, hk]
      · have hk' : ¬ k = k' := fun h => hk h.symm
        simp [lookup, he, hk, hk']
    · rw [if_neg he, lookup, ih]
      by_cases hk : k' = k
      · simp [lookup, he, hk]
      · simp [lookup, hk]

theorem lookup_eq_some_iff (h : (l.map Prod.fst).Nodup) : lookup k l = some v ↔ (k, v) ∈ l := by
  induction l with
  | nil => simp [lookup]
  | cons e l ih =>
    rw [List.map_cons, List.nodup_cons] at h
    rw [lookup, List.mem_cons]
    by_cases he : e.1 = k
    · have hnot : (k, v) ∉ l := fun hmem => h.1 (he ▸ List.mem_map_of_mem hmem)
      simp [he, hnot, Prod.ext_iff, eq_comm]
    · have hne : ¬ (k, v) = e := fun heq => he (heq ▸ rfl)
      rw [if_neg he, ih h.2]
      simp [hne]

theorem change_append {done : List (κ × ν)} (h : k ∉ done.map Prod.fst) :
    change k d f (done ++ l) = done ++ change k d f l := by
  induction done with
  | nil => rfl
  | cons e done ih =>
    rw [List.map_cons, List.mem_cons, not_or] at h
    rw [List.cons_append, change, if_neg fun he => h.1 he.symm, ih h.2, List.cons_append]

def get (m : OrderedMap κ ν) (k : κ) : Option ν := lookup k m.entries

/-- The value at `k` changed, from the default if there is none: `putIfAbsent` and then a
change in place. -/
def upsert (m : OrderedMap κ ν) (k : κ) (d : ν) (f : ν → ν) : OrderedMap κ ν :=
  ⟨change k d f m.entries, nodup_change m.nodup⟩

def add (m : OrderedMap κ ν) (k : κ) (v : ν) : OrderedMap κ ν := m.upsert k v fun _ => v

/-- A map in which every key gets a value, in the order of the keys, is these values. -/
theorem entries_addAll (h : l.map Prod.fst = m.keys) :
    (l.foldl (fun m e => m.add e.1 e.2) m).entries = l := by
  have hplace : ∀ (l done rest : List (κ × ν)) (m : OrderedMap κ ν), m.entries = done ++ rest →
      l.map Prod.fst = rest.map Prod.fst →
      (l.foldl (fun m e => m.add e.1 e.2) m).entries = done ++ l := by
    intro l
    induction l with
    | nil =>
      intro done rest m hm hkeys
      rw [List.map_nil, eq_comm, List.map_eq_nil_iff] at hkeys
      rw [List.foldl_nil, hm, hkeys]
    | cons e l ih =>
      intro done rest m hm hkeys
      obtain ⟨e', rest, rfl⟩ : ∃ e' rest', rest = e' :: rest' :=
        List.exists_cons_of_ne_nil fun hnil => by simp [hnil] at hkeys
      rw [List.map_cons, List.map_cons, List.cons.injEq] at hkeys
      have hnew : e.1 ∉ done.map Prod.fst := by
        have hnodup := m.nodup
        rw [hm, List.map_append, List.nodup_append] at hnodup
        exact fun hmem => hnodup.2.2 _ hmem _ (by simp) hkeys.1
      have hadd : (m.add e.1 e.2).entries = (done ++ [e]) ++ rest := by
        have hentries : (m.add e.1 e.2).entries = change e.1 e.2 (fun _ => e.2) m.entries := rfl
        rw [hentries, hm, change_append hnew, change, if_pos hkeys.1.symm]
        simp
      rw [List.foldl_cons, ih _ _ _ hadd hkeys.2]
      simp
  exact hplace l [] m.entries m rfl h

theorem get_upsert : (m.upsert k d f).get k' =
    if k' = k then some (f ((m.get k).getD d)) else m.get k' := lookup_change

@[simp] theorem get_empty : (empty : OrderedMap κ ν).get k = none := rfl

theorem keys_upsert_of_mem (hk : k ∈ m.keys) : (m.upsert k d f).keys = m.keys :=
  keys_change.trans (if_pos hk)

theorem add_getD : m.add k (f ((m.get k).getD d)) = m.upsert k d f := by
  apply OrderedMap.ext
  have hchange : ∀ l : List (κ × ν),
      change k (f ((lookup k l).getD d)) (fun _ => f ((lookup k l).getD d)) l = change k d f l := by
    intro l
    induction l with
    | nil => rfl
    | cons e l ih =>
      by_cases he : e.1 = k
      · simp [change, lookup, he]
      · simp only [change, lookup, if_neg he, ih]
  exact hchange m.entries

theorem get_eq_some_iff : m.get k = some v ↔ (k, v) ∈ m.entries := lookup_eq_some_iff m.nodup

theorem mem_values_iff : v ∈ m.values ↔ ∃ k, m.get k = some v := by
  simp only [values, List.mem_map, get_eq_some_iff, Prod.exists, exists_eq_right]

theorem mem_keys_iff : k ∈ m.keys ↔ ∃ v, m.get k = some v := by
  simp only [keys, List.mem_map, get_eq_some_iff, Prod.exists, exists_and_right, exists_eq_right]

/-- What holds of every key and its value still does after a change that keeps it. -/
theorem forall_get_upsert {P : κ → ν → Prop} (hm : ∀ k v, m.get k = some v → P k v)
    (hd : m.get k = none → P k (f d)) (hf : ∀ v, P k v → P k (f v)) :
    ∀ k' v, (m.upsert k d f).get k' = some v → P k' v := by
  intro k' v hget
  rw [get_upsert] at hget
  split at hget
  next hk =>
    subst hk
    obtain rfl := Option.some.inj hget
    cases hold : m.get k' with
    | none => exact hd hold
    | some v => exact hf v (hm k' v hold)
  next => exact hm k' v hget

omit [DecidableEq κ] in
/-- The labels of the values are the keys, if each value has its key as the label. -/
theorem map_values {label : ν → κ} (h : ∀ e ∈ m.entries, label e.2 = e.1) :
    m.values.map label = m.keys := by
  rw [values, keys, List.map_map]
  exact List.map_congr_left h

/-- The keys in any order, read in the map, give the values. -/
theorem perm_values {l : List κ} (h : l.Perm m.keys) : (l.filterMap m.get).Perm m.values := by
  have hkeys : m.keys.filterMap m.get = m.values := by
    have hentries : ∀ e ∈ m.entries, (m.get ∘ Prod.fst) e = some e.2 :=
      fun e he => get_eq_some_iff.mpr he
    rw [keys, List.filterMap_map, List.filterMap_congr hentries, values, List.filterMap_eq_map']
  exact hkeys ▸ h.filterMap m.get

/-- What holds of all values after a change, where the change adds `Q` to what holds. -/
theorem forall_upsert {P : ν → Prop} {Q : Prop} (hd : P (f d) ↔ Q)
    (hf : ∀ v ∈ m.values, P (f v) ↔ P v ∧ Q) :
    (∀ v ∈ (m.upsert k d f).values, P v) ↔ (∀ v ∈ m.values, P v) ∧ Q := by
  have hchange : ∀ l : List (κ × ν), (∀ v ∈ l.map Prod.snd, P (f v) ↔ P v ∧ Q) →
      ((∀ v ∈ (change k d f l).map Prod.snd, P v) ↔ (∀ v ∈ l.map Prod.snd, P v) ∧ Q) := by
    intro l hl
    induction l with
    | nil => simp [change, hd]
    | cons e l ih =>
      have hhead := hl e.2 (by simp)
      have htail := ih fun v hv => hl v (List.mem_cons_of_mem _ hv)
      rw [change]
      split
      · simp only [List.map_cons, List.forall_mem_cons, hhead]
        tauto
      · simp only [List.map_cons, List.forall_mem_cons, htail]
        tauto
  exact hchange m.entries hf

theorem sum_upsert [AddCommMonoid M] {g : ν → M} {c : M} (hd : g (f d) = c)
    (hf : ∀ v, g (f v) = g v + c) :
    ((m.upsert k d f).values.map g).sum = (m.values.map g).sum + c := by
  have hchange : ∀ l : List (κ × ν), (((change k d f l).map Prod.snd).map g).sum =
      ((l.map Prod.snd).map g).sum + c := by
    intro l
    induction l with
    | nil => simp [change, hd]
    | cons e l ih =>
      rw [change]
      split
      · simp only [List.map_cons, List.sum_cons, hf, add_assoc, add_comm c]
      · simp only [List.map_cons, List.sum_cons, ih, add_assoc]
  exact hchange m.entries

/-- The entries of one key, collected from all entries, are what the map has at that key. -/
theorem flatMap_key {β : Type*} (m : OrderedMap κ ν) (k : κ) (g : ν → List β) :
    (m.entries.flatMap fun e => if e.1 = k then g e.2 else []) = ((m.get k).map g).getD [] := by
  have hentries : ∀ l : List (κ × ν), (l.map Prod.fst).Nodup →
      (l.flatMap fun e => if e.1 = k then g e.2 else []) = ((lookup k l).map g).getD [] := by
    intro l hnodup
    induction l with
    | nil => rfl
    | cons e l ih =>
      rw [List.map_cons, List.nodup_cons] at hnodup
      rw [List.flatMap_cons, ih hnodup.2, lookup]
      by_cases he : e.1 = k
      · have hnone : lookup k l = none := by
          by_contra hsome
          obtain ⟨v, hv⟩ := Option.ne_none_iff_exists'.mp hsome
          have hmem := (lookup_eq_some_iff hnodup.2).mp hv
          exact hnodup.1 (he ▸ List.mem_map_of_mem hmem)
        simp [he, hnone]
      · simp [he]
  exact hentries m.entries m.nodup

omit [DecidableEq κ] in
/-- Lists read from the values have distinct keys if each has and a key tells its entry. -/
theorem nodup_flatMap_values {β γ : Type*} {m : OrderedMap κ ν} {g : ν → List β} {key : β → γ}
    (tag : γ → κ) (htag : ∀ e ∈ m.entries, ∀ b ∈ g e.2, tag (key b) = e.1)
    (hnodup : ∀ e ∈ m.entries, ((g e.2).map key).Nodup) :
    ((m.values.flatMap g).map key).Nodup := by
  have hentries : ∀ l : List (κ × ν), (l.map Prod.fst).Nodup →
      (∀ e ∈ l, ∀ b ∈ g e.2, tag (key b) = e.1) → (∀ e ∈ l, ((g e.2).map key).Nodup) →
      (((l.map Prod.snd).flatMap g).map key).Nodup := by
    intro l hl htag hnodup
    induction l with
    | nil => exact List.nodup_nil
    | cons e l ih =>
      rw [List.map_cons, List.nodup_cons] at hl
      rw [List.forall_mem_cons] at htag hnodup
      rw [List.map_cons, List.flatMap_cons, List.map_append, List.nodup_append]
      refine ⟨hnodup.1, ih hl.2 htag.2 hnodup.2, ?_⟩
      rintro c hc c' hc' rfl
      obtain ⟨b, hb, hkey⟩ := List.mem_map.mp hc
      obtain ⟨b', hb', hkey'⟩ := List.mem_map.mp hc'
      obtain ⟨v, hv, hb'⟩ := List.mem_flatMap.mp hb'
      obtain ⟨e', he', rfl⟩ := List.mem_map.mp hv
      -- both have the tag of `c`
      have hsame : e.1 = e'.1 := by
        rw [← htag.1 b hb, ← htag.2 e' he' b' hb', hkey, hkey']
      exact hl.1 (hsame ▸ List.mem_map_of_mem he')
  exact hentries m.entries m.nodup htag hnodup

section Collect
variable {key : ε → κ} {init : ε → ν} {op : ε → ν → ν}

/-- A map filled from events: an event changes the value at its key. -/
def collect (key : ε → κ) (init : ε → ν) (op : ε → ν → ν) (events : List ε) : OrderedMap κ ν :=
  events.foldl (fun m e => m.upsert (key e) (init e) (op e)) empty

theorem collect_snoc (events : List ε) (e : ε) : collect key init op (events ++ [e]) =
    (collect key init op events).upsert (key e) (init e) (op e) := by
  rw [collect, List.foldl_append]
  rfl

/-- What the events of one key make: the first of them gives the default. -/
def gather (init : ε → ν) (op : ε → ν → ν) : List ε → Option ν
  | [] => none
  | e :: es => some ((e :: es).foldl (fun v e => op e v) (init e))

theorem gather_eq_none_iff {es : List ε} : gather init op es = none ↔ es = [] := by
  cases es with
  | nil => exact iff_of_true rfl rfl
  | cons e es => simp [gather]

theorem gather_snoc (es : List ε) (e : ε) :
    gather init op (es ++ [e]) = some (op e ((gather init op es).getD (init e))) := by
  cases es with
  | nil => rfl
  | cons e' es => simp [gather]

theorem get_collect (events : List ε) (k : κ) :
    (collect key init op events).get k = gather init op (events.filter fun e => key e = k) := by
  induction events using List.reverseRecOn with
  | nil => rfl
  | append_singleton events e ih =>
    rw [collect_snoc, get_upsert, List.filter_append]
    by_cases hk : key e = k
    · subst hk
      rw [if_pos rfl, ih]
      simp [gather_snoc]
    · have hk' : ¬ k = key e := fun h => hk h.symm
      simp [hk, hk', ih]

theorem mem_keys_collect {events : List ε} :
    k ∈ (collect key init op events).keys ↔ ∃ e ∈ events, key e = k := by
  rw [mem_keys_iff, ← Option.ne_none_iff_exists', get_collect, Ne, gather_eq_none_iff,
    List.filter_eq_nil_iff]
  simp

theorem sum_collect [AddCommMonoid M] {g : ν → M} {c : ε → M} (hinit : ∀ e, g (init e) = 0)
    (hop : ∀ e v, g (op e v) = g v + c e) (events : List ε) :
    ((collect key init op events).values.map g).sum = (events.map c).sum := by
  induction events using List.reverseRecOn with
  | nil => rfl
  | append_singleton events e ih =>
    have hd : g (op e (init e)) = c e := by rw [hop, hinit, zero_add]
    rw [collect_snoc, sum_upsert hd (hop e), ih]
    simp

/-- What holds of all values is what the events say, one by one. -/
theorem forall_collect {P : ν → Prop} {Q : ε → Prop} (hinit : ∀ e, P (op e (init e)) ↔ Q e)
    (hop : ∀ e v, P (op e v) ↔ P v ∧ Q e) (events : List ε) :
    (∀ v ∈ (collect key init op events).values, P v) ↔ ∀ e ∈ events, Q e := by
  induction events using List.reverseRecOn with
  | nil => simp [collect]
  | append_singleton events e ih =>
    rw [collect_snoc, forall_upsert (hinit e) fun v _ => hop e v, ih]
    simp only [List.mem_append, List.mem_singleton, or_imp, forall_and, forall_eq]

theorem collect_invariant {P : ν → Prop} (hinit : ∀ e, P (op e (init e)))
    (hop : ∀ e v, P v → P (op e v)) (events : List ε) :
    ∀ v ∈ (collect key init op events).values, P v := by
  induction events using List.reverseRecOn with
  | nil => simp [collect]
  | append_singleton events e ih =>
    intro v hv
    rw [collect_snoc, mem_values_iff] at hv
    obtain ⟨k, hk⟩ := hv
    rw [get_upsert] at hk
    split at hk
    · obtain rfl := Option.some.inj hk
      cases hget : (collect key init op events).get (key e) with
      | none => exact hinit e
      | some v => exact hop e v (ih v (mem_values_iff.mpr ⟨_, hget⟩))
    · exact ih v (mem_values_iff.mpr ⟨k, hk⟩)

end Collect

end OrderedMap
