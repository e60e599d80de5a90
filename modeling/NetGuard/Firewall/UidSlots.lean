import NetGuard.Firewall.UidCache
import NetGuard.Library.Slots

/-! # The slots of the cache

The scan of a table keeps every entry that is still fresh: its single cursor gives the rows
the expired slots in order, and new ones behind the cache when those run out.
-/
namespace NetGuard.Engine

variable {proc : String → Option (List Char)} {q : UidQuery} {now : Int} {c : Nat}
  {e : UidCacheEntry} {cache done : List UidCacheEntry} {rows : List ProcRow}

/-- The cache while rows are stored: `refill` of what the cache was has come as far as the
fresh entries at the cursor. -/
def Refilled (now : Int) (cache done : List UidCacheEntry) (c : Nat)
    (current : List UidCacheEntry) : Prop :=
  ∃ front back, current = front ++ back ∧ c ≤ front.length ∧ (∀ e ∈ front.drop c, e.fresh now) ∧
    ∀ more, refill (UidCacheEntry.fresh now) cache (done ++ more) =
      front ++ refill (UidCacheEntry.fresh now) back more

theorem Refilled.eq {current : List UidCacheEntry} (h : Refilled now cache done c current) :
    current = refill (UidCacheEntry.fresh now) cache done := by
  obtain ⟨front, back, rfl, -, -, hrefill⟩ := h
  simpa using (hrefill []).symm

theorem Refilled.store {current : List UidCacheEntry} (h : Refilled now cache done c current)
    (he : e.time = now) :
    Refilled now cache (done ++ [e]) (nextSlot now current c)
      (storeSlot current (nextSlot now current c) e) := by
  obtain ⟨front, back, rfl, hc, hfresh, hrefill⟩ := h
  rw [storeSlot_nextSlot hc hfresh, nextSlot_append hc hfresh]
  generalize hkept : back.takeWhile (UidCacheEntry.fresh now) = kept
  refine ⟨front ++ kept ++ [e], (back.dropWhile (UidCacheEntry.fresh now)).tail, ?_, ?_,
    fresh_drop_stored _ he, ?_⟩
  · simp
  · simp
  · intro more
    rw [List.append_assoc, List.singleton_append, hrefill, Slots.refill_cons, hkept]
    simp

theorem cache_rows (q : UidQuery) (now : Int) (uid : Int32) (cache : List UidCacheEntry)
    (rows : List ProcRow) :
    (rows.foldl (UidScan.row q now) ⟨uid, 0, cache⟩).cache =
      refill (UidCacheEntry.fresh now) cache (rows.map (ProcRow.entry q now)) := by
  have hscan : Refilled now cache (rows.map (ProcRow.entry q now))
      (rows.foldl (UidScan.row q now) ⟨uid, 0, cache⟩).c
      (rows.foldl (UidScan.row q now) ⟨uid, 0, cache⟩).cache := by
    induction rows using List.reverseRecOn with
    | nil => exact ⟨[], cache, rfl, Nat.le_refl 0, by simp, fun _ => rfl⟩
    | append_singleton rows row ih =>
      rw [List.foldl_append, List.map_append]
      exact ih.store rfl
  exact hscan.eq

/-- The lookup misses the cache and gets through a table whose every line is a row. -/
structure TableScanned (proc : String → Option (List Char)) (q : UidQuery) (now : Int)
    (cache : List UidCacheEntry) (rows : List ProcRow) : Prop where
  missed : cachedUid q now cache = none
  table : ∃ fn text, procFile q.protocol q.version = some fn ∧ proc fn = some text ∧
    (tableLines text).mapM (parseRow q.version) = some rows

theorem TableScanned.cache_eq (h : TableScanned proc q now cache rows) :
    (getUidSub proc q now cache).2 =
      refill (UidCacheEntry.fresh now) cache (rows.map (ProcRow.entry q now)) := by
  obtain ⟨fn, text, hfile, hproc, hrows⟩ := h.table
  simp only [getUidSub, h.missed, hfile, hproc, lines_rows hrows, cache_rows]

/-- After the scan every row has a slot of its own, which held no fresh entry, the entries
that were fresh are in their slots, and the cache grew by the rows that found no slot. -/
theorem getUidSub_slots (h : TableScanned proc q now cache rows) :
    (∃ slots : List ℕ, slots.Pairwise (· < ·) ∧
      List.Forall₂ (fun (row : ProcRow) i =>
        (∃ e, (getUidSub proc q now cache).2[i]? = some e ∧ e = row.entry q now ∧ e.time = now) ∧
          ∀ e, cache[i]? = some e → ¬ now - e.time ≤ uidMaxAge) rows slots) ∧
    (∀ (i : ℕ) e, cache[i]? = some e → now - e.time ≤ uidMaxAge →
      (getUidSub proc q now cache).2[i]? = some e) ∧
    (getUidSub proc q now cache).2.length =
      cache.length + (rows.length - cache.countP fun e => uidMaxAge < now - e.time) := by
  rw [h.cache_eq]
  refine ⟨?_, ?_, ?_⟩
  · obtain ⟨slots, hslots, hfilled⟩ := Slots.exists_slots (UidCacheEntry.fresh now) cache
      (rows.map (ProcRow.entry q now))
    refine ⟨slots, hslots, ?_⟩
    rw [List.forall₂_map_left_iff] at hfilled
    refine hfilled.imp ?_
    rintro row i ⟨hrow, hfree⟩
    refine ⟨⟨_, hrow, rfl, rfl⟩, ?_⟩
    intro e he
    exact of_decide_eq_false (hfree e he)
  · intro i e he hfresh
    exact Slots.getElem?_refill he (decide_eq_true hfresh)
  · have hexpired : (fun e : UidCacheEntry => !e.fresh now) =
        fun e => decide (uidMaxAge < now - e.time) := by
      funext e
      rw [UidCacheEntry.fresh, ← decide_not, decide_eq_decide, Int.not_le]
    rw [Slots.length_refill, List.length_map, hexpired]

section Sample

/-- A fresh entry and one that has expired, of other connections. -/
def UidCacheEntry.sample (time : Int) : UidCacheEntry :=
  ⟨.v4, 6, [10, 0, 0, 2], 443, [8, 8, 4, 4], 443, 10001, time⟩

/-- The first of two rows takes the slot that has expired, the second one is new. -/
theorem getUidSub_slots_sample :
    (getUidSub (sampleProc [sampleLine "00000000" "1001", sampleLine "0200000A" "10002"]) .sample
      40000 [.sample 40000, .sample 0]).2.length = 3 := by
  have hscanned : TableScanned
      (sampleProc [sampleLine "00000000" "1001", sampleLine "0200000A" "10002"]) .sample 40000
      [.sample 40000, .sample 0] [.sample [0, 0, 0, 0] 1001, .sample [10, 0, 0, 2] 10002] := by
    refine ⟨rfl, "/proc/net/udp", _, rfl, rfl, ?_⟩
    decide
  exact (getUidSub_slots hscanned).2.2

end Sample

end NetGuard.Engine
