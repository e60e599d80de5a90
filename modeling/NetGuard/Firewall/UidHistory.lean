import NetGuard.Firewall.UidSlots

/-! # The owner over a run of lookups

`get_uid` asks for a connection of version 4 as a mapped one first. Over a whole run its cache
answers like the list of all rows that were ever read: no slot that is used again loses a row
before its time.
-/
namespace NetGuard.Engine

/-- A call of `get_uid`: what it can open, and its arguments. -/
structure UidLookup where
  proc : String → Option (List Char)
  query : UidQuery
  now : Int

/-- The connection in the table of version 6. -/
def UidQuery.inet6 (q : UidQuery) : UidQuery where
  version := .v6
  saddr := List.replicate 10 0 ++ [0xFF, 0xFF] ++ q.saddr.take 4
  daddr := List.replicate 10 0 ++ [0xFF, 0xFF] ++ q.daddr.take 4
  source := q.source
  dest := q.dest
  protocol := q.protocol

def getUid (l : UidLookup) (cache : List UidCacheEntry) : Int32 × List UidCacheEntry :=
  let (uid, cache) := match l.query.version with
    | .v4 => getUidSub l.proc l.query.inet6 l.now cache
    | .v6 => (-1, cache)
  if uid = -1 then getUidSub l.proc l.query l.now cache else (uid, cache)

/-- The cache of the process, and what it was asked so far. -/
structure UidOwners where
  uidCache : List UidCacheEntry
  uids : List Int32

def UidOwners.step (s : UidOwners) (l : UidLookup) : UidOwners :=
  ⟨(getUid l s.uidCache).2, s.uids ++ [(getUid l s.uidCache).1]⟩

def UidOwners.run (ls : List UidLookup) : UidOwners := ls.foldl UidOwners.step ⟨[], []⟩

section Scan

/-- The rows in front of the first line that is not one. -/
def readRows (version : IpVersion) : List (List Char) → List ProcRow
  | [] => []
  | line :: rest =>
    match parseRow version line with
    | some row => row :: readRows version rest
    | none => []

/-- A lookup without a cache: what it answers, and the entries for the rows that it reads. -/
def scanTable (proc : String → Option (List Char)) (q : UidQuery) (now : Int) :
    Int32 × List UidCacheEntry :=
  match procFile q.protocol q.version with
  | none => (-1, [])
  | some fn =>
    match proc fn with
    | none => (-2, [])
    | some table =>
      let rows := readRows q.version (tableLines table)
      (if rows.length = (tableLines table).length then
          ((lastRow q rows).map ProcRow.uid).getD (-1)
        else -2,
        rows.map (ProcRow.entry q now))

variable {proc : String → Option (List Char)} {q : UidQuery} {now : Int}
  {cache : List UidCacheEntry}

theorem lines_readRows (lines : List (List Char)) (s : UidScan) :
    UidScan.lines q now lines s = ((readRows q.version lines).foldl (UidScan.row q now) s,
      decide ((readRows q.version lines).length = lines.length)) := by
  induction lines generalizing s with
  | nil => rfl
  | cons line rest ih =>
    rw [UidScan.lines, readRows]
    cases parseRow q.version line with
    | none => rfl
    | some row =>
      simp only [ih, List.foldl_cons, List.length_cons, Nat.add_right_cancel_iff]

/-- The slots hide nothing but how a lookup that misses the cache stores what it reads. -/
theorem getUidSub_missed (hmissed : cachedUid q now cache = none) :
    getUidSub proc q now cache = ((scanTable proc q now).1,
      refill (UidCacheEntry.fresh now) cache (scanTable proc q now).2) := by
  rw [getUidSub, hmissed, scanTable]
  cases procFile q.protocol q.version with
  | none => simp
  | some fn =>
    cases hproc : proc fn with
    | none => simp [hproc]
    | some table =>
      have hcache := cache_rows q now (-1) cache (readRows q.version (tableLines table))
      have huid := uid_rows q now ⟨-1, 0, cache⟩ (readRows q.version (tableLines table))
      rw [← lastRow] at huid
      by_cases hall : (readRows q.version (tableLines table)).length = (tableLines table).length
      · simp only [hproc, lines_readRows, decide_eq_true hall, if_pos hall, hcache, huid]
      · simp only [hproc, lines_readRows, decide_eq_false hall, if_neg hall, hcache]

theorem mem_scanTable_iff {e : UidCacheEntry} : e ∈ (scanTable proc q now).2 ↔
    ∃ fn table row, procFile q.protocol q.version = some fn ∧ proc fn = some table ∧
      row ∈ readRows q.version (tableLines table) ∧ row.entry q now = e := by
  rw [scanTable]
  cases procFile q.protocol q.version with
  | none => simp
  | some fn =>
    cases hproc : proc fn with
    | none => simp [hproc]
    | some table => simp [hproc]

/-- A lookup without a cache answers with an owner that it has read. -/
theorem scanTable_uid (proc : String → Option (List Char)) (q : UidQuery) (now : Int) :
    (scanTable proc q now).1 = -1 ∨ (scanTable proc q now).1 = -2 ∨
      ∃ e ∈ (scanTable proc q now).2,
        e.time = now ∧ e.isFor q = true ∧ e.uid = (scanTable proc q now).1 := by
  rw [scanTable]
  cases procFile q.protocol q.version with
  | none => exact .inl rfl
  | some fn =>
    cases hproc : proc fn with
    | none => simp [hproc]
    | some table =>
      simp only [hproc]
      by_cases hall : (readRows q.version (tableLines table)).length = (tableLines table).length
      · rw [if_pos hall]
        cases hlast : lastRow q (readRows q.version (tableLines table)) with
        | none => exact .inl rfl
        | some row =>
          have hmem := List.mem_reverse.mp (List.mem_of_find?_eq_some hlast)
          have hfor : (row.entry q now).isFor q = true :=
            ProcRow.isFor_entry (List.find?_some hlast)
          exact .inr (.inr ⟨_, List.mem_map_of_mem hmem, rfl, hfor, rfl⟩)
      · rw [if_neg hall]
        exact .inr (.inl rfl)

end Scan

section History
variable {q : UidQuery} {now : Int} {cache past : List UidCacheEntry} {uid : Int32}

/-- What a lookup may answer, and what it reads, when `past` has been read before. -/
inductive LooksUp (proc : String → Option (List Char)) (q : UidQuery) (now : Int)
    (past : List UidCacheEntry) : Int32 → List UidCacheEntry → Prop
  | known {e : UidCacheEntry} (hread : e ∈ past) (hage : now - e.time ≤ uidMaxAge)
    (hfor : e.isFor q = true) : LooksUp proc q now past e.uid []
  | scanned (hunknown : ∀ e ∈ past, now - e.time ≤ uidMaxAge → e.isFor q = false) :
    LooksUp proc q now past (scanTable proc q now).1 (scanTable proc q now).2

/-- The same for both lookups of `get_uid`. -/
inductive Resolves (l : UidLookup) (past : List UidCacheEntry) : Int32 → List UidCacheEntry → Prop
  | mapped {uid : Int32} {read : List UidCacheEntry} (hversion : l.query.version = .v4)
    (h : LooksUp l.proc l.query.inet6 l.now past uid read) (huid : uid ≠ -1) :
    Resolves l past uid read
  | fallback {uid : Int32} {read read' : List UidCacheEntry} (hversion : l.query.version = .v4)
    (h : LooksUp l.proc l.query.inet6 l.now past (-1) read)
    (h' : LooksUp l.proc l.query l.now (past ++ read) uid read') :
    Resolves l past uid (read ++ read')
  | plain {uid : Int32} {read : List UidCacheEntry} (hversion : l.query.version = .v6)
    (h : LooksUp l.proc l.query l.now past uid read) : Resolves l past uid read

/-- A run of lookups without slots: all that was read stays, and counts for `UID_MAX_AGE`. -/
inductive UidHistory : List UidLookup → List Int32 → List UidCacheEntry → Prop
  | nil : UidHistory [] [] []
  | snoc {ls : List UidLookup} {l : UidLookup} {uids : List Int32} {uid : Int32}
    {past read : List UidCacheEntry} (h : UidHistory ls uids past) (hl : Resolves l past uid read) :
    UidHistory (ls ++ [l]) (uids ++ [uid]) (past ++ read)

theorem exists_of_cachedUid (h : cachedUid q now cache = some uid) :
    ∃ e ∈ cache, e.fresh now = true ∧ e.isFor q = true ∧ e.uid = uid := by
  obtain ⟨e, hfind, huid⟩ := Option.map_eq_some_iff.mp h
  have hmatch := List.find?_some hfind
  rw [Bool.and_eq_true] at hmatch
  exact ⟨e, List.mem_of_find?_eq_some hfind, hmatch.1, hmatch.2, huid⟩

theorem isFor_of_cachedUid (h : cachedUid q now cache = none) {e : UidCacheEntry}
    (he : e ∈ cache) (hfresh : e.fresh now = true) : e.isFor q = false := by
  rw [cachedUid, Option.map_eq_none_iff, List.find?_eq_none] at h
  have hnot := h e he
  rw [hfresh, Bool.true_and, Bool.not_eq_true] at hnot
  exact hnot

/-- One lookup with slots that are current is one in the history. -/
theorem looksUp_getUidSub (proc : String → Option (List Char)) (q : UidQuery)
    (h : Slots.Current (UidCacheEntry.fresh now) past cache) :
    ∃ read, LooksUp proc q now past (getUidSub proc q now cache).1 read ∧
      Slots.Current (UidCacheEntry.fresh now) (past ++ read) (getUidSub proc q now cache).2 := by
  cases hcached : cachedUid q now cache with
  | some uid =>
    obtain ⟨e, he, hfresh, hfor, rfl⟩ := exists_of_cachedUid hcached
    have hsub : getUidSub proc q now cache = (e.uid, cache) := by rw [getUidSub, hcached]
    rw [hsub]
    refine ⟨[], .known ((h e hfresh).mp he) (of_decide_eq_true hfresh) hfor, ?_⟩
    rwa [List.append_nil]
  | none =>
    rw [getUidSub_missed hcached]
    refine ⟨_, .scanned fun e he hage => ?_, h.refill _⟩
    have hfresh : e.fresh now = true := decide_eq_true hage
    exact isFor_of_cachedUid hcached ((h e hfresh).mpr he) hfresh

/-- Which lookups `get_uid` makes, and whose answer it returns. -/
theorem getUid_cases (l : UidLookup) (cache : List UidCacheEntry) :
    l.query.version = .v6 ∧ getUid l cache = getUidSub l.proc l.query l.now cache ∨
    l.query.version = .v4 ∧ (getUidSub l.proc l.query.inet6 l.now cache).1 ≠ -1 ∧
      getUid l cache = getUidSub l.proc l.query.inet6 l.now cache ∨
    l.query.version = .v4 ∧ (getUidSub l.proc l.query.inet6 l.now cache).1 = -1 ∧
      getUid l cache =
        getUidSub l.proc l.query l.now (getUidSub l.proc l.query.inet6 l.now cache).2 := by
  cases hversion : l.query.version with
  | v6 => exact .inl ⟨rfl, by simp [getUid, hversion]⟩
  | v4 =>
    by_cases huid : (getUidSub l.proc l.query.inet6 l.now cache).1 = -1
    · exact .inr (.inr ⟨rfl, huid, by simp [getUid, hversion, huid]⟩)
    · exact .inr (.inl ⟨rfl, huid, by simp [getUid, hversion, huid]⟩)

theorem resolves_getUid (l : UidLookup) (h : Slots.Current (UidCacheEntry.fresh l.now) past cache) :
    ∃ read, Resolves l past (getUid l cache).1 read ∧
      Slots.Current (UidCacheEntry.fresh l.now) (past ++ read) (getUid l cache).2 := by
  obtain ⟨hversion, hget⟩ | ⟨hversion, huid, hget⟩ | ⟨hversion, huid, hget⟩ := getUid_cases l cache
  · obtain ⟨read, hlooks, hcurrent⟩ := looksUp_getUidSub l.proc l.query h
    rw [hget]
    exact ⟨read, .plain hversion hlooks, hcurrent⟩
  · obtain ⟨read, hlooks, hcurrent⟩ := looksUp_getUidSub l.proc l.query.inet6 h
    rw [hget]
    exact ⟨read, .mapped hversion hlooks huid, hcurrent⟩
  · obtain ⟨read, hlooks, hcurrent⟩ := looksUp_getUidSub l.proc l.query.inet6 h
    obtain ⟨read', hlooks', hcurrent'⟩ := looksUp_getUidSub l.proc l.query hcurrent
    rw [huid] at hlooks
    rw [hget]
    refine ⟨read ++ read', .fallback hversion hlooks hlooks', ?_⟩
    rwa [← List.append_assoc]

theorem fresh_of_le {now' : Int} (hle : now ≤ now') {e : UidCacheEntry}
    (h : e.fresh now' = true) : e.fresh now = true := by
  simp only [UidCacheEntry.fresh, decide_eq_true_eq] at h ⊢
  omega

/-- While the clock does not go back, the lookups of a run answer, and open the tables, as if all
that was ever read were kept, and what the cache holds of it is all that still counts. -/
theorem UidOwners.remembers (ls : List UidLookup)
    (hclock : (ls.map UidLookup.now).Pairwise (· ≤ ·)) :
    ∃ past, UidHistory ls (UidOwners.run ls).uids past ∧
      ∀ now, (∀ l ∈ ls, l.now ≤ now) →
        Slots.Current (UidCacheEntry.fresh now) past (UidOwners.run ls).uidCache := by
  induction ls using List.reverseRecOn with
  | nil => exact ⟨[], .nil, fun now _ e _ => Iff.rfl⟩
  | append_singleton ls l ih =>
    rw [List.map_append, List.pairwise_append] at hclock
    obtain ⟨hclock, -, hlast⟩ := hclock
    obtain ⟨past, hhistory, hcurrent⟩ := ih hclock
    have hbefore : ∀ l' ∈ ls, l'.now ≤ l.now :=
      fun l' hl' => hlast _ (List.mem_map_of_mem hl') _ List.mem_cons_self
    obtain ⟨read, hresolves, hnext⟩ := resolves_getUid l (hcurrent l.now hbefore)
    have hrun : UidOwners.run (ls ++ [l]) = (UidOwners.run ls).step l := by
      rw [UidOwners.run, List.foldl_append]
      rfl
    rw [hrun]
    refine ⟨past ++ read, hhistory.snoc hresolves, fun now hnow => ?_⟩
    have hle : l.now ≤ now := hnow l (List.mem_append_right _ List.mem_cons_self)
    exact hnext.mono fun e => fresh_of_le hle

/-- A lookup for port 53 of 10.0.0.2, which only the table of version 4 lists. -/
def UidLookup.sample (now : Int) : UidLookup where
  proc fn := if fn = "/proc/net/udp6" then some "sl\n".toList
    else sampleProc [sampleLine "0200000A" "10002"] fn
  query := .sample
  now := now

theorem UidOwners.remembers_sample :
    (UidOwners.run [.sample 0, .sample 30000]).uids = [10002, 10002] ∧
      ∃ past, UidHistory [.sample 0, .sample 30000]
          (UidOwners.run [.sample 0, .sample 30000]).uids past ∧
        ∀ now, (∀ l ∈ [UidLookup.sample 0, .sample 30000], l.now ≤ now) →
          Slots.Current (UidCacheEntry.fresh now) past
            (UidOwners.run [.sample 0, .sample 30000]).uidCache := by
  refine ⟨by decide +kernel, UidOwners.remembers [.sample 0, .sample 30000] ?_⟩
  exact List.pairwise_pair.mpr (by decide)

end History

section Recent

def UidLookup.queries (l : UidLookup) : List UidQuery :=
  match l.query.version with
  | .v4 => [l.query.inet6, l.query]
  | .v6 => [l.query]

/-- The lookup finds the row, asking for `q`, in the table that is there for it. -/
def UidLookup.Finds (l : UidLookup) (q : UidQuery) (row : ProcRow) : Prop :=
  q ∈ l.queries ∧ ∃ fn table, procFile q.protocol q.version = some fn ∧ l.proc fn = some table ∧
    row ∈ readRows q.version (tableLines table)

/-- An entry is for a row that one of the lookups could read then. -/
def StemsFrom (ls : List UidLookup) (e : UidCacheEntry) : Prop :=
  ∃ l ∈ ls, ∃ q row, l.Finds q row ∧ row.entry q l.now = e

variable {P : UidCacheEntry → Prop} {cache : List UidCacheEntry} {q : UidQuery} {now : Int}

/-- An answer is an error, or the owner in a fresh entry for one of the queries. -/
def Attested (P : UidCacheEntry → Prop) (qs : List UidQuery) (now : Int) (uid : Int32) : Prop :=
  uid = -1 ∨ uid = -2 ∨
    ∃ e, P e ∧ now - e.time ≤ uidMaxAge ∧ (∃ q ∈ qs, e.isFor q = true) ∧ e.uid = uid

theorem attested_getUidSub (proc : String → Option (List Char)) (hcache : ∀ e ∈ cache, P e)
    (hread : ∀ e ∈ (scanTable proc q now).2, P e) :
    Attested P [q] now (getUidSub proc q now cache).1 ∧
      ∀ e ∈ (getUidSub proc q now cache).2, P e := by
  cases hcached : cachedUid q now cache with
  | some uid =>
    obtain ⟨e, he, hfresh, hfor, rfl⟩ := exists_of_cachedUid hcached
    have hsub : getUidSub proc q now cache = (e.uid, cache) := by rw [getUidSub, hcached]
    rw [hsub]
    refine ⟨.inr (.inr ⟨e, hcache e he, of_decide_eq_true hfresh, ?_, rfl⟩), hcache⟩
    exact ⟨q, List.mem_cons_self, hfor⟩
  | none =>
    rw [getUidSub_missed hcached]
    constructor
    · rcases scanTable_uid proc q now with hnone | herror | ⟨e, he, htime, hfor, huid⟩
      · exact .inl hnone
      · exact .inr (.inl herror)
      · refine .inr (.inr ⟨e, hread e he, ?_, ⟨q, List.mem_cons_self, hfor⟩, huid⟩)
        rw [htime, uidMaxAge]
        omega
    · intro e he
      rcases Slots.mem_refill he with hold | hnew
      · exact hcache e hold
      · exact hread e hnew

theorem Attested.mono {qs qs' : List UidQuery} {uid : Int32} (h : Attested P qs now uid)
    (hsub : ∀ q ∈ qs, q ∈ qs') : Attested P qs' now uid := by
  rcases h with hnone | herror | ⟨e, he, hage, ⟨q, hq, hfor⟩, huid⟩
  · exact .inl hnone
  · exact .inr (.inl herror)
  · exact .inr (.inr ⟨e, he, hage, ⟨q, hsub q hq, hfor⟩, huid⟩)

theorem attested_getUid (l : UidLookup) (hcache : ∀ e ∈ cache, P e)
    (hread : ∀ q ∈ l.queries, ∀ e ∈ (scanTable l.proc q l.now).2, P e) :
    Attested P l.queries l.now (getUid l cache).1 ∧ ∀ e ∈ (getUid l cache).2, P e := by
  have hquery : l.query ∈ l.queries := by
    rw [UidLookup.queries]
    split <;> simp
  have hinet6 (hversion : l.query.version = .v4) : l.query.inet6 ∈ l.queries := by
    simp [UidLookup.queries, hversion]
  obtain ⟨-, hget⟩ | ⟨hversion, -, hget⟩ | ⟨hversion, -, hget⟩ := getUid_cases l cache
  · obtain ⟨hplain, hkept⟩ := attested_getUidSub l.proc hcache (hread _ hquery)
    rw [hget]
    exact ⟨hplain.mono (by simpa using hquery), hkept⟩
  · obtain ⟨hmapped, hkept⟩ := attested_getUidSub l.proc hcache (hread _ (hinet6 hversion))
    rw [hget]
    exact ⟨hmapped.mono (by simpa using hinet6 hversion), hkept⟩
  · obtain ⟨-, hkept⟩ := attested_getUidSub l.proc hcache (hread _ (hinet6 hversion))
    obtain ⟨hplain, hkept'⟩ := attested_getUidSub l.proc hkept (hread _ hquery)
    rw [hget]
    exact ⟨hplain.mono (by simpa using hquery), hkept'⟩

theorem stemsFrom_of_mem_scanTable {ls : List UidLookup} {l : UidLookup} (hl : l ∈ ls)
    (hq : q ∈ l.queries) {e : UidCacheEntry} (he : e ∈ (scanTable l.proc q l.now).2) :
    StemsFrom ls e := by
  obtain ⟨fn, table, row, hfile, hproc, hrow, rfl⟩ := mem_scanTable_iff.mp he
  exact ⟨l, hl, q, row, ⟨hq, fn, table, hfile, hproc, hrow⟩, rfl⟩

theorem attested_next {ls : List UidLookup} (l : UidLookup)
    (h : ∀ e ∈ cache, StemsFrom ls e) :
    Attested (StemsFrom (ls ++ [l])) l.queries l.now (getUid l cache).1 ∧
      ∀ e ∈ (getUid l cache).2, StemsFrom (ls ++ [l]) e := by
  apply attested_getUid
  · intro e he
    obtain ⟨l', hl', hstems⟩ := h e he
    exact ⟨l', List.mem_append_left _ hl', hstems⟩
  · intro q hq e he
    exact stemsFrom_of_mem_scanTable (List.mem_append_right _ List.mem_cons_self) hq he

theorem stemsFrom_run (ls : List UidLookup) :
    ∀ e ∈ (UidOwners.run ls).uidCache, StemsFrom ls e := by
  induction ls using List.reverseRecOn with
  | nil => exact fun e he => absurd he List.not_mem_nil
  | append_singleton ls l ih =>
    rw [UidOwners.run, List.foldl_append]
    exact (attested_next l ih).2

/-- Whatever the clock does, an app that a lookup names is the owner in a row for its connection,
which a lookup of the run found in its table at most `UID_MAX_AGE` before. -/
theorem UidOwners.recent (ls : List UidLookup) (l : UidLookup) :
    (getUid l (UidOwners.run ls).uidCache).1 = -1 ∨ (getUid l (UidOwners.run ls).uidCache).1 = -2 ∨
      ∃ l' ∈ ls ++ [l], ∃ asked row, l'.Finds asked row ∧ l.now - l'.now ≤ uidMaxAge ∧
        (∃ q ∈ l.queries, (row.entry asked l'.now).isFor q = true) ∧
        row.uid = (getUid l (UidOwners.run ls).uidCache).1 := by
  rcases (attested_next l (stemsFrom_run ls)).1 with hnone | herror | ⟨e, hstems, hage, hfor, huid⟩
  · exact .inl hnone
  · exact .inr (.inl herror)
  · obtain ⟨l', hl', asked, row, hfinds, rfl⟩ := hstems
    exact .inr (.inr ⟨l', hl', asked, row, hfinds, hage, hfor, huid⟩)

end Recent

end NetGuard.Engine
