import NetGuard.Engine.Session
import Mathlib.Data.List.Induction

/-! # The owner of a connection

The app that owns a connection is looked up in a table of the kernel, and every row that
is read on the way is cached. A row with no port or no address stands for all of them, so
that several rows can match: the scan takes the last of them, the cache the first.
-/
namespace NetGuard.Engine

/-- `UID_MAX_AGE`, in milliseconds. -/
def uidMaxAge : Int := 30000

/-- What `get_uid_sub` is asked for. -/
structure UidQuery extends Flow where
  protocol : UInt8

/-- `struct uid_cache_entry`. Of the addresses only the bytes that belong to the version
are ever compared. The time is a `long`, here one of 64 bits, which the clock does not leave. -/
structure UidCacheEntry where
  version : IpVersion
  protocol : UInt8
  saddr : Address
  sport : UInt16
  daddr : Address
  dport : UInt16
  uid : Int32
  time : Int
  deriving DecidableEq, Repr

/-- A line of the table. The ports are read into an `int`. -/
structure ProcRow where
  saddr : Address
  sport : Int32
  daddr : Address
  dport : Int32
  uid : Int32
  deriving DecidableEq, Repr

section Sscanf

def isSpace (c : Char) : Bool := c = ' ' || ('\t' ≤ c && c ≤ '\r')

def char2nible (c : Char) : UInt8 :=
  if '0' ≤ c && c ≤ '9' then .ofNat (c.toNat - '0'.toNat)
  else if 'a' ≤ c && c ≤ 'f' then .ofNat (c.toNat - 'a'.toNat + 10)
  else if 'A' ≤ c && c ≤ 'F' then .ofNat (c.toNat - 'A'.toNat + 10)
  else 255

def hex2bytes : List Char → List UInt8
  | high :: low :: rest => (char2nible high <<< 4 ||| char2nible low) :: hex2bytes rest
  | _ => []

/-- `htonl` of each word, on a machine that stores the low byte first. -/
def htonlWords : List UInt8 → List UInt8
  | a :: b :: c :: d :: rest => d :: c :: b :: a :: htonlWords rest
  | _ => []

def skipSpaces (s : List Char) : List Char := s.dropWhile isSpace

def scanColon : List Char → Option (List Char)
  | ':' :: s => some s
  | _ => none

/-- `%s` with a width. -/
def scanString (width : Nat) (s : List Char) : Option (List Char × List Char) :=
  let s := skipSpaces s
  let token := (s.take width).takeWhile fun c => !isSpace c
  if token.isEmpty then none else some (token, s.drop token.length)

def skipPrefix : List Char → List Char
  | '0' :: x :: d :: s => if (x = 'x' || x = 'X') && char2nible d < 16 then d :: s else '0' :: x :: d :: s
  | s => s

/-- `%d` and `%X`. A number that does not fit is undefined in C; it wraps here. -/
def scanNumber (base : Nat) (s : List Char) : Option (Int32 × List Char) :=
  let s := skipSpaces s
  let (sign, s) := match s with
    | '-' :: s => ((-1 : Int), s)
    | '+' :: s => (1, s)
    | s => (1, s)
  let s := if base = 16 then skipPrefix s else s
  let digits := s.takeWhile fun c => (char2nible c).toNat < base
  let value := digits.foldl (fun n c => base * n + (char2nible c).toNat) 0
  if digits.isEmpty then none else some (.ofInt (sign * value), s.drop digits.length)

end Sscanf

section Table

/-- `ws` words of four bytes. -/
def ws : IpVersion → Nat
  | .v4 => 1
  | .v6 => 4

/-- The fields of a line, which ends at a zero byte, if there are five and the addresses
are complete. -/
def parseRow (version : IpVersion) (line : List Char) : Option ProcRow := do
  let (_, s) ← scanNumber 10 (line.takeWhile (· ≠ '\x00'))
  let (shex, s) ← scanString (ws version * 8) (← scanColon s)
  let (sport, s) ← scanNumber 16 (← scanColon s)
  let (dhex, s) ← scanString (ws version * 8) s
  let (dport, s) ← scanNumber 16 (← scanColon s)
  let (_, s) ← scanNumber 16 s
  let (_, s) ← scanNumber 16 s
  let (_, s) ← scanNumber 16 (← scanColon s)
  let (_, s) ← scanNumber 16 s
  let (_, s) ← scanNumber 16 (← scanColon s)
  let (_, s) ← scanNumber 16 s
  let (uid, _) ← scanNumber 10 s
  if shex.length = ws version * 8 && dhex.length = ws version * 8 then
    some ⟨htonlWords (hex2bytes shex), sport, htonlWords (hex2bytes dhex), dport, uid⟩
  else none

/-- What `fgets` returns, call by call, for a buffer that has room for 249 characters. -/
def fgetsLines : Nat → List Char → List Char → List (List Char)
  | _, line, [] => if line.isEmpty then [] else [line]
  | room, line, c :: rest =>
    if c = '\n' || room ≤ 1 then (line ++ [c]) :: fgetsLines 249 [] rest
    else fgetsLines (room - 1) (line ++ [c]) rest

/-- The lines of a table behind its header. -/
def tableLines (table : List Char) : List (List Char) := (fgetsLines 249 [] table).tail

def procFile (protocol : UInt8) : IpVersion → Option String
  | .v4 =>
    if protocol = 1 then some "/proc/net/icmp"
    else if protocol = 6 then some "/proc/net/tcp"
    else if protocol = 17 then some "/proc/net/udp"
    else none
  | .v6 =>
    if protocol = 58 then some "/proc/net/icmp6"
    else if protocol = 6 then some "/proc/net/tcp6"
    else if protocol = 17 then some "/proc/net/udp6"
    else none

end Table

section Lookup

/-- An address as it is asked for, or all zeros. -/
def sameAddress (version : IpVersion) (stored asked : Address) : Bool :=
  stored.take (ws version * 4) = asked.take (ws version * 4) ||
    stored.take (ws version * 4) = List.replicate (ws version * 4) 0

namespace UidCacheEntry

def fresh (now : Int) (e : UidCacheEntry) : Bool := now - e.time ≤ uidMaxAge

def isFor (q : UidQuery) (e : UidCacheEntry) : Bool :=
  e.version = q.version && e.protocol = q.protocol && e.sport = q.source &&
    (e.dport = q.dest || e.dport = 0) && sameAddress q.version e.saddr q.saddr &&
      sameAddress q.version e.daddr q.daddr

end UidCacheEntry

namespace ProcRow

def isFor (q : UidQuery) (row : ProcRow) : Bool :=
  row.sport.toInt = q.source.toNat && (row.dport.toInt = q.dest.toNat || row.dport = 0) &&
    sameAddress q.version row.saddr q.saddr && sameAddress q.version row.daddr q.daddr

/-- The row as it is cached. -/
def entry (q : UidQuery) (now : Int) (row : ProcRow) : UidCacheEntry where
  version := q.version
  protocol := q.protocol
  saddr := row.saddr
  sport := row.sport.toUInt32.toUInt16
  daddr := row.daddr
  dport := row.dport.toUInt32.toUInt16
  uid := row.uid
  time := now

end ProcRow

def cachedUid (q : UidQuery) (now : Int) (cache : List UidCacheEntry) : Option Int32 :=
  (cache.find? fun e => e.fresh now && e.isFor q).map UidCacheEntry.uid

/-- The next slot from `c` on that is free for a row: one that has expired, or a new one. -/
def nextSlot (now : Int) (cache : List UidCacheEntry) (c : Nat) : Nat :=
  c + ((cache.drop c).takeWhile (UidCacheEntry.fresh now)).length

def storeSlot (cache : List UidCacheEntry) (c : Nat) (e : UidCacheEntry) : List UidCacheEntry :=
  if c < cache.length then cache.set c e else cache ++ [e]

/-- The variables of the scan. -/
structure UidScan where
  uid : Int32
  c : Nat
  cache : List UidCacheEntry

def UidScan.row (q : UidQuery) (now : Int) (s : UidScan) (row : ProcRow) : UidScan where
  uid := if row.isFor q then row.uid else s.uid
  c := nextSlot now s.cache s.c
  cache := storeSlot s.cache (nextSlot now s.cache s.c) (row.entry q now)

/-- The scan, and whether it got to the end. It gives up at a line that is not a row. -/
def UidScan.lines (q : UidQuery) (now : Int) : List (List Char) → UidScan → UidScan × Bool
  | [], s => (s, true)
  | line :: rest, s =>
    match parseRow q.version line with
    | some row => lines q now rest (s.row q now row)
    | none => (s, false)

def getUidSub (proc : String → Option (List Char)) (q : UidQuery) (now : Int)
    (cache : List UidCacheEntry) : Int32 × List UidCacheEntry :=
  match cachedUid q now cache with
  | some uid => (uid, cache)
  | none =>
    match procFile q.protocol q.version with
    | none => (-1, cache)
    | some fn =>
      match proc fn with
      | none => (-2, cache)
      | some table =>
        match UidScan.lines q now (tableLines table) ⟨-1, 0, cache⟩ with
        | (s, true) => (s.uid, s.cache)
        | (s, false) => (-2, s.cache)

end Lookup

section Slots
variable {now : Int} {c : Nat} {e : UidCacheEntry} {p : UidCacheEntry → Bool}
  {cache done : List UidCacheEntry}

/-- The cache while rows are stored: what `p` finds in the slots up to `c` is what it finds
among the stored rows, and it finds nothing behind them. -/
def Filled (now : Int) (p : UidCacheEntry → Bool) (done : List UidCacheEntry) (c : Nat)
    (cache : List UidCacheEntry) : Prop :=
  ∃ front back, cache = front ++ back ∧ c ≤ front.length ∧ (∀ e ∈ front.drop c, e.fresh now) ∧
    front.filter p = done.filter p ∧ back.filter p = []

theorem storeSlot_append (front back : List UidCacheEntry) (e : UidCacheEntry) :
    storeSlot (front ++ back) front.length e = front ++ e :: back.tail := by
  cases back with
  | nil => simp [storeSlot]
  | cons old back => simp [storeSlot, List.set_append_right]

theorem nextSlot_append {front back : List UidCacheEntry} (hc : c ≤ front.length)
    (hfresh : ∀ e ∈ front.drop c, e.fresh now) :
    nextSlot now (front ++ back) c =
      (front ++ back.takeWhile (UidCacheEntry.fresh now)).length := by
  rw [nextSlot, List.drop_append_of_le_length hc, List.takeWhile_append_of_pos hfresh,
    List.length_append, List.length_append, List.length_drop]
  omega

/-- A row is stored behind the fresh entries that follow the last one. -/
theorem storeSlot_nextSlot {front back : List UidCacheEntry} (hc : c ≤ front.length)
    (hfresh : ∀ e ∈ front.drop c, e.fresh now) (e : UidCacheEntry) :
    storeSlot (front ++ back) (nextSlot now (front ++ back) c) e =
      front ++ back.takeWhile (UidCacheEntry.fresh now) ++
        e :: (back.dropWhile (UidCacheEntry.fresh now)).tail := by
  have hsplit : front ++ back = front ++ back.takeWhile (UidCacheEntry.fresh now) ++
      back.dropWhile (UidCacheEntry.fresh now) := by
    rw [List.append_assoc, List.takeWhile_append_dropWhile]
  have hstore := storeSlot_append (front ++ back.takeWhile (UidCacheEntry.fresh now))
    (back.dropWhile (UidCacheEntry.fresh now)) e
  rwa [← hsplit, ← nextSlot_append hc hfresh] at hstore

/-- Behind the new slot there is only what it holds now. -/
theorem fresh_drop_stored (front : List UidCacheEntry) (he : e.time = now) :
    ∀ e' ∈ (front ++ [e]).drop front.length, e'.fresh now := by
  rw [List.drop_left]
  intro e' he'
  rw [List.mem_singleton.mp he']
  simp [UidCacheEntry.fresh, he, uidMaxAge]

theorem Filled.store (h : Filled now p done c cache) (he : e.time = now) :
    Filled now p (done ++ [e]) (nextSlot now cache c)
      (storeSlot cache (nextSlot now cache c) e) := by
  obtain ⟨front, back, rfl, hc, hfresh, hfront, hback⟩ := h
  rw [storeSlot_nextSlot hc hfresh, nextSlot_append hc hfresh]
  generalize hkept : back.takeWhile (UidCacheEntry.fresh now) = kept
  generalize hfree : back.dropWhile (UidCacheEntry.fresh now) = free
  have hsplit : back = kept ++ free := by rw [← hkept, ← hfree, List.takeWhile_append_dropWhile]
  rw [hsplit, List.filter_append, List.append_eq_nil_iff] at hback
  have hfree' : free.tail.filter p = [] := by
    rw [List.filter_eq_nil_iff]
    exact fun e' he' => List.filter_eq_nil_iff.mp hback.2 e' (List.mem_of_mem_tail he')
  refine ⟨front ++ kept ++ [e], free.tail, ?_, ?_, fresh_drop_stored _ he, ?_, hfree'⟩
  · simp
  · simp
  · rw [List.filter_append, List.filter_append, hfront, hback.1, List.append_nil,
      List.filter_append]

variable {q : UidQuery} {rows : List ProcRow} {s : UidScan}

theorem filled_rows (q : UidQuery) (now : Int) (hcache : cache.filter p = []) (uid : Int32)
    (rows : List ProcRow) :
    Filled now p (rows.map (ProcRow.entry q now))
      (rows.foldl (UidScan.row q now) ⟨uid, 0, cache⟩).c
      (rows.foldl (UidScan.row q now) ⟨uid, 0, cache⟩).cache := by
  induction rows using List.reverseRecOn with
  | nil => exact ⟨[], cache, rfl, Nat.le_refl 0, nofun, rfl, hcache⟩
  | append_singleton rows row ih =>
    rw [List.foldl_append, List.map_append]
    exact ih.store rfl

theorem uid_rows (q : UidQuery) (now : Int) (s : UidScan) (rows : List ProcRow) :
    (rows.foldl (UidScan.row q now) s).uid =
      ((rows.reverse.find? (ProcRow.isFor q)).map ProcRow.uid).getD s.uid := by
  induction rows using List.reverseRecOn with
  | nil => rfl
  | append_singleton rows row ih =>
    rw [List.foldl_append, List.reverse_append, List.reverse_singleton, List.singleton_append,
      List.find?_cons, List.foldl_cons, List.foldl_nil, UidScan.row, ih]
    cases row.isFor q <;> rfl

theorem lines_rows {lines : List (List Char)} (hrows : lines.mapM (parseRow q.version) = some rows)
    (s : UidScan) : UidScan.lines q now lines s = (rows.foldl (UidScan.row q now) s, true) := by
  induction lines generalizing rows s with
  | nil =>
    obtain rfl : [] = rows := by simpa using hrows
    rfl
  | cons line lines ih =>
    rw [List.mapM_cons] at hrows
    cases hrow : parseRow q.version line with
    | none => simp [hrow] at hrows
    | some row =>
      cases hrest : lines.mapM (parseRow q.version) with
      | none => simp [hrow, hrest] at hrows
      | some rest =>
        obtain rfl : row :: rest = rows := by simpa [hrow, hrest] using hrows
        rw [UidScan.lines, hrow, List.foldl_cons]
        exact ih hrest _

end Slots

section Agreement
variable {proc : String → Option (List Char)} {q : UidQuery} {now now' : Int}
  {cache : List UidCacheEntry} {rows : List ProcRow}

/-- The lookup gets to the table, every line of it is a row, and a row is for the connection. -/
structure FoundByScan (proc : String → Option (List Char)) (q : UidQuery) (now : Int)
    (cache : List UidCacheEntry) (rows : List ProcRow) : Prop where
  missed : cachedUid q now cache = none
  table : ∃ fn text, procFile q.protocol q.version = some fn ∧ proc fn = some text ∧
    (tableLines text).mapM (parseRow q.version) = some rows
  found : ∃ row ∈ rows, row.isFor q = true

/-- The first row that matches with its ports as they are stored. -/
def firstRow (q : UidQuery) (rows : List ProcRow) : Option ProcRow :=
  rows.find? fun row => (row.entry q 0).isFor q

def lastRow (q : UidQuery) (rows : List ProcRow) : Option ProcRow :=
  rows.reverse.find? (ProcRow.isFor q)

def SameOwner (q : UidQuery) (rows : List ProcRow) : Prop :=
  ∀ first last, firstRow q rows = some first → lastRow q rows = some last → first.uid = last.uid

theorem FoundByScan.getUidSub_eq (h : FoundByScan proc q now cache rows) :
    getUidSub proc q now cache = ((rows.foldl (UidScan.row q now) ⟨-1, 0, cache⟩).uid,
      (rows.foldl (UidScan.row q now) ⟨-1, 0, cache⟩).cache) := by
  obtain ⟨fn, text, hfile, hproc, hrows⟩ := h.table
  simp only [getUidSub, h.missed, hfile, hproc, lines_rows hrows]

theorem FoundByScan.scanned (h : FoundByScan proc q now cache rows) :
    ∃ last, lastRow q rows = some last ∧ (getUidSub proc q now cache).1 = last.uid := by
  obtain ⟨row, hrow, hfor⟩ := h.found
  have hsome : (lastRow q rows).isSome := by
    rw [lastRow, List.find?_isSome]
    exact ⟨row, List.mem_reverse.mpr hrow, hfor⟩
  obtain ⟨last, hlast⟩ := Option.isSome_iff_exists.mp hsome
  have huid := uid_rows q now ⟨-1, 0, cache⟩ rows
  rw [← lastRow, hlast, Option.map_some, Option.getD_some] at huid
  exact ⟨last, hlast, by rw [h.getUidSub_eq, huid]⟩

/-- A row for the connection is for it as it is stored. -/
theorem ProcRow.isFor_entry {row : ProcRow} (h : row.isFor q = true) :
    (row.entry q now).isFor q = true := by
  simp only [ProcRow.isFor, Bool.and_eq_true, Bool.or_eq_true, decide_eq_true_eq] at h
  obtain ⟨⟨⟨hsport, hdport⟩, hsaddr⟩, hdaddr⟩ := h
  have hport {port : Int32} {asked : UInt16} (heq : port.toInt = asked.toNat) :
      port.toUInt32.toUInt16 = asked := by
    have hbound := asked.toNat_lt
    have hnonneg : 0 ≤ port := by
      rw [Int32.le_iff_toInt_le, heq]
      exact Int.natCast_nonneg _
    have hnat : port.toNatClampNeg = asked.toNat := congrArg Int.toNat heq
    apply UInt16.toNat_inj.mp
    rw [UInt32.toNat_toUInt16, Int32.toNat_toUInt32_of_le hnonneg, hnat]
    exact Nat.mod_eq_of_lt hbound
  simp only [UidCacheEntry.isFor, ProcRow.entry, hsaddr, hdaddr, hport hsport, Bool.and_true,
    Bool.and_eq_true, Bool.or_eq_true, decide_eq_true_eq, true_and]
  rcases hdport with heq | hzero
  · exact .inl (hport heq)
  · exact .inr (by rw [hzero]; rfl)

theorem FoundByScan.exists_firstRow (h : FoundByScan proc q now cache rows) :
    ∃ first, firstRow q rows = some first := by
  obtain ⟨row, hrow, hfor⟩ := h.found
  rw [← Option.isSome_iff_exists, firstRow, List.find?_isSome]
  exact ⟨row, hrow, ProcRow.isFor_entry hfor⟩

/-- What the cache answers after the scan: the first row that matches as it is stored. -/
theorem FoundByScan.cached (h : FoundByScan proc q now cache rows) (hlater : now ≤ now')
    (hage : now' - now ≤ uidMaxAge) :
    cachedUid q now' (getUidSub proc q now cache).2 = (firstRow q rows).map ProcRow.uid := by
  obtain ⟨p, hp⟩ : ∃ p : UidCacheEntry → Bool, p = fun e => e.fresh now' && e.isFor q := ⟨_, rfl⟩
  -- an entry that is fresh then was fresh before, when none was for the connection
  have hcache : cache.filter p = [] := by
    rw [List.filter_eq_nil_iff]
    intro e he hmatch
    simp only [hp, Bool.and_eq_true, UidCacheEntry.fresh, decide_eq_true_eq] at hmatch
    have hmissed := h.missed
    rw [cachedUid, Option.map_eq_none_iff, List.find?_eq_none] at hmissed
    apply hmissed e he
    simp only [Bool.and_eq_true, UidCacheEntry.fresh, decide_eq_true_eq]
    exact ⟨by omega, hmatch.2⟩
  obtain ⟨front, back, hsplit, -, -, hfront, hback⟩ :=
    filled_rows q now hcache (-1) rows
  have hfilter : (getUidSub proc q now cache).2.filter p =
      (rows.map (ProcRow.entry q now)).filter p := by
    rw [h.getUidSub_eq, hsplit, List.filter_append, hfront, hback, List.append_nil]
  have hentry : (p ∘ ProcRow.entry q now) = fun row => (row.entry q 0).isFor q := by
    funext row
    have hfresh : (row.entry q now).fresh now' = true := decide_eq_true hage
    simp only [hp, Function.comp_apply, hfresh, Bool.true_and]
    rfl
  rw [cachedUid, ← hp, ← List.head?_filter, hfilter, List.head?_filter, List.find?_map, hentry,
    Option.map_map, firstRow]
  rfl

/-- A second lookup within the age of the entries is answered by the cache, as the first. -/
def AnsweredAlike (proc : String → Option (List Char)) (q : UidQuery) (now : Int)
    (cache : List UidCacheEntry) : Prop :=
  ∀ now', now ≤ now' → now' - now ≤ uidMaxAge →
    cachedUid q now' (getUidSub proc q now cache).2 = some (getUidSub proc q now cache).1 ∧
      (getUidSub proc q now' (getUidSub proc q now cache).2).1 = (getUidSub proc q now cache).1

/-- The cache agrees with the scan exactly if the first row for the connection, with its
ports as they are stored, has the uid of the last one. -/
theorem answeredAlike_iff (h : FoundByScan proc q now cache rows) :
    AnsweredAlike proc q now cache ↔ SameOwner q rows := by
  obtain ⟨last, hlast, hscanned⟩ := h.scanned
  obtain ⟨first, hfirst⟩ := h.exists_firstRow
  have hcached {now' : Int} (hlater : now ≤ now') (hage : now' - now ≤ uidMaxAge) :
      cachedUid q now' (getUidSub proc q now cache).2 = some first.uid := by
    rw [h.cached hlater hage, hfirst, Option.map_some]
  constructor
  · intro halike first' last' hfirst' hlast'
    obtain rfl := Option.some.inj (hfirst.symm.trans hfirst')
    obtain rfl := Option.some.inj (hlast.symm.trans hlast')
    have hage : now - now ≤ uidMaxAge := by
      rw [uidMaxAge]
      omega
    have hnow := (halike now (Int.le_refl now) hage).1
    rw [hcached (Int.le_refl now) hage, hscanned] at hnow
    exact Option.some.inj hnow
  · intro hsame now' hlater hage
    have hcached' := hcached hlater hage
    rw [hsame first last hfirst hlast, ← hscanned] at hcached'
    refine ⟨hcached', ?_⟩
    rw [getUidSub, hcached']

end Agreement

section Sample

/-- A line for port 53: its address, as the kernel writes it, and its owner. -/
def sampleLine (saddr uid : String) : List Char :=
  "1: ".toList ++ saddr.toList ++ ":0035 00000000:0000 07 0:0 0:0 0 ".toList ++ uid.toList ++
    " 0 1\n".toList

def sampleProc (rows : List (List Char)) (fn : String) : Option (List Char) :=
  if fn = "/proc/net/udp" then some ("sl\n".toList ++ rows.flatten) else none

/-- Port 53 of 10.0.0.2. -/
def UidQuery.sample : UidQuery := ⟨⟨⟨.v4, [10, 0, 0, 2], [8, 8, 8, 8]⟩, 53, 53⟩, 17⟩

def ProcRow.sample (saddr : Address) (uid : Int32) : ProcRow := ⟨saddr, 53, [0, 0, 0, 0], 0, uid⟩

/-- One app has a socket on all addresses and one on that of the connection. -/
theorem answeredAlike_sample :
    AnsweredAlike (sampleProc [sampleLine "00000000" "10002", sampleLine "0200000A" "10002"])
      .sample 0 [] := by
  have hfound : FoundByScan
      (sampleProc [sampleLine "00000000" "10002", sampleLine "0200000A" "10002"]) .sample 0 []
      [.sample [0, 0, 0, 0] 10002, .sample [10, 0, 0, 2] 10002] := by
    refine ⟨rfl, ⟨"/proc/net/udp", _, rfl, rfl, ?_⟩, ?_⟩
    · decide
    · exact ⟨_, List.mem_cons_self, by decide⟩
  apply (answeredAlike_iff hfound).mpr
  intro first last hfirst hlast
  have hfirst' : firstRow .sample [.sample [0, 0, 0, 0] 10002, .sample [10, 0, 0, 2] 10002] =
      some (.sample [0, 0, 0, 0] 10002) := by decide
  have hlast' : lastRow .sample [.sample [0, 0, 0, 0] 10002, .sample [10, 0, 0, 2] 10002] =
      some (.sample [10, 0, 0, 2] 10002) := by decide
  rw [← Option.some.inj (hfirst'.symm.trans hfirst), ← Option.some.inj (hlast'.symm.trans hlast)]
  rfl

/-- A socket that listens on all addresses stands before one that is bound to the address
of the connection. -/
theorem not_answeredAlike :
    FoundByScan (sampleProc [sampleLine "00000000" "1001", sampleLine "0200000A" "10002"])
        .sample 0 [] [.sample [0, 0, 0, 0] 1001, .sample [10, 0, 0, 2] 10002] ∧
      (getUidSub (sampleProc [sampleLine "00000000" "1001", sampleLine "0200000A" "10002"])
        .sample 0 []).1 = 10002 ∧
      ¬ AnsweredAlike (sampleProc [sampleLine "00000000" "1001", sampleLine "0200000A" "10002"])
        .sample 0 [] := by
  refine ⟨⟨rfl, ⟨"/proc/net/udp", _, rfl, rfl, ?_⟩, ?_⟩, ?_, ?_⟩
  · decide
  · exact ⟨_, List.mem_cons_self, by decide⟩
  · decide
  · intro halike
    have hcached := (halike 1 (by decide) (by decide)).1
    exact absurd hcached (by decide)

end Sample

end NetGuard.Engine
