import Mathlib.Data.List.Sort
import NetGuard.Statistics.Traffic

/-! # Statistics of a session and of all time

A running session folds its logs into statistics of its own; all-time statistics are
read from the table, in which a log has a row for its IP and one for its host.
-/
namespace NetGuard.Statistics
open Service (Text)

namespace Counts

def packetCount (c : Counts) : Int := c.packetCountAllowed + c.packetCountBlocked

def packetSize (c : Counts) : Int := c.packetSizeAllowed + c.packetSizeBlocked

end Counts

structure PackageStatistics where
  packageName : Option Text
  counts : Counts
  ipsCount : Nat
  hostsCount : Nat
  deriving DecidableEq, Repr

structure SessionStatistics where
  counts : Counts
  mostBlockedPackage : Option PackageStatistics
  mostTrafficPackage : Option PackageStatistics
  deriving DecidableEq, Repr

section Live

/-- `packageStatistics` is a map in the order of insertion. -/
structure LiveSessionStatistics extends SessionStatistics where
  packageStatistics : List PackageStatistics
  deriving DecidableEq, Repr

def LiveSessionStatistics.empty : LiveSessionStatistics := ⟨⟨0, none, none⟩, []⟩

def putIfAbsent (packageName : Option Text) (l : List PackageStatistics) :
    List PackageStatistics :=
  if packageName ∈ l.map PackageStatistics.packageName then l else l ++ [⟨packageName, 0, 0, 0⟩]

/-- `sortedBy` is stable. -/
def lastSorted (f : Counts → Int) (l : List PackageStatistics) : Option PackageStatistics :=
  ((l.mergeSort fun a b => f a.counts ≤ f b.counts).filter fun a => 0 < f a.counts).getLast?

def PackageStatistics.addLog (log : TrafficLog) (p : PackageStatistics) : PackageStatistics :=
  { p with counts := p.counts + log.counts }

def addPackage (log : TrafficLog) (l : List PackageStatistics) : List PackageStatistics :=
  Tally.atKey PackageStatistics.packageName log.packageName (.addLog log)
    (putIfAbsent log.packageName l)

def LiveSessionStatistics.addLog (s : LiveSessionStatistics) (log : TrafficLog) :
    LiveSessionStatistics where
  counts := s.counts + log.counts
  packageStatistics := addPackage log s.packageStatistics
  mostTrafficPackage := lastSorted Counts.packetSize (addPackage log s.packageStatistics)
  mostBlockedPackage := lastSorted Counts.packetCountBlocked (addPackage log s.packageStatistics)

def live (logs : List TrafficLog) : LiveSessionStatistics :=
  logs.foldl LiveSessionStatistics.addLog .empty

end Live

section Stored

namespace Rows

/-- `_updateCount`, awaited. -/
def updateCount (rows : Rows) (a : Addition) : Rows :=
  if rows.get a.key = none then rows.insert ⟨a.key, a.counts⟩ else rows.update a.key a.counts

def addLog (rows : Rows) (log : TrafficLog) : Rows := log.additions.foldl updateCount rows

/-- `GROUP BY packageName`. The order of the groups is SQLite's own. -/
def groups (rows : Rows) : List PackageStatistics :=
  (rows.map fun r => r.packageName).dedup.map fun q =>
    let group := rows.filter fun r => r.packageName = q
    { packageName := q
      counts := (group.map TrafficStatistics.counts).sum
      ipsCount := ((group.filter fun r => r.endpointType = .ip).map fun r => r.endpoint).dedup.length
      hostsCount :=
        ((group.filter fun r => r.endpointType = .host).map fun r => r.endpoint).dedup.length }

end Rows

/-- What is compared where a list of strings is asked whether it contains a row. -/
inductive Value
  | string (s : Text)
  | packageStatistics (p : PackageStatistics)
  deriving DecidableEq

def contains (list : List Text) (value : Value) : Bool := list.any fun s => Value.string s = value

def firstOrdered (order : Counts → Int) (p : PackageStatistics → Bool) (rows : Rows) :
    Option PackageStatistics :=
  ((rows.groups).mergeSort fun a b => order b.counts ≤ order a.counts).find? p

def getPackageStatistics (availablePackages : List Text) (rows : Rows) : SessionStatistics where
  counts := (rows.map TrafficStatistics.counts).sum
  mostTrafficPackage := firstOrdered Counts.packetCount
    (fun p => 0 < p.counts.packetSize && contains availablePackages (.packageStatistics p)) rows
  mostBlockedPackage := firstOrdered Counts.packetCountBlocked
    (fun p => 0 < p.counts.packetCountBlocked &&
      contains availablePackages (.packageStatistics p)) rows

def stored (availablePackages : List Text) (logs : List TrafficLog) : SessionStatistics :=
  getPackageStatistics availablePackages (logs.foldl Rows.addLog [])

/-- A call of `_updateCount` that is awaited is its two operations one after the other. -/
theorem operate_updateCount (rows : Rows) (a : Addition) (rest : List Addition) :
    Repository.operate (Repository.operate rows ⟨none, a :: rest⟩).1
        (Repository.operate rows ⟨none, a :: rest⟩).2 =
      (rows.updateCount a, ⟨none, rest⟩) := by
  cases hget : rows.get a.key with
  | none => simp [Repository.operate, Rows.updateCount, hget]
  | some r => simp [Repository.operate, Rows.updateCount, hget]

end Stored

section Packages
variable {logs : List TrafficLog} {log : TrafficLog} {l : List PackageStatistics} {q : Option Text}

def countsOf (q : Option Text) (logs : List TrafficLog) : Counts :=
  Tally.total TrafficLog.packageName TrafficLog.counts q logs

theorem names_putIfAbsent : (putIfAbsent q l).map PackageStatistics.packageName =
    if q ∈ l.map PackageStatistics.packageName then l.map PackageStatistics.packageName
    else l.map PackageStatistics.packageName ++ [q] := by
  unfold putIfAbsent
  split
  · rfl
  · simp

theorem mem_names_putIfAbsent : q ∈ (putIfAbsent q l).map PackageStatistics.packageName := by
  rw [names_putIfAbsent]
  split
  next hmem => exact hmem
  next => simp

theorem nodup_putIfAbsent (hnodup : (l.map PackageStatistics.packageName).Nodup) :
    ((putIfAbsent q l).map PackageStatistics.packageName).Nodup := by
  rw [names_putIfAbsent]
  split
  next => exact hnodup
  next hnew =>
    have hadded := hnodup.concat hnew
    rwa [List.concat_eq_append] at hadded

theorem names_addPackage : (addPackage log l).map PackageStatistics.packageName =
    (putIfAbsent log.packageName l).map PackageStatistics.packageName :=
  Tally.keys_atKey (f := PackageStatistics.addLog log) (fun _ => rfl) _

theorem total_addPackage (hnodup : (l.map PackageStatistics.packageName).Nodup) :
    Tally.total PackageStatistics.packageName PackageStatistics.counts q (addPackage log l) =
      Tally.total PackageStatistics.packageName PackageStatistics.counts q l +
        if log.packageName = q then log.counts else 0 := by
  have hput : Tally.total PackageStatistics.packageName PackageStatistics.counts q
      (putIfAbsent log.packageName l) =
        Tally.total PackageStatistics.packageName PackageStatistics.counts q l := by
    unfold putIfAbsent
    split
    · rfl
    · simp [Tally.total_append, Tally.total_cons]
  rw [addPackage, Tally.total_atKey (f := .addLog log) (c := log.counts) q (fun _ => rfl)
    (fun _ => rfl) (nodup_putIfAbsent hnodup) mem_names_putIfAbsent, hput]

/-- The statistics of each package are those of its logs. -/
structure Folded (logs : List TrafficLog) (s : LiveSessionStatistics) : Prop where
  nodup : (s.packageStatistics.map PackageStatistics.packageName).Nodup
  total : ∀ q, Tally.total PackageStatistics.packageName PackageStatistics.counts q
    s.packageStatistics = countsOf q logs
  counts : s.counts = (logs.map TrafficLog.counts).sum
  traffic : s.mostTrafficPackage = lastSorted Counts.packetSize s.packageStatistics
  blocked : s.mostBlockedPackage = lastSorted Counts.packetCountBlocked s.packageStatistics

theorem Folded.addLog {s : LiveSessionStatistics} (h : Folded logs s) (log : TrafficLog) :
    Folded (logs ++ [log]) (s.addLog log) where
  nodup := by
    have hsame : ((s.addLog log).packageStatistics).map PackageStatistics.packageName =
      (putIfAbsent log.packageName s.packageStatistics).map PackageStatistics.packageName :=
        names_addPackage
    rw [hsame]
    exact nodup_putIfAbsent h.nodup
  total q := by
    simp only [LiveSessionStatistics.addLog, total_addPackage h.nodup, h.total, countsOf,
      Tally.total_append, Tally.total_cons, Tally.total_nil, add_zero]
  counts := by simp [LiveSessionStatistics.addLog, h.counts]
  traffic := rfl
  blocked := rfl

theorem folded_live (logs : List TrafficLog) : Folded logs (live logs) := by
  have hempty : Folded [] .empty :=
    ⟨List.nodup_nil, fun _ => rfl, rfl, by simp [lastSorted, LiveSessionStatistics.empty],
      by simp [lastSorted, LiveSessionStatistics.empty]⟩
  have hrun : Run.Along LiveSessionStatistics.addLog (fun _ _ => True) .empty logs :=
    .of_forall (fun _ _ => trivial) _ _
  exact hrun.history (P := Folded) (fun past s log _ h => h.addLog log) [] hempty

end Packages

section Most
variable {logs : List TrafficLog} {f : Counts → Int} {l : List PackageStatistics}
  {q : Option Text}

/-- A package with the largest value of a measure, and one if there is a positive value. -/
def IsMost (f : Counts → Int) (logs : List TrafficLog) : Option PackageStatistics → Prop
  | none => ∀ q, f (countsOf q logs) ≤ 0
  | some p => 0 < f (countsOf p.packageName logs) ∧
      ∀ q, f (countsOf q logs) ≤ f (countsOf p.packageName logs)

theorem lastSorted_none (h : lastSorted f l = none) : ∀ p ∈ l, f p.counts ≤ 0 := by
  intro p hp
  rw [lastSorted, List.getLast?_eq_none_iff, List.filter_eq_nil_iff] at h
  have hnot := h p ((List.mergeSort_perm l _).mem_iff.mpr hp)
  simpa using hnot

theorem lastSorted_some {p : PackageStatistics} (h : lastSorted f l = some p) :
    p ∈ l ∧ 0 < f p.counts ∧ ∀ p' ∈ l, f p'.counts ≤ f p.counts := by
  obtain ⟨before, hfilter⟩ := List.getLast?_eq_some_iff.mp h
  have hmem : p ∈ (l.mergeSort fun a b => f a.counts ≤ f b.counts).filter
      fun a => 0 < f a.counts := by simp [hfilter]
  obtain ⟨hsorted, hpos⟩ := List.mem_filter.mp hmem
  have hpos : 0 < f p.counts := by simpa using hpos
  refine ⟨(List.mergeSort_perm l _).mem_iff.mp hsorted, hpos, ?_⟩
  intro p' hp'
  by_contra hlarger
  rw [not_le] at hlarger
  -- the larger one is kept by the filter and stands before the last
  have hkept : p' ∈ before ++ [p] := by
    rw [← hfilter, List.mem_filter]
    exact ⟨(List.mergeSort_perm l _).mem_iff.mpr hp', by simpa using hpos.trans hlarger⟩
  have hpairs : (l.mergeSort fun a b => f a.counts ≤ f b.counts).Pairwise
      fun a b => f a.counts ≤ f b.counts := by
    have hsort : (l.mergeSort fun a b => f a.counts ≤ f b.counts).Pairwise
        fun a b => decide (f a.counts ≤ f b.counts) = true :=
      List.pairwise_mergeSort (by simpa using fun a b c => Int.le_trans)
        (by simpa using fun a b => Int.le_total _ _) l
    simpa using hsort
  have hlast := hpairs.filter fun a => 0 < f a.counts
  rw [hfilter, List.pairwise_append] at hlast
  rcases List.mem_append.mp hkept with hbefore | hsame
  · exact absurd (hlast.2.2 p' hbefore p (List.mem_singleton_self p)) (not_le.mpr hlarger)
  · exact absurd hlarger (by simp [List.mem_singleton.mp hsame])

theorem isMost_lastSorted (hf : f 0 = 0)
    (hnodup : (l.map PackageStatistics.packageName).Nodup)
    (htotal : ∀ q, Tally.total PackageStatistics.packageName PackageStatistics.counts q l =
      countsOf q logs) : IsMost f logs (lastSorted f l) := by
  have hcounts : ∀ p ∈ l, countsOf p.packageName logs = p.counts := fun p hp =>
    (htotal p.packageName).symm.trans (Tally.total_of_mem hnodup hp)
  have hmem (q : Option Text) :
      countsOf q logs = 0 ∨ ∃ p ∈ l, countsOf q logs = p.counts := by
    by_cases hq : q ∈ l.map PackageStatistics.packageName
    · obtain ⟨p, hp, rfl⟩ := List.mem_map.mp hq
      exact .inr ⟨p, hp, hcounts p hp⟩
    · exact .inl ((htotal q).symm.trans (Tally.total_of_not_mem hq))
  cases hlast : lastSorted f l with
  | none =>
    intro q
    rcases hmem q with hzero | ⟨p, hp, hq⟩
    · rw [hzero, hf]
    · rw [hq]
      exact lastSorted_none hlast p hp
  | some p =>
    obtain ⟨hp, hpos, hmost⟩ := lastSorted_some hlast
    rw [IsMost, hcounts p hp]
    refine ⟨hpos, ?_⟩
    intro q
    rcases hmem q with hzero | ⟨p', hp', hq⟩
    · rw [hzero, hf]
      exact hpos.le
    · rw [hq]
      exact hmost p' hp'

end Most

section Rows
variable {rows : Rows} {a : Addition} {k : Key}

/-- Another key of the same entry in the primary key: of the other type. -/
def Replaces (k k' : Key) : Prop := Rows.Conflicts k k' ∧ k ≠ k'

instance (k k' : Key) : Decidable (Replaces k k') := inferInstanceAs (Decidable (_ ∧ _))

theorem Replaces.symm {k' : Key} (h : Replaces k k') : Replaces k' k := by
  obtain ⟨⟨hsome, hpackage, hendpoint⟩, hne⟩ := h
  exact ⟨⟨hpackage ▸ hsome, hpackage.symm, hendpoint.symm⟩, hne.symm⟩

/-- What the primary key keeps, and that no two rows without a package have one key. -/
structure Sound (rows : Rows) : Prop where
  nodup : (rows.map TrafficStatistics.toKey).Nodup
  primary : ∀ k ∈ rows.map TrafficStatistics.toKey, ∀ k' ∈ rows.map TrafficStatistics.toKey,
    ¬ Replaces k k'

/-- An addition leaves every row but those it replaces. -/
structure Updated (rows : Rows) (a : Addition) (rows' : Rows) : Prop where
  sound : Sound rows'
  counted : ∀ k, rows'.counted k =
    (if Replaces a.key k then 0 else rows.counted k) + if a.key = k then a.counts else 0

theorem Sound.alone (h : Sound rows) {before after : Rows} {r : TrafficStatistics}
    (hrows : rows = before ++ r :: after) (hconflict : Rows.Conflicts a.key r.toKey) :
    ∀ r' ∈ before ++ after, ¬ Rows.Conflicts a.key r'.toKey := by
  intro r' hr' hconflict'
  have hmem : r' ∈ rows := by
    rw [hrows]
    simp only [List.mem_append, List.mem_cons] at hr' ⊢
    tauto
  have hmem₀ : r ∈ rows := by simp [hrows]
  have hpair : Rows.Conflicts r.toKey r'.toKey := by
    obtain ⟨hsome, hpackage, hendpoint⟩ := hconflict
    exact ⟨hpackage ▸ hsome, hconflict'.2.1.trans hpackage.symm,
      hconflict'.2.2.trans hendpoint.symm⟩
  have hkeys : r.toKey = r'.toKey := by
    by_contra hne
    exact h.primary _ (List.mem_map_of_mem hmem₀) _ (List.mem_map_of_mem hmem) ⟨hpair, hne⟩
  have hnodup := h.nodup
  rw [hrows, List.map_append, List.map_cons, List.nodup_middle, List.nodup_cons] at hnodup
  apply hnodup.1
  rw [hkeys, ← List.map_append]
  exact List.mem_map_of_mem hr'

theorem Rows.insert_perm (h : Sound rows) (hnew : a.key ∉ rows.map TrafficStatistics.toKey) :
    (rows.insert ⟨a.key, a.counts⟩).Perm
      ((rows.filter fun r => ! decide (Replaces a.key r.toKey)) ++ [⟨a.key, a.counts⟩]) := by
  by_cases hfree : ∃ r ∈ rows, Conflicts a.key r.toKey
  · obtain ⟨r, hr, hconflict⟩ := hfree
    obtain ⟨before, after, hrows⟩ := List.append_of_mem hr
    have halone := h.alone hrows hconflict
    have hreplaces : Replaces a.key r.toKey :=
      ⟨hconflict, fun heq => hnew (heq ▸ List.mem_map_of_mem hr)⟩
    have hstay (l : Rows) (hl : ∀ r' ∈ l, ¬ Conflicts a.key r'.toKey) :
        (l.map fun r => if Conflicts a.key r.toKey then ⟨a.key, a.counts⟩ else r) = l ∧
          (l.filter fun r => ! decide (Replaces a.key r.toKey)) = l := by
      constructor
      · exact (List.map_congr_left (g := id) fun r hr => if_neg (hl r hr)).trans l.map_id
      · rw [List.filter_eq_self]
        intro r hr
        simp [Replaces, hl r hr]
    obtain ⟨hbefore, hbefore'⟩ := hstay before fun r' hr' => halone r' (by simp [hr'])
    obtain ⟨hafter, hafter'⟩ := hstay after fun r' hr' => halone r' (by simp [hr'])
    have hinsert : rows.insert ⟨a.key, a.counts⟩ = before ++ ⟨a.key, a.counts⟩ :: after := by
      rw [Rows.insert, if_pos (List.any_eq_true.mpr ⟨r, hr, by simpa using hconflict⟩), hrows,
        List.map_append, List.map_cons, hbefore, hafter, if_pos hconflict]
    have hfilter : (rows.filter fun r => ! decide (Replaces a.key r.toKey)) = before ++ after := by
      rw [hrows, List.filter_append, List.filter_cons, hbefore', hafter']
      simp [hreplaces]
    rw [hinsert, hfilter]
    exact List.perm_middle.trans (List.perm_append_singleton _ _).symm
  · have hnone : ∀ r ∈ rows, ¬ Conflicts a.key r.toKey := by simpa using hfree
    have hfilter : (rows.filter fun r => ! decide (Replaces a.key r.toKey)) = rows := by
      rw [List.filter_eq_self]
      intro r hr
      simp [Replaces, hnone r hr]
    rw [insert_of_free hnone, hfilter]

theorem Rows.insert_updated (h : Sound rows) (hnew : a.key ∉ rows.map TrafficStatistics.toKey) :
    Updated rows a (rows.insert ⟨a.key, a.counts⟩) := by
  have hperm := Rows.insert_perm h hnew
  have hkeys := hperm.map TrafficStatistics.toKey
  rw [List.map_append, List.map_singleton] at hkeys
  have hmem {k : Key} (hk : k ∈ (rows.insert ⟨a.key, a.counts⟩).map TrafficStatistics.toKey) :
      (k ∈ rows.map TrafficStatistics.toKey ∧ ¬ Replaces a.key k) ∨ k = a.key := by
    rcases List.mem_append.mp (hkeys.mem_iff.mp hk) with hkept | hsame
    · obtain ⟨r, hr, rfl⟩ := List.mem_map.mp hkept
      obtain ⟨hr, hnot⟩ := List.mem_filter.mp hr
      exact .inl ⟨List.mem_map_of_mem hr, by simpa using hnot⟩
    · exact .inr (List.mem_singleton.mp hsame)
  refine ⟨⟨?_, ?_⟩, ?_⟩
  · rw [hkeys.nodup_iff, List.nodup_append]
    refine ⟨h.nodup.sublist (List.filter_sublist.map _), List.nodup_singleton _, ?_⟩
    rintro k hk k' hk' rfl
    obtain ⟨r, hr, hkey⟩ := List.mem_map.mp hk
    have hsame : k = a.key := List.mem_singleton.mp hk'
    apply hnew
    rw [← hsame, ← hkey]
    exact List.mem_map_of_mem (List.mem_of_mem_filter hr)
  · intro k hk k' hk' hreplaces
    rcases hmem hk with ⟨hold, hnot⟩ | rfl
    · rcases hmem hk' with ⟨hold', -⟩ | rfl
      · exact h.primary k hold k' hold' hreplaces
      · exact hnot hreplaces.symm
    · rcases hmem hk' with ⟨-, hnot'⟩ | rfl
      · exact hnot' hreplaces
      · exact hreplaces.2 rfl
  · intro k
    have hfilter := Tally.total_filter TrafficStatistics.toKey TrafficStatistics.counts k
      (fun k => ! decide (Replaces a.key k)) rows
    rw [Rows.counted, Tally.total_perm hperm, Tally.total_append, hfilter]
    by_cases hreplaces : Replaces a.key k
    · simp [hreplaces, Tally.total_cons]
    · simp [hreplaces, Tally.total_cons, Rows.counted]

theorem Rows.update_updated (h : Sound rows) (hold : a.key ∈ rows.map TrafficStatistics.toKey) :
    Updated rows a (rows.update a.key a.counts) := by
  have hsame : (rows.update a.key a.counts).map TrafficStatistics.toKey =
      rows.map TrafficStatistics.toKey :=
    Tally.keys_atKey (f := fun r => { r with counts := r.counts + a.counts }) (fun _ => rfl) rows
  refine ⟨⟨hsame ▸ h.nodup, hsame ▸ h.primary⟩, ?_⟩
  intro k
  have htotal : (rows.update a.key a.counts).counted k =
      rows.counted k + if a.key = k then a.counts else 0 :=
    Tally.total_atKey k (fun _ => rfl) (fun _ => rfl) h.nodup hold
  rw [htotal]
  by_cases hreplaces : Replaces a.key k
  · have hnot : k ∉ rows.map TrafficStatistics.toKey := fun hk =>
      h.primary _ hold _ hk hreplaces
    rw [if_pos hreplaces, Rows.counted, Tally.total_of_not_mem hnot]
  · rw [if_neg hreplaces]

theorem updateCount_updated (h : Sound rows) : Updated rows a (rows.updateCount a) := by
  unfold Rows.updateCount
  by_cases hold : a.key ∈ rows.map TrafficStatistics.toKey
  · have hget : rows.get a.key ≠ none := Option.isSome_iff_ne_none.mp (get_isSome_iff.mpr hold)
    rw [if_neg hget]
    exact Rows.update_updated h hold
  · have hget : rows.get a.key = none := by
      rw [← Option.not_isSome_iff_eq_none, get_isSome_iff]
      exact hold
    rw [if_pos hget]
    exact Rows.insert_updated h hold

end Rows

section Survivors
variable {rows : Rows} {as : List Addition} {a : Addition}

/-- The additions that stay in the table: no later one takes their entry of the primary
key for the other type. -/
def survivors : List Addition → List Addition
  | [] => []
  | a :: rest =>
    if rest.any fun b => Replaces b.key a.key then survivors rest else a :: survivors rest

theorem survivors_snoc (as : List Addition) (a : Addition) : survivors (as ++ [a]) =
    ((survivors as).filter fun b => ! decide (Replaces a.key b.key)) ++ [a] := by
  induction as with
  | nil => simp [survivors]
  | cons b rest ih =>
    rw [List.cons_append, survivors, survivors, List.any_append, ih]
    by_cases hlater : rest.any fun c => Replaces c.key b.key
    · simp [hlater]
    · by_cases hlast : Replaces a.key b.key
      · simp [hlater, hlast]
      · simp [hlater, hlast]

theorem updateCount_run (as : List Addition) : Sound (as.foldl Rows.updateCount []) ∧
    ∀ k, (as.foldl Rows.updateCount []).counted k =
      Tally.total Addition.key Addition.counts k (survivors as) := by
  induction as using List.reverseRecOn with
  | nil => exact ⟨⟨List.nodup_nil, by simp⟩, fun _ => rfl⟩
  | append_singleton as a ih =>
    obtain ⟨hsound, hcounted⟩ := ih
    obtain ⟨hsound', hcounted'⟩ := updateCount_updated (a := a) hsound
    rw [List.foldl_append, survivors_snoc]
    refine ⟨hsound', ?_⟩
    intro k
    have hfilter := Tally.total_filter Addition.key Addition.counts k
      (fun k => ! decide (Replaces a.key k)) (survivors as)
    rw [Tally.total_append, hfilter, List.foldl_cons, List.foldl_nil, hcounted', hcounted]
    by_cases hreplaces : Replaces a.key k
    · simp [hreplaces, Tally.total_cons]
    · simp [hreplaces, Tally.total_cons]

theorem addLog_run (logs : List TrafficLog) (rows : Rows) :
    logs.foldl Rows.addLog rows =
      (logs.flatMap TrafficLog.additions).foldl Rows.updateCount rows := by
  induction logs generalizing rows with
  | nil => rfl
  | cons log logs ih => rw [List.foldl_cons, ih, List.flatMap_cons, List.foldl_append, Rows.addLog]

theorem stored_counts (availablePackages : List Text) (logs : List TrafficLog) :
    (stored availablePackages logs).counts =
      ((survivors (logs.flatMap TrafficLog.additions)).map Addition.counts).sum := by
  have hrun := (updateCount_run (logs.flatMap TrafficLog.additions)).2
  rw [stored, getPackageStatistics, addLog_run]
  exact Tally.sum_congr hrun

theorem contains_packageStatistics (availablePackages : List Text) (p : PackageStatistics) :
    contains availablePackages (.packageStatistics p) = false := by
  simp [contains]

theorem stored_mostTrafficPackage (availablePackages : List Text) (logs : List TrafficLog) :
    (stored availablePackages logs).mostTrafficPackage = none := by
  simp [stored, getPackageStatistics, firstOrdered, contains_packageStatistics]

theorem stored_mostBlockedPackage (availablePackages : List Text) (logs : List TrafficLog) :
    (stored availablePackages logs).mostBlockedPackage = none := by
  simp [stored, getPackageStatistics, firstOrdered, contains_packageStatistics]

end Survivors

section Agreement
variable {logs : List TrafficLog}

/-- The statistics of a list of logs: every log once, and the packages with the most. -/
structure Exact (logs : List TrafficLog) (s : SessionStatistics) : Prop where
  counts : s.counts = (logs.map TrafficLog.counts).sum
  traffic : IsMost Counts.packetSize logs s.mostTrafficPackage
  blocked : IsMost Counts.packetCountBlocked logs s.mostBlockedPackage

theorem exact_live (logs : List TrafficLog) : Exact logs (live logs).toSessionStatistics := by
  have h := folded_live logs
  refine ⟨h.counts, ?_, ?_⟩
  · rw [h.traffic]
    exact isMost_lastSorted rfl h.nodup h.total
  · rw [h.blocked]
    exact isMost_lastSorted rfl h.nodup h.total

theorem packetCountBlocked_add (a b : Counts) :
    (a + b).packetCountBlocked = a.packetCountBlocked + b.packetCountBlocked := rfl

theorem blocked_counts (q : Option Text) (logs : List TrafficLog) :
    (countsOf q logs).packetCountBlocked =
      logs.countP fun log => log.packageName = q && !log.allowed := by
  induction logs with
  | nil => rfl
  | cons log logs ih =>
    rw [countsOf] at ih ⊢
    rw [Tally.total_cons, List.countP_cons, Int.natCast_add, ← ih]
    by_cases hq : log.packageName = q
    · cases hallowed : log.allowed with
      | true => simp [hq, hallowed, TrafficLog.counts, packetCountBlocked_add]
      | false => simp [hq, hallowed, TrafficLog.counts, packetCountBlocked_add, Int.add_comm]
    · simp [hq]

theorem no_blocked_iff : (∀ q, (countsOf q logs).packetCountBlocked ≤ 0) ↔
    ∀ log ∈ logs, log.allowed = true := by
  have hzero (q : Option Text) : (countsOf q logs).packetCountBlocked ≤ 0 ↔
      ∀ log ∈ logs, ¬ (log.packageName = q ∧ log.allowed = false) := by
    rw [blocked_counts, Int.natCast_nonpos_iff, List.countP_eq_zero]
    simp
  simp only [hzero]
  constructor
  · intro h log hlog
    by_contra hblocked
    exact h log.packageName log hlog ⟨rfl, by simpa using hblocked⟩
  · rintro h q log hlog ⟨-, hblocked⟩
    exact absurd (h log hlog) (by simp [hblocked])

/-- All-time statistics agree with those of a session of the same logs exactly where no
package has the most of anything and the second rows and the lost ones cancel out. -/
theorem stored_exact_iff (availablePackages : List Text) (logs : List TrafficLog) :
    (Exact logs (stored availablePackages logs) ∧ Exact logs (live logs).toSessionStatistics ∧
      (stored availablePackages logs).counts = (live logs).counts) ↔
      (∀ q, (countsOf q logs).packetSize ≤ 0) ∧ (∀ log ∈ logs, log.allowed = true) ∧
        ((survivors (logs.flatMap TrafficLog.additions)).map Addition.counts).sum =
          (logs.map TrafficLog.counts).sum := by
  have hlive := exact_live logs
  rw [← no_blocked_iff, ← stored_counts availablePackages logs]
  constructor
  · rintro ⟨⟨hcounts, htraffic, hblocked⟩, -, -⟩
    rw [stored_mostTrafficPackage] at htraffic
    rw [stored_mostBlockedPackage] at hblocked
    exact ⟨htraffic, hblocked, hcounts⟩
  · rintro ⟨htraffic, hblocked, hcounts⟩
    refine ⟨⟨hcounts, ?_, ?_⟩, hlive, hcounts.trans hlive.counts.symm⟩
    · rw [stored_mostTrafficPackage]
      exact htraffic
    · rw [stored_mostBlockedPackage]
      exact hblocked

/-- One log with a host: the table counts it twice and names no package. -/
theorem not_stored_exact :
    (stored ["app".toList] [.sample (some "app") (some "host")]).counts = ⟨2, 120, 0, 0⟩ ∧
      (stored ["app".toList] [.sample (some "app") (some "host")]).mostTrafficPackage = none ∧
      (live [.sample (some "app") (some "host")]).counts = ⟨1, 60, 0, 0⟩ ∧
      ¬ Exact [.sample (some "app") (some "host")]
        (stored ["app".toList] [.sample (some "app") (some "host")]) := by
  have hstored : (stored ["app".toList] [.sample (some "app") (some "host")]).counts =
      ⟨2, 120, 0, 0⟩ := by decide
  refine ⟨hstored, stored_mostTrafficPackage _ _, by decide, ?_⟩
  intro hexact
  have hcounts := hexact.counts
  rw [hstored] at hcounts
  exact absurd hcounts (by decide)

end Agreement

end NetGuard.Statistics
