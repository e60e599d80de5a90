import NetGuard.Storage.Scan
import Mathlib.Data.Finset.Card

/-! # Scans that follow one another

The page of the global rules scans with the sources it was opened with, whatever has been
stored since. A scan after a complete one must not store an entry again, and a scan after
one that was stopped must store what is missing.
-/
namespace NetGuard.Storage
open Service (Text HostType HostEntry)

/-- The database and the page's copy of the sources, which has the same sources with
hashes of its own. -/
structure GlobalRulesCubit where
  db : GlobalTables
  sources : List GlobalRuleSource
  loaded : sources.map GlobalRuleSource.site = db.getAll.map GlobalRuleSource.site

namespace GlobalRulesCubit
variable {tools : Tools} {contents : Contents} {g : GlobalRulesCubit} {h : HostEntry}

/-- The page is opened. -/
def load (g : GlobalRulesCubit) : GlobalRulesCubit := ⟨g.db, g.db.getAll, rfl⟩

theorem site_clearHashes (db : GlobalTables) :
    db.clearHashes.getAll.map GlobalRuleSource.site = db.getAll.map GlobalRuleSource.site := by
  simp [GlobalTables.getAll, GlobalTables.clearHashes, OrderedMap.mapValues, Function.comp_def,
    GlobalRuleSource.site, GlobalRuleSource.ofRow]

def clearHashes (g : GlobalRulesCubit) : GlobalRulesCubit :=
  ⟨g.db.clearHashes, g.sources, g.loaded.trans (site_clearHashes g.db).symm⟩

def clearGeneric (g : GlobalRulesCubit) : GlobalRulesCubit :=
  ⟨g.db.clearGeneric, g.sources, g.loaded⟩

theorem getAll_parsed (tools : Tools) (contents : Contents) (g : GlobalRulesCubit) :
    (g.db.updateAll (parseSources tools contents g.sources .empty).1).getAll =
      (parseSources tools contents g.sources .empty).1 :=
  getAll_updateAll (site_parseSources.trans g.loaded)

theorem getAll_run_take (tools : Tools) (contents : Contents) (g : GlobalRulesCubit) (n : Nat) :
    (((scanWrites tools contents g.sources).take n).foldl Write.run g.db).getAll =
      if n = 0 then g.db.getAll else (parseSources tools contents g.sources .empty).1 := by
  cases n with
  | zero => rfl
  | succ n =>
    rw [run_take_succ, if_neg (Nat.succ_ne_zero n)]
    exact getAll_parsed tools contents g

theorem loaded_run_take (tools : Tools) (contents : Contents) (g : GlobalRulesCubit) (n : Nat) :
    g.sources.map GlobalRuleSource.site =
      (((scanWrites tools contents g.sources).take n).foldl Write.run g.db).getAll.map
        GlobalRuleSource.site := by
  rw [getAll_run_take]
  split
  next => exact g.loaded
  next => exact site_parseSources.symm

/-- A scan that is stopped after `n` transactions. The page keeps its copy. -/
def stopScan (tools : Tools) (contents : Contents) (n : Nat) (g : GlobalRulesCubit) :
    GlobalRulesCubit :=
  ⟨((scanWrites tools contents g.sources).take n).foldl Write.run g.db, g.sources,
    loaded_run_take tools contents g n⟩

theorem loaded_scan (tools : Tools) (contents : Contents) (g : GlobalRulesCubit) :
    g.sources.map GlobalRuleSource.site =
      (scanSources tools contents g.sources g.db).getAll.map GlobalRuleSource.site := by
  have hall := loaded_run_take tools contents g (scanWrites tools contents g.sources).length
  rwa [List.take_length] at hall

def scan (tools : Tools) (contents : Contents) (g : GlobalRulesCubit) : GlobalRulesCubit :=
  ⟨scanSources tools contents g.sources g.db, g.sources, loaded_scan tools contents g⟩

end GlobalRulesCubit

section Sample

def Tools.sample : Tools :=
  ⟨fun _ => "bffe56857f84dda2bf39b0abdaae40ca".toList, HashSet.elems, fun _ => .refl _⟩

/-- A page that blocks one host. -/
def Contents.sample : Contents := ⟨fun _ => some "0.0.0.0 ads.example".toList, fun _ => none⟩

/-- One source that has not been scanned. -/
def GlobalRulesCubit.sample : GlobalRulesCubit where
  db := GlobalTables.updateAll ⟨.empty, []⟩ [⟨"a".toList, "hosts.example".toList, .online, none⟩]
  sources := [⟨"a".toList, "hosts.example".toList, .online, none⟩]
  loaded := rfl

end Sample

section Stopped
variable {tools : Tools} {contents : Contents}

/-- How a scan was stopped: after how many transactions, and whether the page is opened
again before the next one, as it is after the process has died. -/
structure Stop where
  writes : Nat
  reopened : Bool

def Stop.after (stop : Stop) (tools : Tools) (contents : Contents) (g : GlobalRulesCubit) :
    GlobalRulesCubit :=
  let g := g.stopScan tools contents stop.writes
  if stop.reopened then g.load else g

/-- After the next scan the table has every entry of the sources. -/
def Repaired (tools : Tools) (contents : Contents) (stop : Stop) (g : GlobalRulesCubit) : Prop :=
  ∀ source ∈ g.sources, ∀ h, Lists contents source h →
    h ∈ ((stop.after tools contents g).scan tools contents).db.hostsTable

/-- The sources with the hashes from before the stop, if the next scan still has these. -/
def Stop.unscanned (stop : Stop) (g : GlobalRulesCubit) : List GlobalRuleSource :=
  if stop.reopened then if stop.writes = 0 then g.db.getAll else [] else g.sources

theorem mem_stopScan {n : Nat} {g : GlobalRulesCubit} {h : HostEntry} :
    h ∈ (g.stopScan tools contents n).db.hostsTable ↔
      h ∈ g.db.hostsTable ∨ h ∈ committed tools contents g.sources n := by
  cases n with
  | zero =>
    have hnone : committed tools contents g.sources 0 = [] := rfl
    rw [hnone, or_iff_left List.not_mem_nil]
    rfl
  | succ n =>
    simp only [GlobalRulesCubit.stopScan, run_take_succ, List.mem_append]

/-- The next scan parses a source if it has changed since the hash that is left to it. -/
theorem exists_changed_after (stop : Stop) (g : GlobalRulesCubit) (P : GlobalRuleSource → Prop) :
    (∃ source ∈ (stop.after tools contents g).sources, Changed tools contents source ∧ P source) ↔
      ∃ source ∈ stop.unscanned g, Changed tools contents source ∧ P source := by
  obtain ⟨writes, reopened⟩ := stop
  cases reopened with
  | false => rfl
  | true =>
    have hload : (Stop.after ⟨writes, true⟩ tools contents g).sources =
        (((scanWrites tools contents g.sources).take writes).foldl Write.run g.db).getAll := rfl
    rw [hload, GlobalRulesCubit.getAll_run_take]
    simp only [Stop.unscanned, if_true]
    split
    next => rfl
    next =>
      apply iff_of_false
      · rintro ⟨source, hmem, hchanged, -⟩
        exact not_changed_parseSources source hmem hchanged
      · rintro ⟨source, hmem, -⟩
        exact List.not_mem_nil hmem

/-- A scan that was stopped is repaired exactly when every entry was in the table before,
is in a batch that was committed, or belongs to a source that the next scan parses again. -/
theorem repaired_iff (tools : Tools) (contents : Contents) (stop : Stop) (g : GlobalRulesCubit) :
    Repaired tools contents stop g ↔ ∀ source ∈ g.sources, ∀ h, Lists contents source h →
      h ∈ g.db.hostsTable ∨ h ∈ committed tools contents g.sources stop.writes ∨
        ∃ source' ∈ stop.unscanned g,
          Changed tools contents source' ∧ Lists contents source' h := by
  have hmem : ∀ h, h ∈ ((stop.after tools contents g).scan tools contents).db.hostsTable ↔
      (h ∈ g.db.hostsTable ∨ h ∈ committed tools contents g.sources stop.writes) ∨
        ∃ source' ∈ stop.unscanned g,
          Changed tools contents source' ∧ Lists contents source' h := by
    intro h
    have hdb : (stop.after tools contents g).db = (g.stopScan tools contents stop.writes).db := by
      rw [Stop.after]
      split <;> rfl
    simp only [GlobalRulesCubit.scan, mem_scanSources, hdb, mem_stopScan,
      exists_changed_after stop g fun source => Lists contents source h]
  simp only [Repaired, hmem, or_assoc]

/-- The hash is stored before the entries: a scan that dies in between is the last one
that reads the source. -/
theorem not_repaired :
    Lists .sample ⟨"a".toList, "hosts.example".toList, .online, none⟩
        ⟨none, "ads.example".toList, .host⟩ ∧
      (((Stop.mk 1 true).after .sample .sample .sample).scan .sample .sample).db.hostsTable = [] ∧
      ¬ Repaired .sample .sample ⟨1, true⟩ .sample := by
  have hlists : Lists .sample ⟨"a".toList, "hosts.example".toList, .online, none⟩
      ⟨none, "ads.example".toList, .host⟩ := ⟨_, rfl, rfl, by decide +kernel⟩
  have hnone : (((Stop.mk 1 true).after .sample .sample .sample).scan .sample .sample).db.hostsTable =
      [] := by decide +kernel
  refine ⟨hlists, hnone, fun hrepaired => ?_⟩
  have hmem := hrepaired _ List.mem_cons_self _ hlists
  rw [hnone] at hmem
  exact List.not_mem_nil hmem

end Stopped

section Repeated
variable {tools : Tools} {contents : Contents}

/-- What can happen on the page. The button that deletes the global rules clears the
hashes and then the entries. -/
inductive PageEvent
  | scan (contents : Contents)
  | clearHashes
  | clearGeneric
  | load

/-- A page with the contents of the last scan, unless its entries have been cleared. -/
structure Rescan where
  cubit : GlobalRulesCubit
  scanned : Option Contents

def Rescan.step (tools : Tools) (s : Rescan) : PageEvent → Rescan
  | .scan contents => ⟨s.cubit.scan tools contents, some contents⟩
  | .clearHashes => ⟨s.cubit.clearHashes, s.scanned⟩
  | .clearGeneric => ⟨s.cubit.clearGeneric, none⟩
  | .load => ⟨s.cubit.load, s.scanned⟩

def GlobalTables.genericTargets (db : GlobalTables) : List (HostType × Text) :=
  db.getGeneric.map fun h => (h.type, h.target)

/-- No type and target occurs twice, and the count is the number of these. -/
def GlobalTables.Single (db : GlobalTables) : Prop :=
  db.genericTargets.Nodup ∧ db.getGenericCount = db.genericTargets.toFinset.card

instance (db : GlobalTables) : Decidable db.Single := inferInstanceAs (Decidable (_ ∧ _))

def SameContents (sources : List GlobalRuleSource) (contents contents' : Contents) : Prop :=
  ∀ source ∈ sources, contents.of source = contents'.of source

/-- The table is single after the event, and a scan of what was scanned last leaves it. -/
def Idempotent (tools : Tools) (s : Rescan) (e : PageEvent) : Prop :=
  (s.step tools e).cubit.db.Single ∧
    ∀ contents, e = .scan contents → ∀ last, s.scanned = some last →
      SameContents s.cubit.sources last contents →
        (s.step tools e).cubit.db.hostsTable = s.cubit.db.hostsTable

/-- A scan that parses only entries which the table does not have, and none if the
contents are those of the last scan. -/
def ParsesNew (tools : Tools) (s : Rescan) (e : PageEvent) : Prop :=
  ∀ contents, e = .scan contents → ∀ source ∈ s.cubit.sources, Changed tools contents source →
    ∀ h, Lists contents source h → h ∉ s.cubit.db.hostsTable ∧
      ∀ last, s.scanned = some last → ¬ SameContents s.cubit.sources last contents

theorem single_iff {db : GlobalTables} : db.Single ↔ db.getGeneric.Nodup := by
  have hrows : db.genericTargets.Nodup ↔ db.getGeneric.Nodup := by
    refine ⟨List.Nodup.of_map _, fun hnodup => hnodup.map_on ?_⟩
    intro h hmem h' hmem' heq
    have hnone := of_decide_eq_true (List.mem_filter.mp hmem).2
    have hnone' := of_decide_eq_true (List.mem_filter.mp hmem').2
    obtain ⟨htype, htarget⟩ := Prod.mk.inj heq
    exact HostEntry.mk.injEq .. ▸ ⟨hnone.trans hnone'.symm, htarget, htype⟩
  rw [GlobalTables.Single, and_iff_left_of_imp, hrows]
  intro hnodup
  rw [List.toFinset_card_of_nodup hnodup, GlobalTables.genericTargets, List.length_map]
  rfl

theorem hostsTable_scan (tools : Tools) (contents : Contents) (g : GlobalRulesCubit) :
    (g.scan tools contents).db.hostsTable = g.db.hostsTable ++
      (parseSources tools contents g.sources .empty).2.entries tools :=
  congrArg GlobalTables.hostsTable scanSources_eq

theorem getGeneric_scan (tools : Tools) (contents : Contents) (g : GlobalRulesCubit) :
    (g.scan tools contents).db.getGeneric = g.db.getGeneric ++
      (parseSources tools contents g.sources .empty).2.entries tools := by
  have hnone : ∀ e ∈ (parseSources tools contents g.sources .empty).2.entries tools,
      decide (e.ruleId = none) = true := fun e he => decide_eq_true (entries_ruleId he)
  rw [GlobalTables.getGeneric, hostsTable_scan, List.filter_append, List.filter_eq_self.mpr hnone]
  rfl

theorem single_scan_iff {g : GlobalRulesCubit} (hsingle : g.db.Single) :
    (g.scan tools contents).db.Single ↔ ∀ source ∈ g.sources, Changed tools contents source →
      ∀ h, Lists contents source h → h ∉ g.db.hostsTable := by
  rw [single_iff] at hsingle
  rw [single_iff, getGeneric_scan, List.nodup_append]
  constructor
  · rintro ⟨-, -, hnew⟩ source hsource hchanged h hlists hmem
    have hentry := mem_parsed.mpr ⟨source, hsource, hchanged, hlists⟩
    have hgeneric : h ∈ g.db.getGeneric :=
      List.mem_filter.mpr ⟨hmem, decide_eq_true (entries_ruleId hentry)⟩
    exact hnew h hgeneric h hentry rfl
  · intro hnew
    refine ⟨hsingle, entries_nodup tools _, ?_⟩
    rintro h hgeneric h' hentry rfl
    obtain ⟨source, hsource, hchanged, hlists⟩ := mem_parsed.mp hentry
    exact hnew source hsource hchanged h hlists (List.mem_filter.mp hgeneric).1

theorem hostsTable_scan_iff {g : GlobalRulesCubit} :
    (g.scan tools contents).db.hostsTable = g.db.hostsTable ↔
      ∀ source ∈ g.sources, Changed tools contents source → ∀ h, ¬ Lists contents source h := by
  rw [hostsTable_scan, List.append_right_eq_self, List.eq_nil_iff_forall_not_mem]
  simp only [mem_parsed, not_exists, not_and]
  constructor
  · intro hnone source hsource hchanged h
    exact hnone h source hsource hchanged
  · intro hnone h source hsource hchanged
    exact hnone source hsource hchanged h

/-- The events other than a scan add nothing. -/
theorem single_step_of_not_scan {s : Rescan} {e : PageEvent} (hscan : ∀ contents, e ≠ .scan contents)
    (hsingle : s.cubit.db.Single) : (s.step tools e).cubit.db.Single := by
  rw [single_iff] at hsingle ⊢
  cases e with
  | scan contents => exact absurd rfl (hscan contents)
  | clearHashes => exact hsingle
  | clearGeneric => exact (hsingle.sublist (List.filter_sublist.filter _))
  | load => exact hsingle

theorem idempotent_iff_parsesNew {s : Rescan} (e : PageEvent) (hsingle : s.cubit.db.Single) :
    Idempotent tools s e ↔ ParsesNew tools s e := by
  by_cases hscan : ∃ contents, e = .scan contents
  · obtain ⟨contents, rfl⟩ := hscan
    simp only [Idempotent, ParsesNew, PageEvent.scan.injEq, forall_eq', Rescan.step,
      single_scan_iff hsingle, hostsTable_scan_iff]
    constructor
    · rintro ⟨hnew, hsame⟩ source hsource hchanged h hlists
      refine ⟨hnew source hsource hchanged h hlists, ?_⟩
      intro last hlast hcontents
      exact hsame last hlast hcontents source hsource hchanged h hlists
    · intro hnew
      refine ⟨fun source hsource hchanged h hlists => (hnew source hsource hchanged h hlists).1, ?_⟩
      intro last hlast hcontents source hsource hchanged h hlists
      exact (hnew source hsource hchanged h hlists).2 last hlast hcontents
  · rw [not_exists] at hscan
    apply iff_of_true
    · exact ⟨single_step_of_not_scan hscan hsingle, fun contents he => absurd he (hscan contents)⟩
    · exact fun contents he => absurd he (hscan contents)

/-- Along a run of the page the scans are idempotent exactly when none parses an entry
again. -/
theorem rescans_idempotent_iff (tools : Tools) (g : GlobalRulesCubit) (hsingle : g.db.Single)
    (events : List PageEvent) :
    Run.Along (Rescan.step tools) (Idempotent tools) ⟨g, none⟩ events ↔
      Run.Along (Rescan.step tools) (ParsesNew tools) ⟨g, none⟩ events := by
  apply Run.Along.congr (I := fun s => s.cubit.db.Single) (P := fun _ => True)
  · intro s e _ hs
    exact idempotent_iff_parsesNew e hs
  · intro s e _ _ hstep
    exact hstep.1
  · exact fun _ _ => trivial
  · exact hsingle

/-- After the page has been opened again the sources are the ones of the last scan. -/
theorem rescans_idempotent_sample :
    Run.Along (Rescan.step .sample) (Idempotent .sample) ⟨.sample, none⟩
      [.scan .sample, .load, .scan .sample] := by
  refine (rescans_idempotent_iff .sample .sample (by decide) _).mpr ⟨?_, nofun, ?_, trivial⟩
  · rintro contents - source - - h -
    exact ⟨List.not_mem_nil, nofun⟩
  · intro contents he source hsource hchanged
    obtain rfl := PageEvent.scan.inj he
    have hsources : ([.scan .sample, .load].foldl (Rescan.step .sample) ⟨.sample, none⟩).cubit.sources =
        [⟨"a".toList, "hosts.example".toList, .online,
          some "bffe56857f84dda2bf39b0abdaae40ca".toList⟩] := by decide +kernel
    obtain rfl := List.mem_singleton.mp (hsources ▸ hsource)
    obtain ⟨hostsfile, -, -, hhash⟩ := hchanged
    exact absurd rfl hhash

/-- The page still has the sources without hashes when it scans again. -/
theorem not_idempotent :
    ([.scan .sample, .scan .sample].foldl (Rescan.step .sample)
        ⟨.sample, none⟩).cubit.db.getGenericCount = 4 ∧
      ¬ Run.Along (Rescan.step .sample) (Idempotent .sample) ⟨.sample, none⟩
        [.scan .sample, .scan .sample] := by
  have htargets : ([.scan .sample, .scan .sample].foldl (Rescan.step .sample)
      ⟨.sample, none⟩).cubit.db.genericTargets =
        [(.host, "ads.example".toList), (.ip, "0.0.0.0".toList),
          (.host, "ads.example".toList), (.ip, "0.0.0.0".toList)] := by decide +kernel
  refine ⟨?_, ?_⟩
  · have hlength := congrArg List.length htargets
    rwa [GlobalTables.genericTargets, List.length_map] at hlength
  · rintro ⟨-, ⟨⟨hnodup, -⟩, -⟩, -⟩
    exact absurd (htargets ▸ hnodup) (by decide)

end Repeated

end NetGuard.Storage
