import NetGuard.Analysis.Session
import NetGuard.Library.Tally

/-! # The filtered log

The log is shown grouped or log by log, for the selected applications and for allowed or
blocked traffic. A group passes the filter with the attributes of its first log, and an
application selects the logs kept under its package.
-/
namespace NetGuard.Analysis
open Service (Text)

inductive LogSorting
  | time
  | volume
  | blockedVolume
  | name
  | application
  deriving DecidableEq, Repr

structure SessionLogsFilterState where
  showGrouped : Bool
  blockedOnly : Bool
  allowedOnly : Bool
  filterApplications : List (Option Application)
  sorting : LogSorting
  deriving DecidableEq, Repr

namespace SessionLogsFilterState
variable (filter : SessionLogsFilterState)

def filterAllowedBlocked (allowed : Bool) : Bool :=
  filter.allowedOnly && allowed || filter.blockedOnly && !allowed ||
    !filter.allowedOnly && !filter.blockedOnly

def packageNames : List (Option Text) :=
  filter.filterApplications.map fun a => a.map Application.packageName

def groupedLog (groups : TrafficLogGroups) : List TrafficLogGroup :=
  let result := (groups.list filter.packageNames).filter fun g =>
    filter.filterAllowedBlocked g.allowed
  if filter.sorting = .volume then result.mergeSort fun a b => b.count ≤ a.count else result

def singleLog (s : SessionLogAnalysisState) : List TrafficLog :=
  let result :=
    if filter.filterApplications.isEmpty then s.logs
    else filter.filterApplications.flatMap fun application =>
      (s.logByApplication.get (application.map Application.packageName)).getD []
  result.filter fun log => filter.filterAllowedBlocked log.allowed

def getLog (s : SessionLogAnalysisState) : List TrafficLogGroup ⊕ List TrafficLog :=
  if filter.showGrouped then .inl (filter.groupedLog s.groupedLogs) else .inr (filter.singleLog s)

/-- The logs of the selected applications, once for each selection, that pass. -/
def selected (logs : List TrafficLog) : List TrafficLog :=
  (if filter.filterApplications.isEmpty then logs
  else filter.filterApplications.flatMap fun application =>
    logs.filter fun log => log.packageName = application.map Application.packageName).filter
      fun log => filter.filterAllowedBlocked log.allowed

end SessionLogsFilterState

section Reported
variable {logs : List TrafficLog} {g : TrafficLogGroup}

/-- Every log is counted in one group, which has the attributes of the log, and a filter
shows the volume of the logs that pass it. -/
structure Reported (logs : List TrafficLog) (groups : TrafficLogGroups) : Prop where
  distinct : ((groups.list []).map TrafficLogGroup.key).Nodup
  counted : ∀ log ∈ logs, ∃ g ∈ groups.list [], g.key = log.key
  volume : ∀ g ∈ groups.list [],
    g.volume = ((logs.filter fun log => log.key = g.key).map TrafficLog.volume).sum
  own : ∀ g ∈ groups.list [], ∀ log ∈ logs, log.key = g.key →
    g.packageName = log.packageName ∧ g.protocol = log.protocol ∧ g.dport = log.dport ∧
      g.destination = log.destination ∧ g.allowed = log.allowed
  shown : ∀ filter : SessionLogsFilterState,
    ((filter.groupedLog groups).map TrafficLogGroup.volume).sum =
      ((filter.selected logs).map TrafficLog.volume).sum

/-- No two logs of one package, destination and protocol differ in port or verdict. -/
def Uniform (logs : List TrafficLog) : Prop :=
  ∀ log ∈ logs, ∀ log' ∈ logs, log.key = log'.key →
    log.dport = log'.dport ∧ log.allowed = log'.allowed

theorem mem_ofLogs (hg : g ∈ (TrafficLogGroups.ofLogs logs).listed []) :
    g.volume = ((logs.filter fun log => log.key = g.key).map TrafficLog.volume).sum ∧
      ∃ log ∈ logs, g.attributes = log.attributes := by
  obtain ⟨k, hfind⟩ := TrafficLogGroups.mem_listed.mp hg
  have hkey : g.key = k := TrafficLogGroups.keyed_ofLogs logs k g hfind
  rw [TrafficLogGroups.find_ofLogs] at hfind
  obtain ⟨hvolume, first, rest, hlogs, hattributes⟩ := gather_fromLog hfind
  have hfirst : first ∈ logs.filter fun log => log.key = k := by simp [hlogs]
  exact ⟨hkey ▸ hvolume, first, List.mem_of_mem_filter hfirst, hattributes⟩

theorem exists_group {log : TrafficLog} (hlog : log ∈ logs) :
    ∃ g ∈ (TrafficLogGroups.ofLogs logs).listed [], g.key = log.key := by
  have hmem : log ∈ logs.filter fun log' => log'.key = log.key := by simp [hlog]
  have hfind := TrafficLogGroups.find_ofLogs logs log.key
  cases hlogs : logs.filter fun log' => log'.key = log.key with
  | nil => simp [hlogs] at hmem
  | cons first rest =>
    rw [hlogs] at hfind
    have hkey := TrafficLogGroups.keyed_ofLogs logs _ _ hfind
    exact ⟨_, TrafficLogGroups.mem_listed.mpr ⟨_, hfind⟩, hkey⟩

theorem Uniform.attributes (h : Uniform logs)
    (hg : g ∈ (TrafficLogGroups.ofLogs logs).listed []) {log : TrafficLog} (hlog : log ∈ logs)
    (hkey : log.key = g.key) : g.attributes = log.attributes := by
  obtain ⟨-, first, hfirst, hattributes⟩ := mem_ofLogs hg
  have hsame : first.key = log.key := (congrArg Prod.fst hattributes).symm.trans hkey.symm
  obtain ⟨hdport, hallowed⟩ := h first hfirst log hlog hsame
  rw [hattributes, TrafficLog.attributes, TrafficLog.attributes, hsame, hdport, hallowed]

theorem Uniform.sum_filter (h : Uniform logs) (q : GroupKey × Int × Bool → Bool) :
    ((((TrafficLogGroups.ofLogs logs).listed []).filter fun g => q g.attributes).map
        TrafficLogGroup.volume).sum =
      ((logs.filter fun log => q log.attributes).map TrafficLog.volume).sum := by
  have hgroup : ∀ g ∈ (TrafficLogGroups.ofLogs logs).listed [],
      (if q g.attributes then g.volume else 0) =
        Tally.total TrafficLog.key (fun log => if q log.attributes then log.volume else 0) g.key
          logs := by
    intro g hg
    have hclass : ∀ log ∈ logs.filter (fun log => log.key = g.key),
        (if q log.attributes then log.volume else 0) =
          if q g.attributes then log.volume else 0 := by
      intro log hlog
      obtain ⟨hlog, hkey⟩ := List.mem_filter.mp hlog
      rw [h.attributes hg hlog (by simpa using hkey)]
    rw [Tally.total, List.map_congr_left hclass]
    split
    · exact (mem_ofLogs hg).1
    · simp
  have hcover : ∀ log ∈ logs, log.key ∈
      ((TrafficLogGroups.ofLogs logs).listed []).map TrafficLogGroup.key := by
    intro log hlog
    obtain ⟨g, hg, hkey⟩ := exists_group hlog
    exact hkey ▸ List.mem_map_of_mem hg
  have htotal := Tally.sum_total (fun log : TrafficLog => if q log.attributes then log.volume else 0)
    (TrafficLogGroups.keyed_ofLogs logs).nodup hcover
  rw [List.map_map] at htotal
  rw [Tally.sum_filter, Tally.sum_filter, List.map_congr_left hgroup]
  exact htotal

theorem Uniform.sum_groupedLog (h : Uniform logs) (filter : SessionLogsFilterState) :
    ((filter.groupedLog (.ofLogs logs)).map TrafficLogGroup.volume).sum =
      ((filter.selected logs).map TrafficLog.volume).sum := by
  have hperm : (filter.groupedLog (.ofLogs logs)).Perm
      (((TrafficLogGroups.ofLogs logs).listed filter.packageNames).filter fun g =>
        filter.filterAllowedBlocked g.allowed) := by
    have hfiltered := (TrafficLogGroups.list_perm (.ofLogs logs) filter.packageNames).filter
      fun g => filter.filterAllowedBlocked g.allowed
    simp only [SessionLogsFilterState.groupedLog]
    split
    · exact (List.mergeSort_perm _ _).trans hfiltered
    · exact hfiltered
  rw [(hperm.map _).sum_eq, SessionLogsFilterState.selected]
  cases hfilter : filter.filterApplications with
  | nil =>
    simp only [SessionLogsFilterState.packageNames, hfilter, List.map_nil, List.isEmpty_nil,
      if_true]
    exact h.sum_filter fun a => filter.filterAllowedBlocked a.2.2
  | cons first rest =>
    have hlisted : (TrafficLogGroups.ofLogs logs).listed filter.packageNames =
        filter.packageNames.flatMap fun packageName =>
          ((TrafficLogGroups.ofLogs logs).listed []).filter fun g =>
            g.packageName = packageName := by
      simp only [← (TrafficLogGroups.keyed_ofLogs logs).listed_package]
      rw [TrafficLogGroups.listed, if_neg]
      simp [SessionLogsFilterState.packageNames, hfilter]
    rw [hlisted, SessionLogsFilterState.packageNames, List.flatMap_map, hfilter, List.filter_flatMap,
      TrafficLogGroups.sum_flatMap]
    rw [List.isEmpty_cons, if_neg Bool.false_ne_true, List.filter_flatMap,
      TrafficLogGroups.sum_flatMap]
    congr 1
    apply List.map_congr_left
    intro application _
    simp only [List.filter_filter]
    exact h.sum_filter fun a => filter.filterAllowedBlocked a.2.2 &&
      decide (a.1.packageName = application.map Application.packageName)

/-- The groups report every log under its own attributes exactly when the logs of a group
agree in the two that are not part of where it is found. -/
theorem reported_iff (logs : List TrafficLog) :
    Reported logs (.ofLogs logs) ↔ Uniform logs := by
  have hmem {g : TrafficLogGroup} : g ∈ (TrafficLogGroups.ofLogs logs).list [] ↔
      g ∈ (TrafficLogGroups.ofLogs logs).listed [] := (TrafficLogGroups.list_perm _ _).mem_iff
  constructor
  · intro hreported log hlog log' hlog' hkey
    obtain ⟨g, hg, hgkey⟩ := hreported.counted log hlog
    obtain ⟨-, -, hdport, -, hallowed⟩ := hreported.own g hg log hlog hgkey.symm
    obtain ⟨-, -, hdport', -, hallowed'⟩ := hreported.own g hg log' hlog' (hkey ▸ hgkey.symm)
    exact ⟨hdport.symm.trans hdport', hallowed.symm.trans hallowed'⟩
  · intro h
    refine ⟨?_, ?_, ?_, ?_, h.sum_groupedLog⟩
    · rw [((TrafficLogGroups.list_perm _ _).map _).nodup_iff]
      exact (TrafficLogGroups.keyed_ofLogs logs).nodup
    · intro log hlog
      obtain ⟨g, hg, hkey⟩ := exists_group hlog
      exact ⟨g, hmem.mpr hg, hkey⟩
    · intro g hg
      exact (mem_ofLogs (hmem.mp hg)).1
    · intro g hg log hlog hkey
      have hattributes := h.attributes (hmem.mp hg) hlog hkey
      refine ⟨congrArg (fun a => a.1.packageName) hattributes,
        congrArg (fun a => a.1.protocol) hattributes, congrArg (fun a => a.2.1) hattributes,
        congrArg (fun a => a.1.destination) hattributes,
        congrArg (fun a => a.2.2) hattributes⟩

/-- A blocked log of another port counts as an allowed one of the first port. -/
theorem not_reported :
    ((TrafficLogGroups.ofLogs [.sample 1 80 true, .sample 2 443 false]).listed []).map
        (fun g => (g.dport, g.allowed, g.count)) = [(80, true, 2)] ∧
      ¬ Reported [.sample 1 80 true, .sample 2 443 false]
        (.ofLogs [.sample 1 80 true, .sample 2 443 false]) := by
  refine ⟨by decide, ?_⟩
  intro hreported
  obtain ⟨g, hg, hkey⟩ := hreported.counted (.sample 1 80 true) (by simp)
  have hallowed := (hreported.own g hg (.sample 1 80 true) (by simp) hkey.symm).2.2.2.2
  have hblocked := (hreported.own g hg (.sample 2 443 false) (by simp) hkey.symm).2.2.2.2
  exact absurd (hallowed.symm.trans hblocked) (by decide)

end Reported

section Analysed
open OrderedMap (collect gather)

/-- The applications are kept under their packages, as the session passes them. -/
def Insertion.WellKeyed (i : Insertion) : Prop :=
  ∀ package a, i.possibleApplications package = some a → a.packageName = package

/-- The package of the log, if it has one, is an application known at that moment. -/
def Insertion.Known (i : Insertion) : Prop := i.package = i.log.packageName

instance (i : Insertion) : Decidable i.Known := inferInstanceAs (Decidable (_ = _))

/-- The log filtered by an analysed application is the traffic in the analysis. -/
def ShowsAnalysed (s : SessionLogAnalysisState) : Prop :=
  ∀ k a, s.analysisByApplication.get k = some a → ∀ filter : SessionLogsFilterState,
    filter.showGrouped = false → filter.filterApplications = [a.application] →
    filter.allowedOnly = false → filter.blockedOnly = false →
      ∃ logs, filter.getLog s = .inr logs ∧ (logs.length : Int) = a.count ∧
        (logs.map fun log => log.size).sum = a.size

def insertAll (calls : List (Chart × Insertion)) : SessionLogAnalysisState :=
  .run (calls.map fun call => .insert call.1 call.2)

variable {ins : List Insertion} {s : SessionLogAnalysisState} {a : TrafficLogByApplication}

theorem built_insertAll (calls : List (Chart × Insertion)) :
    Built (calls.map Prod.snd) (insertAll calls) := by
  induction calls using List.reverseRecOn with
  | nil => exact built_initial
  | append_singleton calls call ih =>
    rw [insertAll, SessionLogAnalysisState.run, List.map_append, List.map_append, List.foldl_append]
    exact ih.insert call.1 call.2

theorem count_size_add (a : TrafficLogAggregation) (log : TrafficLog) :
    (a.add log).count = a.count + 1 ∧ (a.add log).size = a.size + log.size := by
  simp only [TrafficLogAggregation.add, TrafficLogAggregation.count, TrafficLogAggregation.size]
  cases log.allowed with
  | true => simp [Int.add_right_comm]
  | false => simp [Int.add_assoc]

theorem fold_analysis (ins : List Insertion) (a : TrafficLogByApplication) :
    (ins.foldl (fun a i => TrafficLogByApplication.add i.log a) a).application = a.application ∧
      (ins.foldl (fun a i => TrafficLogByApplication.add i.log a) a).count =
        a.count + ins.length ∧
      (ins.foldl (fun a i => TrafficLogByApplication.add i.log a) a).size =
        a.size + (ins.map fun i => i.log.size).sum := by
  induction ins generalizing a with
  | nil => simp
  | cons i ins ih =>
    obtain ⟨happlication, hcount, hsize⟩ := ih (a.add i.log)
    obtain ⟨hcount', hsize'⟩ := count_size_add a.toTrafficLogAggregation i.log
    rw [List.foldl_cons, happlication, hcount, hsize, List.length_cons, List.map_cons,
      List.sum_cons]
    refine ⟨rfl, ?_, ?_⟩
    · rw [TrafficLogByApplication.add, hcount', Int.natCast_add, Int.natCast_one]
      omega
    · rw [TrafficLogByApplication.add, hsize', Int.add_assoc]

theorem gather_analysis (h : gather (fun i => ⟨.initial, i.application⟩)
    (fun i a => TrafficLogByApplication.add i.log a) ins = some a) :
    (∃ first rest, ins = first :: rest ∧ a.application = first.application) ∧
      a.count = ins.length ∧ a.size = (ins.map fun i => i.log.size).sum := by
  cases ins with
  | nil => exact absurd h nofun
  | cons first rest =>
    obtain rfl := Option.some.inj h
    obtain ⟨happlication, hcount, hsize⟩ :=
      fold_analysis (first :: rest) ⟨.initial, first.application⟩
    refine ⟨⟨first, rest, rfl, happlication⟩, hcount.trans ?_, hsize.trans ?_⟩
    · exact Int.zero_add _
    · exact Int.zero_add _

theorem gather_logs (ins : List Insertion) :
    (gather (fun _ => []) (fun i l => l ++ [i.log]) ins).getD [] = ins.map Insertion.log := by
  induction ins using List.reverseRecOn with
  | nil => rfl
  | append_singleton ins i ih => rw [OrderedMap.gather_snoc, Option.getD_some, ih, List.map_append,
      List.map_singleton]

theorem Insertion.WellKeyed.application {i : Insertion} (h : i.WellKeyed) :
    i.application.map Application.packageName = i.package := by
  rw [Insertion.application]
  cases hpackage : i.package with
  | none => rfl
  | some package =>
    obtain ⟨-, hsome⟩ := Option.filter_eq_some_iff.mp hpackage
    obtain ⟨a, ha⟩ := Option.isSome_iff_exists.mp hsome
    rw [Option.bind_some, ha, Option.map_some, h package a ha]

/-- What an analysed application counts, and what the filter shows for it. -/
theorem Built.analysed (h : Built ins s) (hkeyed : ∀ i ∈ ins, i.WellKeyed) {k : Option Text}
    (hget : s.analysisByApplication.get k = some a) {filter : SessionLogsFilterState}
    (hsingle : filter.showGrouped = false) (happ : filter.filterApplications = [a.application])
    (hallowed : filter.allowedOnly = false) (hblocked : filter.blockedOnly = false) :
    a.count = (ins.filter fun i => i.package = k).length ∧
      a.size = ((ins.filter fun i => i.package = k).map fun i => i.log.size).sum ∧
      filter.getLog s =
        .inr ((ins.filter fun i => i.log.packageName = k).map Insertion.log) := by
  rw [h.analysisByApplication, OrderedMap.get_collect] at hget
  obtain ⟨⟨first, rest, hins, happlication⟩, hcount, hsize⟩ := gather_analysis hget
  refine ⟨hcount, hsize, ?_⟩
  have hfirst : first ∈ ins.filter fun i => i.package = k := by simp [hins]
  obtain ⟨hmem, hk⟩ := List.mem_filter.mp hfirst
  have hpackage : a.application.map Application.packageName = k := by
    rw [happlication, (hkeyed first hmem).application]
    simpa using hk
  simp only [SessionLogsFilterState.getLog, SessionLogsFilterState.singleLog, hsingle, happ,
    SessionLogsFilterState.filterAllowedBlocked, hallowed, hblocked, h.logByApplication]
  simp [hpackage, OrderedMap.get_collect, gather_logs]

theorem Insertion.known_of_package {i : Insertion} (h : i.package ≠ none) : i.Known := by
  obtain ⟨package, hpackage⟩ := Option.ne_none_iff_exists'.mp h
  exact hpackage.trans (Option.filter_eq_some_iff.mp hpackage).1.symm

theorem length_filter_known (ins : List Insertion)
    (h : (ins.filter fun i => i.log.packageName = none).length =
      (ins.filter fun i => i.package = none).length) : ∀ i ∈ ins, i.Known := by
  have hnone (i : Insertion) : i.log.packageName = none → i.package = none := by
    intro hi
    rw [Insertion.package, hi]
    rfl
  have hsub : (ins.filter fun i => i.log.packageName = none) =
      (ins.filter fun i => i.package = none).filter fun i => i.log.packageName = none := by
    rw [List.filter_filter]
    apply List.filter_congr
    intro i _
    by_cases hi : i.log.packageName = none
    · simp [hi, hnone i hi]
    · simp [hi]
  intro i hi
  by_contra hunknown
  have hpackage : i.package = none := by
    by_contra hpackage
    exact hunknown (Insertion.known_of_package hpackage)
  have hless : (ins.filter fun i => i.log.packageName = none).length <
      (ins.filter fun i => i.package = none).length := by
    rw [hsub, List.length_filter_lt_length_iff_exists]
    refine ⟨i, List.mem_filter.mpr ⟨hi, by simpa using hpackage⟩, ?_⟩
    intro hname
    exact hunknown (hpackage.trans (by simpa using hname : i.log.packageName = none).symm)
  omega

/-- The filter shows what the analysis counts exactly when no log came from a package that
was not an application at that moment. -/
theorem showsAnalysed_iff (calls : List (Chart × Insertion))
    (hkeyed : ∀ call ∈ calls, call.2.WellKeyed) :
    ShowsAnalysed (insertAll calls) ↔ ∀ call ∈ calls, call.2.Known := by
  have hbuilt := built_insertAll calls
  have hkeyed' : ∀ i ∈ calls.map Prod.snd, i.WellKeyed := List.forall_mem_map.mpr hkeyed
  suffices hiff : ShowsAnalysed (insertAll calls) ↔ ∀ i ∈ calls.map Prod.snd, i.Known from
    hiff.trans List.forall_mem_map
  generalize calls.map Prod.snd = ins at hbuilt hkeyed' ⊢
  constructor
  · intro hshows
    cases hget : (insertAll calls).analysisByApplication.get none with
    | none =>
      rw [hbuilt.analysisByApplication, OrderedMap.get_collect, OrderedMap.gather_eq_none_iff,
        List.filter_eq_nil_iff] at hget
      intro i hi
      exact Insertion.known_of_package (by simpa using hget i hi)
    | some a =>
      obtain ⟨filter, hfilter⟩ : ∃ filter : SessionLogsFilterState,
        filter = ⟨false, false, false, [a.application], .time⟩ := ⟨_, rfl⟩
      have hsingle : filter.showGrouped = false := by rw [hfilter]
      have happ : filter.filterApplications = [a.application] := by rw [hfilter]
      have hallowed : filter.allowedOnly = false := by rw [hfilter]
      have hblocked : filter.blockedOnly = false := by rw [hfilter]
      obtain ⟨logs, hlogs, hcount, -⟩ := hshows none a hget filter hsingle happ hallowed hblocked
      obtain ⟨hcount', -, hlogs'⟩ :=
        hbuilt.analysed hkeyed' hget hsingle happ hallowed hblocked
      obtain rfl := Sum.inr.inj (hlogs.symm.trans hlogs')
      rw [hcount', List.length_map] at hcount
      exact length_filter_known ins (Int.ofNat.inj hcount)
  · intro hknown k a hget filter hsingle happ hallowed hblocked
    obtain ⟨hcount, hsize, hlogs⟩ := hbuilt.analysed hkeyed' hget hsingle happ hallowed hblocked
    have hsame : (ins.filter fun i => i.package = k) =
        ins.filter fun i => i.log.packageName = k := by
      apply List.filter_congr
      intro i hi
      rw [hknown i hi]
    rw [hsame] at hcount hsize
    refine ⟨_, hlogs, ?_, ?_⟩
    · rw [hcount, List.length_map]
    · rw [hsize, List.map_map]
      rfl

def Application.sample : Application := ⟨10001, "app".toList, "App".toList, "1".toList, none, false⟩

def Insertion.sampleKnown : Insertion :=
  ⟨.sample 1 80 true, fun package => if package = "app".toList then some .sample else none⟩

theorem showsAnalysed_sample : ShowsAnalysed (insertAll [(.plain, .sampleKnown)]) := by
  have hkeyed : ∀ call ∈ [(Chart.plain, Insertion.sampleKnown)], call.2.WellKeyed := by
    intro call hcall
    rw [List.mem_singleton.mp hcall]
    intro package a ha
    simp only [Insertion.sampleKnown, Option.ite_none_right_eq_some, Option.some.injEq] at ha
    rw [← ha.2, ha.1]
    rfl
  exact (showsAnalysed_iff _ hkeyed).mpr (by decide)

/-- The log of an unknown package is analysed under no application, but not shown there. -/
theorem not_showsAnalysed :
    (Insertion.sample 1 80 true).WellKeyed ∧
      ¬ ShowsAnalysed (insertAll [(.plain, .sample 1 80 true)]) := by
  refine ⟨nofun, ?_⟩
  intro hshows
  obtain ⟨logs, hlogs, hcount, -⟩ := hshows none ⟨⟨1, 1, 0, 60, 0⟩, none⟩ rfl
    ⟨false, false, false, [none], .time⟩ rfl rfl rfl rfl
  obtain rfl : [] = logs := Sum.inr.inj hlogs
  exact absurd hcount (by decide)

end Analysed

end NetGuard.Analysis
