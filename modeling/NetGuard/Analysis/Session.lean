import NetGuard.Analysis.Groups
import NetGuard.Library.Run

/-! # The analysis of a session

Every log of a session is kept in a list, in two maps of lists, in two maps of sums and
in the groups. The maps by application differ in their keys: the sums are kept under no
package where the package is not one of the applications known at the insertion.
-/
namespace NetGuard.Analysis
open Service (Text)
open Statistics (Counts)

structure Application where
  uid : Int
  packageName : Text
  label : Text
  version : Text
  icon : Option (List UInt8)
  system : Bool
  deriving DecidableEq, Repr

structure TrafficLogAggregation where
  latest : Int
  countAllowed : Int
  countBlocked : Int
  sizeAllowed : Int
  sizeBlocked : Int
  deriving DecidableEq, Repr

namespace TrafficLogAggregation
variable (a : TrafficLogAggregation)

def initial : TrafficLogAggregation := ⟨0, 0, 0, 0, 0⟩

def count : Int := a.countAllowed + a.countBlocked

def size : Int := a.sizeAllowed + a.sizeBlocked

def counts : Counts := ⟨a.countAllowed, a.sizeAllowed, a.countBlocked, a.sizeBlocked⟩

def add (log : TrafficLog) (a : TrafficLogAggregation) : TrafficLogAggregation where
  sizeAllowed := if log.allowed then a.sizeAllowed + log.size else a.sizeAllowed
  countAllowed := if log.allowed then a.countAllowed + 1 else a.countAllowed
  sizeBlocked := if !log.allowed then a.sizeBlocked + log.size else a.sizeBlocked
  countBlocked := if !log.allowed then a.countBlocked + 1 else a.countBlocked
  latest := if log.time > a.latest then log.time else a.latest

end TrafficLogAggregation

structure TrafficLogByApplication extends TrafficLogAggregation where
  application : Option Application
  deriving DecidableEq, Repr

def TrafficLogByApplication.add (log : TrafficLog) (a : TrafficLogByApplication) :
    TrafficLogByApplication := ⟨a.toTrafficLogAggregation.add log, a.application⟩

structure TrafficLogByDestination extends TrafficLogAggregation where
  destination : Text
  deriving DecidableEq, Repr

def TrafficLogByDestination.add (log : TrafficLog) (a : TrafficLogByDestination) :
    TrafficLogByDestination := ⟨a.toTrafficLogAggregation.add log, a.destination⟩

/-- The filter and the order of the charts. Any order permutes. -/
structure Chart where
  filterApplications : List (Option Application)
  sortApplications : List TrafficLogByApplication → List TrafficLogByApplication
  sortDestinations : List TrafficLogByDestination → List TrafficLogByDestination
  sortApplications_perm : ∀ l, (sortApplications l).Perm l
  sortDestinations_perm : ∀ l, (sortDestinations l).Perm l

/-- A call of `insert`: the log and the applications known at that moment. -/
structure Insertion where
  log : TrafficLog
  possibleApplications : Text → Option Application

namespace Insertion
variable (i : Insertion)

def package : Option Text :=
  i.log.packageName.filter fun package => (i.possibleApplications package).isSome

def application : Option Application := i.package.bind i.possibleApplications

end Insertion

structure SessionLogAnalysisState where
  logs : List TrafficLog
  groupedLogs : TrafficLogGroups
  logByApplication : OrderedMap (Option Text) (List TrafficLog)
  logByDestination : OrderedMap Text (List TrafficLog)
  analysisByApplication : OrderedMap (Option Text) TrafficLogByApplication
  analysisByDestination : OrderedMap Text TrafficLogByDestination
  applicationsSortedFiltered : List (Option Text)
  destinationsSortedFiltered : List Text

namespace SessionLogAnalysisState

def initial : SessionLogAnalysisState := ⟨[], .empty, .empty, .empty, .empty, .empty, [], []⟩

def applySortAndFilter (chart : Chart) (s : SessionLogAnalysisState) : SessionLogAnalysisState :=
  let analysisByApp := s.analysisByApplication.values.filter fun a =>
    chart.filterApplications.isEmpty || chart.filterApplications.contains a.application
  { s with
    applicationsSortedFiltered := (chart.sortApplications analysisByApp).map fun a =>
      a.application.map Application.packageName
    destinationsSortedFiltered :=
      (chart.sortDestinations s.analysisByDestination.values).map fun a => a.destination }

def insertByApplication (i : Insertion) (s : SessionLogAnalysisState) :
    OrderedMap (Option Text) TrafficLogByApplication :=
  s.analysisByApplication.add i.package
    (((s.analysisByApplication.get i.package).getD ⟨.initial, i.application⟩).add i.log)

def insertByDestination (log : TrafficLog) (s : SessionLogAnalysisState) :
    OrderedMap Text TrafficLogByDestination :=
  s.analysisByDestination.add log.destination
    (((s.analysisByDestination.get log.destination).getD ⟨.initial, log.destination⟩).add log)

def insert (chart : Chart) (i : Insertion) (s : SessionLogAnalysisState) :
    SessionLogAnalysisState :=
  let log := i.log
  let appLog := (s.logByApplication.get log.packageName).getD []
  let destLog := (s.logByDestination.get log.destination).getD []
  let newState :=
    { s with
      groupedLogs := s.groupedLogs.insert log
      logs := s.logs ++ [log]
      logByApplication := s.logByApplication.add log.packageName (appLog ++ [log])
      logByDestination := s.logByDestination.add log.destination (destLog ++ [log])
      analysisByApplication := s.insertByApplication i
      analysisByDestination := s.insertByDestination log }
  if log.packageName ∉ s.analysisByApplication.keys ∨
      log.destination ∉ s.analysisByDestination.keys then
    applySortAndFilter chart newState
  else newState

end SessionLogAnalysisState

inductive Event
  | insert (chart : Chart) (i : Insertion)
  | clear

def SessionLogAnalysisState.step (s : SessionLogAnalysisState) : Event → SessionLogAnalysisState
  | .insert chart i => s.insert chart i
  | .clear => .initial

def SessionLogAnalysisState.run (events : List Event) : SessionLogAnalysisState :=
  events.foldl SessionLogAnalysisState.step .initial

section Built
open OrderedMap (collect)

/-- A state as the insertions since it was last cleared make it. -/
structure Built (ins : List Insertion) (s : SessionLogAnalysisState) : Prop where
  logs : s.logs = ins.map Insertion.log
  groupedLogs : s.groupedLogs = .ofLogs (ins.map Insertion.log)
  logByApplication : s.logByApplication =
    collect (fun i => i.log.packageName) (fun _ => []) (fun i l => l ++ [i.log]) ins
  logByDestination : s.logByDestination =
    collect (fun i => i.log.destination) (fun _ => []) (fun i l => l ++ [i.log]) ins
  analysisByApplication : s.analysisByApplication =
    collect Insertion.package (fun i => ⟨.initial, i.application⟩) (fun i a => a.add i.log) ins
  analysisByDestination : s.analysisByDestination =
    collect (fun i => i.log.destination) (fun i => ⟨.initial, i.log.destination⟩)
      (fun i a => a.add i.log) ins

variable {ins : List Insertion} {s : SessionLogAnalysisState}

theorem built_initial : Built [] .initial := ⟨rfl, rfl, rfl, rfl, rfl, rfl⟩

theorem Built.insert (h : Built ins s) (chart : Chart) (i : Insertion) :
    Built (ins ++ [i]) (s.insert chart i) := by
  obtain ⟨hlogs, hgrouped, hlogApp, hlogDest, hanalysisApp, hanalysisDest⟩ := h
  simp only [SessionLogAnalysisState.insert]
  generalize hnew : ({ s with
      groupedLogs := s.groupedLogs.insert i.log
      logs := s.logs ++ [i.log]
      logByApplication := s.logByApplication.add i.log.packageName
        ((s.logByApplication.get i.log.packageName).getD [] ++ [i.log])
      logByDestination := s.logByDestination.add i.log.destination
        ((s.logByDestination.get i.log.destination).getD [] ++ [i.log])
      analysisByApplication := s.insertByApplication i
      analysisByDestination := s.insertByDestination i.log } : SessionLogAnalysisState) = new
  have hbuilt : Built (ins ++ [i]) new := by
    subst hnew
    constructor
    · simp [hlogs]
    · simp [hgrouped, TrafficLogGroups.ofLogs]
    · rw [OrderedMap.collect_snoc, ← hlogApp]
      exact OrderedMap.add_getD (f := fun l => l ++ [i.log])
    · rw [OrderedMap.collect_snoc, ← hlogDest]
      exact OrderedMap.add_getD (f := fun l => l ++ [i.log])
    · rw [OrderedMap.collect_snoc, ← hanalysisApp]
      exact OrderedMap.add_getD
    · rw [OrderedMap.collect_snoc, ← hanalysisDest]
      exact OrderedMap.add_getD
  split
  · exact ⟨hbuilt.logs, hbuilt.groupedLogs, hbuilt.logByApplication, hbuilt.logByDestination,
      hbuilt.analysisByApplication, hbuilt.analysisByDestination⟩
  · exact hbuilt

theorem built_run (events : List Event) : ∃ ins, Built ins (.run events) := by
  refine Run.invariant (P := fun s => ∃ ins, Built ins s) ?_ events ⟨[], built_initial⟩
  rintro s e ⟨ins, h⟩
  cases e with
  | insert chart i => exact ⟨ins ++ [i], h.insert chart i⟩
  | clear => exact ⟨[], built_initial⟩

end Built

section Largest

theorem max?_congr {l l' : List Int} (h : ∀ b, (∀ x ∈ l, x ≤ b) ↔ ∀ x ∈ l', x ≤ b) :
    l.max? = l'.max? := by
  cases hmax : l.max? with
  | none =>
    rw [List.max?_eq_none_iff] at hmax
    subst hmax
    cases l' with
    | nil => rfl
    | cons x rest =>
      have hx := (h (x - 1)).mp (by simp) x List.mem_cons_self
      omega
  | some m =>
    obtain ⟨hm, hbound⟩ := List.max?_eq_some_iff.mp hmax
    have hbound' := (h m).mp hbound
    symm
    rw [List.max?_eq_some_iff]
    refine ⟨?_, hbound'⟩
    by_contra hnot
    -- then `m - 1` bounds the second list, but not the first
    have hless := (h (m - 1)).mpr fun x hx => by
      have hle := hbound' x hx
      have hne : x ≠ m := fun heq => hnot (heq ▸ hx)
      omega
    have hself := hless m hm
    omega

theorem max?_map_max {α : Type*} (f : α → Int) (l : List α) :
    (l.map fun a => max 0 (f a)).max? = (l.map f).max?.map (max 0) := by
  cases hmax : (l.map f).max? with
  | none =>
    rw [List.max?_eq_none_iff, List.map_eq_nil_iff] at hmax
    simp [hmax]
  | some m =>
    obtain ⟨hm, hbound⟩ := List.max?_eq_some_iff.mp hmax
    obtain ⟨a, ha, rfl⟩ := List.mem_map.mp hm
    rw [Option.map_some, List.max?_eq_some_iff]
    refine ⟨List.mem_map.mpr ⟨a, ha, rfl⟩, ?_⟩
    intro x hx
    obtain ⟨a', ha', rfl⟩ := List.mem_map.mp hx
    exact max_le_max_left 0 (hbound _ (List.mem_map_of_mem ha'))

end Largest

section Aggregated
variable {κ ν : Type} [DecidableEq κ] {key : Insertion → κ} {init : Insertion → ν}
  {op : Insertion → ν → ν} {a : TrafficLogAggregation} {log : TrafficLog}

theorem counts_add : (a.add log).counts = a.counts + log.counts := by
  cases hallowed : log.allowed with
  | true =>
    simp only [TrafficLogAggregation.counts, TrafficLogAggregation.add,
      Statistics.TrafficLog.counts, hallowed]
    apply Counts.ext <;> first | rfl | exact (Int.add_zero _).symm
  | false =>
    simp only [TrafficLogAggregation.counts, TrafficLogAggregation.add,
      Statistics.TrafficLog.counts, hallowed]
    apply Counts.ext <;> first | rfl | exact (Int.add_zero _).symm

theorem latest_le_add {b : Int} : (a.add log).latest ≤ b ↔ a.latest ≤ b ∧ log.time ≤ b := by
  simp only [TrafficLogAggregation.add]
  split <;> omega

theorem le_latest_add : a.latest ≤ (a.add log).latest := by
  simp only [TrafficLogAggregation.add]
  split <;> omega

variable (agg : ν → TrafficLogAggregation) (hinit : ∀ i, agg (init i) = .initial)
  (hop : ∀ i v, agg (op i v) = (agg v).add i.log)
include hinit hop

theorem counts_collect (ins : List Insertion) :
    ((OrderedMap.collect key init op ins).values.map fun v => (agg v).counts).sum =
      (ins.map fun i => i.log.counts).sum := by
  apply OrderedMap.sum_collect
  · intro i
    rw [hinit]
    rfl
  · intro i v
    rw [hop, counts_add]

theorem latest_collect (ins : List Insertion) :
    ((OrderedMap.collect key init op ins).values.map fun v => (agg v).latest).max? =
      (ins.map fun i => max 0 i.log.time).max? := by
  apply max?_congr
  intro b
  have hnonneg : ∀ v ∈ (OrderedMap.collect key init op ins).values, 0 ≤ (agg v).latest := by
    apply OrderedMap.collect_invariant
    · intro i
      rw [hop, hinit]
      exact le_latest_add (a := .initial)
    · intro i v hv
      rw [hop]
      exact hv.trans le_latest_add
  have hbound : (∀ v ∈ (OrderedMap.collect key init op ins).values, 0 ≤ b ∧ (agg v).latest ≤ b) ↔
      ∀ i ∈ ins, 0 ≤ b ∧ i.log.time ≤ b := by
    apply OrderedMap.forall_collect
    · intro i
      rw [hop, hinit, latest_le_add]
      simp only [TrafficLogAggregation.initial]
      tauto
    · intro i v
      rw [hop, latest_le_add]
      tauto
  simp only [List.forall_mem_map, max_le_iff, ← hbound]
  constructor
  · intro h v hv
    exact ⟨(hnonneg v hv).trans (h v hv), h v hv⟩
  · intro h v hv
    exact (h v hv).2

end Aggregated

/-- What the analysis of a session keeps of its logs. -/
structure Conserved (s : SessionLogAnalysisState) : Prop where
  applications : (s.analysisByApplication.values.map fun a => a.counts).sum =
    (s.logs.map fun log => log.counts).sum
  destinations : (s.analysisByDestination.values.map fun a => a.counts).sum =
    (s.logs.map fun log => log.counts).sum
  groupCount : ((s.groupedLogs.list []).map TrafficLogGroup.count).sum = s.logs.length
  groupSize : ((s.groupedLogs.list []).map TrafficLogGroup.size).sum =
    (s.logs.map fun log => log.size).sum
  latestGroup : ((s.groupedLogs.list []).map TrafficLogGroup.latest).max? =
    (s.logs.map TrafficLog.time).max?
  latestApplication : (s.analysisByApplication.values.map fun a => a.latest).max? =
    (s.logs.map TrafficLog.time).max?.map (max 0)
  latestDestination : (s.analysisByDestination.values.map fun a => a.latest).max? =
    (s.logs.map TrafficLog.time).max?.map (max 0)

theorem Built.conserved {ins : List Insertion} {s : SessionLogAnalysisState} (h : Built ins s) :
    Conserved s where
  applications := by
    rw [h.analysisByApplication, h.logs, List.map_map]
    exact counts_collect TrafficLogByApplication.toTrafficLogAggregation (fun _ => rfl)
      (fun _ _ => rfl) ins
  destinations := by
    rw [h.analysisByDestination, h.logs, List.map_map]
    exact counts_collect TrafficLogByDestination.toTrafficLogAggregation (fun _ => rfl)
      (fun _ _ => rfl) ins
  groupCount := by
    rw [h.groupedLogs, ((TrafficLogGroups.list_perm _ _).map _).sum_eq, ← h.logs,
      TrafficLogGroups.sum_ofLogs (c := fun _ => 1) (fun _ => rfl) count_add]
    simp
  groupSize := by
    rw [h.groupedLogs, ((TrafficLogGroups.list_perm _ _).map _).sum_eq, ← h.logs]
    exact TrafficLogGroups.sum_ofLogs (fun _ => rfl) size_add _
  latestGroup := by
    apply max?_congr
    intro b
    rw [h.groupedLogs, ← h.logs]
    simp only [List.forall_mem_map, (TrafficLogGroups.list_perm _ _).mem_iff]
    apply TrafficLogGroups.forall_ofLogs
    · intro log
      rw [latest_add]
      simp [TrafficLogGroup.fromLog]
    · intro log g
      rw [latest_add, max_le_iff]
  latestApplication := by
    rw [h.analysisByApplication, h.logs, List.map_map]
    exact (latest_collect TrafficLogByApplication.toTrafficLogAggregation (fun _ => rfl)
      (fun _ _ => rfl) ins).trans (max?_map_max _ _)
  latestDestination := by
    rw [h.analysisByDestination, h.logs, List.map_map]
    exact (latest_collect TrafficLogByDestination.toTrafficLogAggregation (fun _ => rfl)
      (fun _ _ => rfl) ins).trans (max?_map_max _ _)

/-- Whatever is inserted and cleared, no log and no byte is lost or counted twice. -/
theorem run_conserved (events : List Event) : Conserved (.run events) := by
  obtain ⟨ins, h⟩ := built_run events
  exact h.conserved

section Sample

def Chart.plain : Chart := ⟨[], id, id, fun _ => .refl _, fun _ => .refl _⟩

def TrafficLog.sample (time dport : Int) (allowed : Bool) : TrafficLog where
  packageName := some "app".toList
  ip := "1.1.1.1".toList
  host := none
  size := 60
  allowed := allowed
  time := time
  protocol := 6
  dport := dport
  outgoing := true

def Insertion.sample (time dport : Int) (allowed : Bool) : Insertion :=
  ⟨.sample time dport allowed, fun _ => none⟩

/-- The sums start at time 0, also for a log from before it. -/
theorem not_latest_conserved :
    ((SessionLogAnalysisState.run [.insert .plain (.sample (-1) 80 true)]).logs.map
        TrafficLog.time).max? = some (-1) ∧
      ((SessionLogAnalysisState.run [.insert .plain (.sample (-1) 80 true)]
        ).analysisByApplication.values.map fun a => a.latest).max? = some 0 := by
  decide

end Sample

end NetGuard.Analysis
