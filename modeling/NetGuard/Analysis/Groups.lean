import Mathlib.Algebra.Group.Prod
import NetGuard.Library.OrderedMap
import NetGuard.Statistics.Traffic
import Mathlib.Algebra.Ring.Int.Defs

/-! # Grouped logs

A session's logs are counted in groups, found by package, destination and protocol in
three nested maps. The first log of a group gives the group its attributes.
-/
namespace NetGuard.Analysis
open Service (Text)

structure TrafficLog extends Statistics.TrafficLog where
  time : Int
  protocol : Int
  dport : Int
  outgoing : Bool
  deriving DecidableEq, Repr

def TrafficLog.destination (log : TrafficLog) : Text := log.host.getD log.ip

/-- Where a log or a group is found. -/
structure GroupKey where
  packageName : Option Text
  destination : Text
  protocol : Int
  deriving DecidableEq, Repr

def TrafficLog.key (log : TrafficLog) : GroupKey := ⟨log.packageName, log.destination, log.protocol⟩

/-- Packets in and out, bytes in and out. -/
abbrev Volume := (Int × Int) × (Int × Int)

def TrafficLog.volume (log : TrafficLog) : Volume :=
  if log.outgoing then ((0, 1), (0, log.size)) else ((1, 0), (log.size, 0))

structure TrafficLogGroup where
  packageName : Option Text
  protocol : Int
  dport : Int
  destination : Text
  allowed : Bool
  latest : Int
  countIn : Int
  countOut : Int
  sizeIn : Int
  sizeOut : Int
  deriving DecidableEq, Repr

namespace TrafficLogGroup

def fromLog (log : TrafficLog) : TrafficLogGroup where
  packageName := log.packageName
  protocol := log.protocol
  dport := log.dport
  destination := log.destination
  allowed := log.allowed
  latest := log.time
  countIn := 0
  countOut := 0
  sizeIn := 0
  sizeOut := 0

variable (g : TrafficLogGroup)

def count : Int := g.countIn + g.countOut

def size : Int := g.sizeIn + g.sizeOut

def key : GroupKey := ⟨g.packageName, g.destination, g.protocol⟩

def volume : Volume := ((g.countIn, g.countOut), (g.sizeIn, g.sizeOut))

def add (log : TrafficLog) (g : TrafficLogGroup) : TrafficLogGroup :=
  let latest := if log.time > g.latest then log.time else g.latest
  if log.outgoing then
    { g with countOut := g.countOut + 1, sizeOut := g.sizeOut + log.size, latest := latest }
  else { g with countIn := g.countIn + 1, sizeIn := g.sizeIn + log.size, latest := latest }

end TrafficLogGroup

abbrev TrafficLogGroups := OrderedMap (Option Text) (OrderedMap Text (OrderedMap Int TrafficLogGroup))

namespace TrafficLogGroups

def insert (groups : TrafficLogGroups) (event : TrafficLog) : TrafficLogGroups :=
  groups.upsert event.packageName .empty fun byDest =>
    byDest.upsert event.destination .empty fun byProtocol =>
      byProtocol.upsert event.protocol (.fromLog event) (.add event)

def addByPackage (byPackage : OrderedMap Text (OrderedMap Int TrafficLogGroup)) :
    List TrafficLogGroup := byPackage.values.flatMap OrderedMap.values

def listed (groups : TrafficLogGroups) (packageNames : List (Option Text)) :
    List TrafficLogGroup :=
  if packageNames.isEmpty then groups.values.flatMap addByPackage
  else packageNames.flatMap fun packageName =>
    ((groups.get packageName).map addByPackage).getD []

/-- The latest first. The order of equal ones is the sort's own. -/
def list (groups : TrafficLogGroups) (packageNames : List (Option Text)) : List TrafficLogGroup :=
  (groups.listed packageNames).mergeSort fun a b => b.latest ≤ a.latest

def find (groups : TrafficLogGroups) (k : GroupKey) : Option TrafficLogGroup :=
  (groups.get k.packageName).bind fun byDest =>
    (byDest.get k.destination).bind fun byProtocol => byProtocol.get k.protocol

def ofLogs (logs : List TrafficLog) : TrafficLogGroups := logs.foldl insert .empty

end TrafficLogGroups

section Group
variable {log : TrafficLog} {g : TrafficLogGroup}

theorem volume_add : (g.add log).volume = g.volume + log.volume := by
  simp only [TrafficLogGroup.add, TrafficLog.volume]
  split
  · simp [TrafficLogGroup.volume]
  · simp [TrafficLogGroup.volume]

theorem count_add (log : TrafficLog) (g : TrafficLogGroup) : (g.add log).count = g.count + 1 := by
  simp only [TrafficLogGroup.add, TrafficLogGroup.count]
  split
  · exact (Int.add_assoc _ _ _).symm
  · exact Int.add_right_comm _ _ _

theorem size_add (log : TrafficLog) (g : TrafficLogGroup) :
    (g.add log).size = g.size + log.size := by
  simp only [TrafficLogGroup.add, TrafficLogGroup.size]
  split
  · exact (Int.add_assoc _ _ _).symm
  · exact Int.add_right_comm _ _ _

/-- What a group never changes. -/
def TrafficLogGroup.attributes (g : TrafficLogGroup) : GroupKey × Int × Bool :=
  (g.key, g.dport, g.allowed)

def TrafficLog.attributes (log : TrafficLog) : GroupKey × Int × Bool :=
  (log.key, log.dport, log.allowed)

theorem attributes_add : (g.add log).attributes = g.attributes := by
  simp only [TrafficLogGroup.add]
  split
  · rfl
  · rfl

theorem latest_add : (g.add log).latest = max g.latest log.time := by
  have hmax : (if log.time > g.latest then log.time else g.latest) = max g.latest log.time := by
    rw [max_def]
    split <;> split <;> omega
  simp only [TrafficLogGroup.add, hmax]
  split
  · rfl
  · rfl

theorem gather_fromLog {logs : List TrafficLog}
    (h : OrderedMap.gather .fromLog TrafficLogGroup.add logs = some g) :
    g.volume = (logs.map TrafficLog.volume).sum ∧
      ∃ first rest, logs = first :: rest ∧ g.attributes = first.attributes := by
  cases logs with
  | nil => exact absurd h nofun
  | cons first rest =>
    have hfold : ∀ (logs : List TrafficLog) (g : TrafficLogGroup),
        (logs.foldl (fun g log => g.add log) g).volume =
            g.volume + (logs.map TrafficLog.volume).sum ∧
          (logs.foldl (fun g log => g.add log) g).attributes = g.attributes := by
      intro logs
      induction logs with
      | nil => simp
      | cons log logs ih =>
        intro g
        obtain ⟨hvolume, hattributes⟩ := ih (g.add log)
        rw [List.foldl_cons, hvolume, hattributes, volume_add, attributes_add, List.map_cons,
          List.sum_cons, add_assoc]
        exact ⟨rfl, rfl⟩
    obtain ⟨hvolume, hattributes⟩ := hfold (first :: rest) (.fromLog first)
    obtain rfl := Option.some.inj h
    have hzero : (TrafficLogGroup.fromLog first).volume = 0 := rfl
    rw [hzero, zero_add] at hvolume
    exact ⟨hvolume, first, rest, rfl, hattributes⟩

end Group

namespace TrafficLogGroups
variable {groups : TrafficLogGroups} {log : TrafficLog} {g : TrafficLogGroup} {k : GroupKey}
  {logs : List TrafficLog}

theorem get_getD_empty {κ ν : Type} [DecidableEq κ] (m : Option (OrderedMap κ ν)) (k : κ) :
    (m.getD .empty).get k = m.bind fun m => m.get k := by
  cases m with
  | none => rfl
  | some m => rfl

theorem find_insert : (groups.insert log).find k =
    if k = log.key then some (((groups.find k).getD (.fromLog log)).add log)
    else groups.find k := by
  obtain ⟨packageName, destination, protocol⟩ := k
  simp only [find, insert, OrderedMap.get_upsert]
  by_cases hpackage : packageName = log.packageName
  · subst hpackage
    rw [if_pos rfl, Option.bind_some, OrderedMap.get_upsert]
    by_cases hdest : destination = log.destination
    · subst hdest
      rw [if_pos rfl, Option.bind_some, OrderedMap.get_upsert, get_getD_empty, get_getD_empty,
        get_getD_empty]
      by_cases hprotocol : protocol = log.protocol
      · subst hprotocol
        rw [if_pos rfl, Option.bind_assoc]
        exact (if_pos rfl).symm
      · rw [if_neg hprotocol, Option.bind_assoc,
          if_neg fun h => hprotocol (congrArg GroupKey.protocol h)]
    · rw [if_neg hdest, get_getD_empty, Option.bind_assoc,
        if_neg fun h => hdest (congrArg GroupKey.destination h)]
  · rw [if_neg hpackage, if_neg fun h => hpackage (congrArg GroupKey.packageName h)]

theorem find_ofLogs (logs : List TrafficLog) (k : GroupKey) : (ofLogs logs).find k =
    OrderedMap.gather .fromLog TrafficLogGroup.add (logs.filter fun log => log.key = k) := by
  induction logs using List.reverseRecOn with
  | nil => rfl
  | append_singleton logs log ih =>
    rw [ofLogs, List.foldl_append, ← ofLogs, List.foldl_cons, List.foldl_nil, find_insert, ih,
      List.filter_append]
    by_cases hk : log.key = k
    · subst hk
      simp [OrderedMap.gather_snoc]
    · have hk' : ¬ k = log.key := fun h => hk h.symm
      simp [hk, hk']

theorem mem_addByPackage {byDest : OrderedMap Text (OrderedMap Int TrafficLogGroup)} :
    g ∈ addByPackage byDest ↔ ∃ destination protocol,
      ((byDest.get destination).bind fun byProtocol => byProtocol.get protocol) = some g := by
  simp only [addByPackage, List.mem_flatMap, OrderedMap.mem_values_iff, Option.bind_eq_some_iff]
  constructor
  · rintro ⟨byProtocol, ⟨destination, hdest⟩, protocol, hg⟩
    exact ⟨destination, protocol, byProtocol, hdest, hg⟩
  · rintro ⟨destination, protocol, byProtocol, hdest, hg⟩
    exact ⟨byProtocol, ⟨destination, hdest⟩, protocol, hg⟩

theorem mem_listed : g ∈ groups.listed [] ↔ ∃ k, groups.find k = some g := by
  simp only [listed, List.isEmpty_nil, if_true, List.mem_flatMap, OrderedMap.mem_values_iff,
    mem_addByPackage]
  constructor
  · rintro ⟨byDest, ⟨packageName, hpackage⟩, destination, protocol, hg⟩
    exact ⟨⟨packageName, destination, protocol⟩, by rw [find, hpackage, Option.bind_some, hg]⟩
  · rintro ⟨k, hg⟩
    obtain ⟨byDest, hpackage, hg⟩ := Option.bind_eq_some_iff.mp hg
    exact ⟨byDest, ⟨k.packageName, hpackage⟩, k.destination, k.protocol, hg⟩

/-- Every group stands under its own key. -/
def Keyed (groups : TrafficLogGroups) : Prop := ∀ k g, groups.find k = some g → g.key = k

theorem keyed_ofLogs (logs : List TrafficLog) : Keyed (ofLogs logs) := by
  intro k g hfind
  rw [find_ofLogs] at hfind
  obtain ⟨-, first, rest, hlogs, hattributes⟩ := gather_fromLog hfind
  have hfirst : first ∈ logs.filter fun log => log.key = k := by simp [hlogs]
  have hkey : first.key = k := by simpa using (List.mem_filter.mp hfirst).2
  exact (congrArg Prod.fst hattributes).trans hkey

section Nested
variable {M : Type*} [AddCommMonoid M] {μ : TrafficLogGroup → M} {c : TrafficLog → M}
  {P : TrafficLogGroup → Prop} {Q : TrafficLog → Prop}

theorem sum_flatMap {α β : Type*} (f : α → List β) (μ : β → M) (l : List α) :
    ((l.flatMap f).map μ).sum = (l.map fun a => ((f a).map μ).sum).sum := by
  induction l with
  | nil => rfl
  | cons a l ih => rw [List.flatMap_cons, List.map_append, List.sum_append, ih, List.map_cons,
      List.sum_cons]

theorem sum_insert (hinit : ∀ log, μ (.fromLog log) = 0)
    (hadd : ∀ log g, μ (g.add log) = μ g + c log) (groups : TrafficLogGroups) (log : TrafficLog) :
    (((groups.insert log).listed []).map μ).sum = ((groups.listed []).map μ).sum + c log := by
  have hprotocol (m : OrderedMap Int TrafficLogGroup) :
      ((m.upsert log.protocol (.fromLog log) (.add log)).values.map μ).sum =
        (m.values.map μ).sum + c log :=
    OrderedMap.sum_upsert (by rw [hadd, hinit, zero_add]) (hadd log)
  have hdest (m : OrderedMap Text (OrderedMap Int TrafficLogGroup)) :
      ((addByPackage (m.upsert log.destination .empty fun byProtocol =>
        byProtocol.upsert log.protocol (.fromLog log) (.add log))).map μ).sum =
        ((addByPackage m).map μ).sum + c log := by
    rw [addByPackage, addByPackage, sum_flatMap, sum_flatMap]
    exact OrderedMap.sum_upsert (by rw [hprotocol]; exact zero_add _) hprotocol
  simp only [listed, List.isEmpty_nil, if_true, sum_flatMap addByPackage]
  exact OrderedMap.sum_upsert (by rw [hdest]; exact zero_add _) hdest

theorem sum_ofLogs (hinit : ∀ log, μ (.fromLog log) = 0)
    (hadd : ∀ log g, μ (g.add log) = μ g + c log) (logs : List TrafficLog) :
    (((ofLogs logs).listed []).map μ).sum = (logs.map c).sum := by
  induction logs using List.reverseRecOn with
  | nil => rfl
  | append_singleton logs log ih =>
    rw [ofLogs, List.foldl_append, ← ofLogs, List.foldl_cons, List.foldl_nil,
      sum_insert hinit hadd, ih, List.map_append, List.sum_append, List.map_singleton,
      List.sum_singleton]

theorem forall_insert (hinit : ∀ log, P ((TrafficLogGroup.fromLog log).add log) ↔ Q log)
    (hadd : ∀ log g, P (g.add log) ↔ P g ∧ Q log) (groups : TrafficLogGroups) (log : TrafficLog) :
    (∀ g ∈ (groups.insert log).listed [], P g) ↔ (∀ g ∈ groups.listed [], P g) ∧ Q log := by
  have hprotocol (m : OrderedMap Int TrafficLogGroup) :
      (∀ g ∈ (m.upsert log.protocol (.fromLog log) (.add log)).values, P g) ↔
        (∀ g ∈ m.values, P g) ∧ Q log :=
    OrderedMap.forall_upsert (hinit log) fun g _ => hadd log g
  have hdest (m : OrderedMap Text (OrderedMap Int TrafficLogGroup)) :
      (∀ g ∈ addByPackage (m.upsert log.destination .empty fun byProtocol =>
        byProtocol.upsert log.protocol (.fromLog log) (.add log)), P g) ↔
        (∀ g ∈ addByPackage m, P g) ∧ Q log := by
    simp only [addByPackage, List.forall_mem_flatMap]
    apply OrderedMap.forall_upsert (P := fun m : OrderedMap Int TrafficLogGroup => ∀ g ∈ m.values, P g)
    · simp [hprotocol]
    · exact fun m _ => hprotocol m
  simp only [listed, List.isEmpty_nil, if_true, List.forall_mem_flatMap]
  apply OrderedMap.forall_upsert (P := fun m => ∀ g ∈ addByPackage m, P g)
  · rw [hdest]
    simp [addByPackage]
  · exact fun m _ => hdest m

theorem forall_ofLogs (hinit : ∀ log, P ((TrafficLogGroup.fromLog log).add log) ↔ Q log)
    (hadd : ∀ log g, P (g.add log) ↔ P g ∧ Q log) (logs : List TrafficLog) :
    (∀ g ∈ (ofLogs logs).listed [], P g) ↔ ∀ log ∈ logs, Q log := by
  induction logs using List.reverseRecOn with
  | nil => simp [ofLogs, listed]
  | append_singleton logs log ih =>
    rw [ofLogs, List.foldl_append, ← ofLogs, List.foldl_cons, List.foldl_nil,
      forall_insert hinit hadd, ih]
    simp only [List.mem_append, List.mem_singleton, or_imp, forall_and, forall_eq]

end Nested

theorem list_perm (groups : TrafficLogGroups) (packageNames : List (Option Text)) :
    (groups.list packageNames).Perm (groups.listed packageNames) := List.mergeSort_perm _ _

section Keyed
variable (hkeyed : Keyed groups)
include hkeyed

theorem Keyed.packageName {e : Option Text × OrderedMap Text (OrderedMap Int TrafficLogGroup)}
    (he : e ∈ groups.entries) (hg : g ∈ addByPackage e.2) : g.packageName = e.1 := by
  obtain ⟨destination, protocol, hg⟩ := mem_addByPackage.mp hg
  have hfind : groups.find ⟨e.1, destination, protocol⟩ = some g := by
    rw [find, OrderedMap.get_eq_some_iff.mpr he, Option.bind_some, hg]
  exact congrArg GroupKey.packageName (hkeyed _ g hfind)

theorem Keyed.nodup : ((groups.listed []).map TrafficLogGroup.key).Nodup := by
  refine OrderedMap.nodup_flatMap_values GroupKey.packageName
    (fun e he g hg => hkeyed.packageName he hg) ?_
  intro e he
  have hkey {e' : Text × OrderedMap Int TrafficLogGroup} {protocol : Int} {g : TrafficLogGroup}
      (he' : e' ∈ e.2.entries) (hg : e'.2.get protocol = some g) :
      g.key = ⟨e.1, e'.1, protocol⟩ := by
    apply hkeyed
    rw [find, OrderedMap.get_eq_some_iff.mpr he, Option.bind_some,
      OrderedMap.get_eq_some_iff.mpr he', Option.bind_some, hg]
  refine OrderedMap.nodup_flatMap_values GroupKey.destination ?_ ?_
  · intro e' he' g hg
    obtain ⟨protocol, hg⟩ := OrderedMap.mem_values_iff.mp hg
    rw [hkey he' hg]
  · intro e' he'
    have hprotocols : (e'.2.values.map TrafficLogGroup.key).map GroupKey.protocol = e'.2.keys := by
      rw [OrderedMap.values, OrderedMap.keys, List.map_map, List.map_map]
      apply List.map_congr_left
      intro e'' he''
      rw [Function.comp_apply, Function.comp_apply,
        hkey he' (OrderedMap.get_eq_some_iff.mpr he'')]
    have hnodup : e'.2.keys.Nodup := e'.2.nodup
    rw [← hprotocols] at hnodup
    exact hnodup.of_map

theorem Keyed.listed_package (packageName : Option Text) :
    ((groups.get packageName).map addByPackage).getD [] =
      (groups.listed []).filter fun g => g.packageName = packageName := by
  rw [← OrderedMap.flatMap_key, listed, List.isEmpty_nil, if_pos rfl, OrderedMap.values,
    List.flatMap_map, List.filter_flatMap]
  apply List.flatMap_congr
  intro e he
  by_cases hpackage : e.1 = packageName
  · rw [if_pos hpackage]
    symm
    rw [List.filter_eq_self]
    intro g hg
    simpa using (hkeyed.packageName he hg).trans hpackage
  · rw [if_neg hpackage]
    symm
    rw [List.filter_eq_nil_iff]
    intro g hg hsame
    rw [decide_eq_true_eq, hkeyed.packageName he hg] at hsame
    exact hpackage hsame

end Keyed

end TrafficLogGroups

end NetGuard.Analysis
