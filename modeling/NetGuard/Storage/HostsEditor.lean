import NetGuard.Statistics.Traffic
import NetGuard.Storage.Rules

/-! # The dialog that edits the targets of a rule

The dialog offers the targets of the rule and the endpoints that its app was seen to
reach, and selects those that it finds in the rule. What is selected when it is confirmed
replaces the targets of the rule.
-/
namespace NetGuard.Storage
open Database (targetMap)
open Service (Text HostType HostEntry RuleType)
open Statistics (EndpointType)

/-- The state of `RuleCubit`. -/
structure RuleState where
  id : Text
  packageName : Option Text
  name : Option Text
  description : Option Text
  targetVersion : Option Text
  type : RuleType
  active : Bool
  shouldBlockQuic : Bool
  whitelistExclusive : Bool
  hosts : List Text
  ips : List Text

namespace RuleState

def fromRule (r : Rule) : RuleState where
  id := r.id
  packageName := r.packageName
  name := r.name
  description := r.description
  targetVersion := r.targetVersion
  type := r.type
  active := r.active
  shouldBlockQuic := r.shouldBlockQuic
  whitelistExclusive := r.whitelistExclusive
  hosts := r.hosts.keys
  ips := r.ips.keys

def rule (s : RuleState) : Rule where
  id := s.id
  packageName := s.packageName
  name := s.name
  description := s.description
  targetVersion := s.targetVersion
  type := s.type
  active := s.active
  shouldBlockQuic := s.shouldBlockQuic
  whitelistExclusive := s.whitelistExclusive
  hosts := targetMap s.hosts
  ips := targetMap s.ips

def setHosts (hosts : List HostEntry) (s : RuleState) : RuleState :=
  { s with
    hosts := (hosts.filter fun e => e.type = .host).map fun e => e.target
    ips := (hosts.filter fun e => e.type = .ip).map fun e => e.target }

end RuleState

section Sets
variable {set l : List Text} {t : Text}

/-- `addAll` on a set that keeps the order of insertion. -/
def addAll (set l : List Text) : List Text := l.foldl (fun s t => if t ∈ s then s else s ++ [t]) set

theorem mem_addAll : t ∈ addAll set l ↔ t ∈ set ∨ t ∈ l := by
  induction l generalizing set with
  | nil => simp [addAll]
  | cons u l ih =>
    rw [addAll, List.foldl_cons, ← addAll, ih, List.mem_cons]
    split
    next hu =>
      constructor
      · rintro (ht | ht)
        · exact .inl ht
        · exact .inr (.inr ht)
      · rintro (ht | rfl | ht)
        · exact .inl ht
        · exact .inl hu
        · exact .inr ht
    next => rw [List.mem_append, List.mem_singleton, or_assoc]

theorem nodup_addAll (hset : set.Nodup) : (addAll set l).Nodup := by
  induction l generalizing set with
  | nil => exact hset
  | cons u l ih =>
    rw [addAll, List.foldl_cons, ← addAll]
    apply ih
    split
    next => exact hset
    next hu =>
      have hadded := hset.concat hu
      rwa [List.concat_eq_append] at hadded

end Sets

/-- `_getEndpointsForPackage`. -/
def endpoints (rows : Statistics.Rows) (packageName : Option Text) (endpointType : EndpointType) :
    List Text :=
  addAll [] ((rows.filter fun r => r.endpointType = endpointType && r.packageName = packageName).map
    fun r => r.endpoint)

/-- The orders in which observed endpoints are shown. Any order permutes. -/
structure Sorting where
  hostnames : List Text → List Text
  ips : List Text → List Text
  hostnames_perm : ∀ l, (hostnames l).Perm l
  ips_perm : ∀ l, (ips l).Perm l

/-- The state of `HostsEditEntryCubit`. -/
structure HostsEditEntryState where
  entry : HostEntry
  selected : Bool
  deriving DecidableEq, Repr

structure HostsEditDialogState where
  loading : Bool
  rule : Rule
  entries : List HostsEditEntryState
  search : Option Text

namespace HostsEditDialogState

def initial (rule : Rule) : HostsEditDialogState := ⟨true, rule, [], none⟩

/-- `_load`. Whether an entry is selected is read from the hosts of the rule for both kinds,
as in the source. -/
def load (sorting : Sorting) (rows : Statistics.Rows) (s : HostsEditDialogState) :
    HostsEditDialogState :=
  let hosts := addAll s.rule.hosts.keys
    (sorting.hostnames (endpoints rows s.rule.packageName .host))
  let ips := addAll s.rule.ips.keys (sorting.ips (endpoints rows s.rule.packageName .ip))
  { s with
    loading := false
    entries := (hosts.map fun h => ⟨⟨none, h, .host⟩, s.rule.hosts.keys.contains h⟩) ++
      ips.map fun h => ⟨⟨none, h, .ip⟩, s.rule.hosts.keys.contains h⟩ }

/-- What the button returns. -/
def confirm (s : HostsEditDialogState) : List HostEntry :=
  (s.entries.filter HostsEditEntryState.selected).map HostsEditEntryState.entry

end HostsEditDialogState

/-- The dialog opened on a rule and confirmed as it is. -/
def reconfirmed (sorting : Sorting) (rows : Statistics.Rows) (r : Rule) : List HostEntry :=
  ((HostsEditDialogState.initial (RuleState.fromRule r).rule).load sorting rows).confirm

section Reconfirmed
variable {sorting : Sorting} {rows : Statistics.Rows} {r : Rule} {t : Text}

theorem mem_keys_targetMap {targets : List Text} : t ∈ (targetMap targets).keys ↔ t ∈ targets := by
  rw [OrderedMap.mem_keys_iff, get_targetMap]
  by_cases ht : t ∈ targets <;> simp [ht]

theorem mem_endpoints {packageName : Option Text} {endpointType : EndpointType} :
    t ∈ endpoints rows packageName endpointType ↔
      ∃ r ∈ rows, r.toKey = ⟨packageName, t, endpointType⟩ := by
  simp only [endpoints, mem_addAll, List.not_mem_nil, false_or, List.mem_map, List.mem_filter,
    Bool.and_eq_true, decide_eq_true_eq]
  constructor
  · rintro ⟨r, ⟨hr, htype, hpackage⟩, rfl⟩
    exact ⟨r, hr, by rw [← htype, ← hpackage]⟩
  · rintro ⟨r, hr, hkey⟩
    exact ⟨r, ⟨hr, congrArg Statistics.Key.endpointType hkey,
      congrArg Statistics.Key.packageName hkey⟩, congrArg Statistics.Key.endpoint hkey⟩

/-- The entries of one kind that are selected and returned. -/
theorem confirm_load (s : HostsEditDialogState) :
    (s.load sorting rows).confirm =
      ((addAll s.rule.hosts.keys (sorting.hostnames (endpoints rows s.rule.packageName .host))).filter
        fun h => s.rule.hosts.keys.contains h).map (fun h => ⟨none, h, .host⟩) ++
      ((addAll s.rule.ips.keys (sorting.ips (endpoints rows s.rule.packageName .ip))).filter
        fun h => s.rule.hosts.keys.contains h).map fun h => ⟨none, h, .ip⟩ := by
  simp only [HostsEditDialogState.confirm, HostsEditDialogState.load, List.filter_append,
    List.map_append, List.filter_map, List.map_map]
  rfl

/-- The targets of a kind that are selected: those that the rule has as hosts. -/
def selected (r : Rule) (m : OrderedMap Text Bool) (observed : List Text) : List Text :=
  (addAll (targetMap m.keys).keys observed).filter
    fun h => (RuleState.fromRule r).rule.hosts.keys.contains h

theorem setHosts_reconfirmed (sorting : Sorting) (rows : Statistics.Rows) (r : Rule) :
    ((RuleState.fromRule r).setHosts (reconfirmed sorting rows r)).hosts =
        selected r r.hosts (sorting.hostnames (endpoints rows r.packageName .host)) ∧
      ((RuleState.fromRule r).setHosts (reconfirmed sorting rows r)).ips =
        selected r r.ips (sorting.ips (endpoints rows r.packageName .ip)) := by
  rw [RuleState.setHosts, reconfirmed, confirm_load]
  constructor <;> simp [selected, HostsEditDialogState.initial, RuleState.fromRule, RuleState.rule,
    List.filter_map, Function.comp_def]

theorem mem_selected {m : OrderedMap Text Bool} {observed : List Text} :
    t ∈ selected r m observed ↔ (t ∈ m.keys ∨ t ∈ observed) ∧ t ∈ r.hosts.keys := by
  have hhosts : t ∈ (RuleState.fromRule r).rule.hosts.keys ↔ t ∈ r.hosts.keys :=
    mem_keys_targetMap
  rw [selected, List.mem_filter, List.contains_iff_mem, hhosts, mem_addAll, mem_keys_targetMap]

/-- What is selected of a kind is what the rule has of it. -/
theorem selected_perm_iff {m : OrderedMap Text Bool} {observed : List Text} :
    (selected r m observed).Perm m.keys ↔
      (∀ t ∈ m.keys, t ∈ r.hosts.keys) ∧ ∀ t ∈ r.hosts.keys, t ∈ observed → t ∈ m.keys := by
  have hnodup : (selected r m observed).Nodup := (nodup_addAll (targetMap m.keys).nodup).filter _
  have hkeys : m.keys.Nodup := m.nodup
  rw [List.perm_ext_iff_of_nodup hnodup hkeys]
  simp only [mem_selected]
  constructor
  · intro hsame
    refine ⟨fun t ht => ((hsame t).mpr ht).2, ?_⟩
    intro t hhost hseen
    exact (hsame t).mp ⟨.inr hseen, hhost⟩
  · rintro ⟨hkept, hseen⟩ t
    constructor
    · rintro ⟨ht | ht, hhost⟩
      · exact ht
      · exact hseen t hhost ht
    · intro ht
      exact ⟨.inl ht, hkept t ht⟩

theorem hosts_reconfirmed (sorting : Sorting) (rows : Statistics.Rows) (r : Rule) :
    ((RuleState.fromRule r).setHosts (reconfirmed sorting rows r)).hosts.Perm r.hosts.keys := by
  rw [(setHosts_reconfirmed sorting rows r).1, selected_perm_iff]
  exact ⟨fun _ h => h, fun _ h _ => h⟩

theorem ips_reconfirmed_iff (sorting : Sorting) (rows : Statistics.Rows) (r : Rule) :
    ((RuleState.fromRule r).setHosts (reconfirmed sorting rows r)).ips.Perm r.ips.keys ↔
      (∀ t ∈ r.ips.keys, t ∈ r.hosts.keys) ∧
        ∀ t ∈ r.hosts.keys, (∃ row ∈ rows, row.toKey = ⟨r.packageName, t, .ip⟩) →
          t ∈ r.ips.keys := by
  have hobserved (t : Text) : t ∈ sorting.ips (endpoints rows r.packageName .ip) ↔
      ∃ row ∈ rows, row.toKey = ⟨r.packageName, t, .ip⟩ := by
    rw [(sorting.ips_perm _).mem_iff, mem_endpoints]
  rw [(setHosts_reconfirmed sorting rows r).2, selected_perm_iff]
  simp only [hobserved]

/-- Targets that are those of a rule, written in its place, leave the table as it was. -/
theorem updateHosts_same {db : Database} {hosts : List HostEntry}
    (hrows : (db.hostsTable.filter fun h => h.ruleId = some r.id).Perm r.hostCompanions)
    (hsame : (hosts.map fun h => { h with ruleId := some r.id }).Perm r.hostCompanions) :
    ∃ db', db.updateHosts (fun _ => false) r.id hosts = .ok db' ∧ db'.rulesTable = db.rulesTable ∧
      db'.hostsTable.Perm db.hostsTable := by
  have hinsert := (Update.insertHosts_cleared (.updateHosts r.id hosts) db).mpr
    ⟨rfl, hsame.nodup_iff.mpr (hostCompanions_nodup r)⟩
  have hrun : db.updateHosts (fun _ => false) r.id hosts = .ok ⟨db.rulesTable,
      (db.deleteHosts r.id).hostsTable ++ hosts.map fun h => { h with ruleId := some r.id }⟩ := by
    have hcommit : db.updateHosts (fun _ => false) r.id hosts = Database.commit (fun _ => false) 1 []
        (hosts.map fun h => { h with ruleId := some r.id }) (db.deleteHosts r.id) := rfl
    have hbatch : (db.deleteHosts r.id).batch [] (hosts.map fun h => { h with ruleId := some r.id }) =
        some ⟨db.rulesTable, (db.deleteHosts r.id).hostsTable ++
          hosts.map fun h => { h with ruleId := some r.id }⟩ := by
      rw [Database.batch]
      exact congrArg (Option.map _) hinsert
    rw [hcommit, Database.commit, if_neg Bool.false_ne_true, hbatch]
  refine ⟨_, hrun, rfl, ?_⟩
  have hsplit := List.filter_append_perm (fun h : HostEntry => !decide (h.ruleId = some r.id))
    db.hostsTable
  simp only [Bool.not_not] at hsplit
  refine List.Perm.trans ?_ hsplit
  have hcleared : (db.deleteHosts r.id).hostsTable =
      db.hostsTable.filter fun h => !decide (h.ruleId = some r.id) := by
    simp [Database.deleteHosts]
  rw [hcleared]
  exact (hsame.trans hrows.symm).append_left _

/-- A rule confirmed in the dialog as it was opened. -/
structure Reconfirms (sorting : Sorting) (rows : Statistics.Rows) (r : Rule) : Prop where
  hosts : ((RuleState.fromRule r).setHosts (reconfirmed sorting rows r)).hosts.Perm r.hosts.keys
  ips : ((RuleState.fromRule r).setHosts (reconfirmed sorting rows r)).ips.Perm r.ips.keys
  stored : ∀ db : Database,
    (db.hostsTable.filter fun h => h.ruleId = some r.id).Perm r.hostCompanions →
      ∃ db', db.updateHosts (fun _ => false) r.id (reconfirmed sorting rows r) = .ok db' ∧
        db'.rulesTable = db.rulesTable ∧ db'.hostsTable.Perm db.hostsTable

theorem companions_reconfirmed
    (hosts : ((RuleState.fromRule r).setHosts (reconfirmed sorting rows r)).hosts.Perm r.hosts.keys)
    (ips : ((RuleState.fromRule r).setHosts (reconfirmed sorting rows r)).ips.Perm r.ips.keys) :
    ((reconfirmed sorting rows r).map fun h => { h with ruleId := some r.id }).Perm
      r.hostCompanions := by
  have hsplit : ((reconfirmed sorting rows r).map fun h => { h with ruleId := some r.id }) =
      (((RuleState.fromRule r).setHosts (reconfirmed sorting rows r)).hosts.map
        fun host => ⟨some r.id, host, .host⟩) ++
      ((RuleState.fromRule r).setHosts (reconfirmed sorting rows r)).ips.map
        fun ip => ⟨some r.id, ip, .ip⟩ := by
    rw [RuleState.setHosts, reconfirmed, confirm_load]
    simp [List.filter_map, Function.comp_def]
  rw [hsplit, Rule.hostCompanions]
  exact (hosts.map _).append (ips.map _)

/-- Confirming changes nothing exactly if each IP of the rule is also a host of it, and no
host of it that the app was seen to reach as an IP is missing among its IPs. -/
theorem reconfirms_iff (sorting : Sorting) (rows : Statistics.Rows) (r : Rule) :
    Reconfirms sorting rows r ↔ (∀ t ∈ r.ips.keys, t ∈ r.hosts.keys) ∧
      ∀ t ∈ r.hosts.keys, (∃ row ∈ rows, row.toKey = ⟨r.packageName, t, .ip⟩) →
        t ∈ r.ips.keys := by
  rw [← ips_reconfirmed_iff sorting rows r]
  constructor
  · intro h
    exact h.ips
  · intro hips
    have hhosts := hosts_reconfirmed sorting rows r
    refine ⟨hhosts, hips, ?_⟩
    intro db hrows
    exact updateHosts_same hrows (companions_reconfirmed hhosts hips)

end Reconfirmed

def Sorting.plain : Sorting := ⟨id, id, List.Perm.refl, List.Perm.refl⟩

/-- The only IP of a rule is deselected, and its row deleted. -/
theorem not_reconfirms :
    reconfirmed .plain [] { Rule.sample true with ips := .add .empty "6.6.6.6".toList true } =
        [⟨none, "ads.example".toList, .host⟩] ∧
      ¬ Reconfirms .plain [] { Rule.sample true with ips := .add .empty "6.6.6.6".toList true } := by
  refine ⟨by decide, ?_⟩
  intro h
  have hips := h.ips.length_eq
  exact absurd hips (by decide)

end NetGuard.Storage
