import NetGuard.Library.OrderedMap
import NetGuard.Service.Tables

/-! # The rules in the database

A rule is stored in two tables, its own row and one row for each of its targets. An
update deletes the targets rule by rule and then writes everything else in one batch,
which is a transaction.
-/
namespace NetGuard.Storage
open Service (Text HostType HostEntry RuleType)

/-- A row of `rules_table` under its id. -/
structure RuleRow where
  packageName : Text
  targetVersion : Option Text
  name : Option Text
  description : Option Text
  active : Bool
  type : RuleType
  shouldBlockQuic : Bool
  whitelistExclusive : Bool
  deriving DecidableEq, Repr

@[ext] structure Database where
  rulesTable : OrderedMap Text RuleRow
  hostsTable : List HostEntry

structure Rule where
  id : Text
  targetVersion : Option Text
  name : Option Text
  description : Option Text
  active : Bool
  type : RuleType
  shouldBlockQuic : Bool
  whitelistExclusive : Bool
  packageName : Option Text
  hosts : OrderedMap Text Bool
  ips : OrderedMap Text Bool

section Companions

def Rule.companion (r : Rule) : RuleRow where
  packageName :=
    match r.packageName with
    | some packageName => if packageName.isEmpty then [] else packageName
    | none => []
  targetVersion := r.targetVersion
  name := r.name
  description := r.description
  active := r.active
  type := r.type
  shouldBlockQuic := r.shouldBlockQuic
  whitelistExclusive := r.whitelistExclusive

/-- The rows of the targets: the keys of the two maps. -/
def Rule.hostCompanions (r : Rule) : List HostEntry :=
  (r.hosts.keys.map fun host => ⟨some r.id, host, .host⟩) ++
    r.ips.keys.map fun ip => ⟨some r.id, ip, .ip⟩

theorem hostCompanions_ruleId {r : Rule} {c : HostEntry} (hc : c ∈ r.hostCompanions) :
    c.ruleId = some r.id := by
  rcases List.mem_append.mp hc with hc | hc
  · obtain ⟨host, -, rfl⟩ := List.mem_map.mp hc
    rfl
  · obtain ⟨ip, -, rfl⟩ := List.mem_map.mp hc
    rfl

end Companions

namespace Database

/-- The primary key of `hosts_table` is the rule, the type and the target. NULL is
distinct from NULL in it. -/
def Conflicts (entity r : HostEntry) : Prop :=
  entity.ruleId ≠ none ∧ r.ruleId = entity.ruleId ∧ r.type = entity.type ∧
    r.target = entity.target

instance (entity r : HostEntry) : Decidable (Conflicts entity r) :=
  inferInstanceAs (Decidable (_ ∧ _))

def deleteHosts (db : Database) (id : Text) : Database :=
  { db with hostsTable := db.hostsTable.filter fun h => h.ruleId ≠ some id }

def insertHost (hosts : List HostEntry) (h : HostEntry) : Option (List HostEntry) :=
  if hosts.any fun r => Conflicts h r then none else some (hosts ++ [h])

def batch (db : Database) (rules : List (Text × RuleRow)) (companions : List HostEntry) :
    Option Database :=
  (companions.foldlM insertHost db.hostsTable).map fun hosts =>
    ⟨rules.foldl (fun table r => table.add r.1 r.2) db.rulesTable, hosts⟩

/-- A map of `true` for each target. -/
def targetMap (targets : List Text) : OrderedMap Text Bool :=
  targets.foldl (fun m target => m.add target true) .empty

def readRule (db : Database) (r : Text × RuleRow) : Rule :=
  let hosts := db.hostsTable.filter fun h => h.ruleId = some r.1
  { id := r.1
    targetVersion := r.2.targetVersion
    name := r.2.name
    description := r.2.description
    active := r.2.active
    type := r.2.type
    shouldBlockQuic := r.2.shouldBlockQuic
    whitelistExclusive := r.2.whitelistExclusive
    packageName := some r.2.packageName
    hosts := targetMap ((hosts.filter fun h => h.type = .host).map fun h => h.target)
    ips := targetMap ((hosts.filter fun h => h.type = .ip).map fun h => h.target) }

/-- `equalsNullable`: no row has a package that is NULL. -/
def getForPackage (db : Database) (packageName : Option Text) (activeOnly : Bool) : List Rule :=
  (db.rulesTable.entries.filter fun r =>
    some r.2.packageName = packageName && (!activeOnly || r.2.active)).map db.readRule

/-- The deletions of `ids`, of which the first is step `k`. A step that fails leaves the
database as it is then. -/
def clearHosts (fault : Nat → Bool) : Nat → List Text → Database → Except Database Database
  | _, [], db => .ok db
  | k, id :: ids, db => if fault k then .error db else clearHosts fault (k + 1) ids (db.deleteHosts id)

def commit (fault : Nat → Bool) (k : Nat) (rules : List (Text × RuleRow))
    (companions : List HostEntry) (db : Database) : Except Database Database :=
  if fault k then .error db
  else
    match db.batch rules companions with
    | none => .error db
    | some db => .ok db

def insertAll (fault : Nat → Bool) (entries : List Rule) (db : Database) :
    Except Database Database := do
  let db ← clearHosts fault 0 (entries.map Rule.id) db
  commit fault entries.length (entries.map fun r => (r.id, r.companion))
    (entries.flatMap Rule.hostCompanions) db

def updateHosts (fault : Nat → Bool) (id : Text) (hosts : List HostEntry) (db : Database) :
    Except Database Database := do
  let db ← clearHosts fault 0 [id] db
  commit fault 1 [] (hosts.map fun h => { h with ruleId := some id }) db

def deleteAll (ids : List Text) (db : Database) : Database := ids.foldl deleteHosts db

end Database

section Hosts
open Database
variable {db db' : Database} {ids : List Text} {fault : Nat → Bool} {companions : List HostEntry}

theorem deleteAll_eq (ids : List Text) (db : Database) : deleteAll ids db =
    ⟨db.rulesTable, db.hostsTable.filter fun h => ∀ id ∈ ids, h.ruleId ≠ some id⟩ := by
  induction ids generalizing db with
  | nil => simp [deleteAll]
  | cons id ids ih =>
    rw [deleteAll, List.foldl_cons, ← deleteAll, ih]
    simp [deleteHosts, List.filter_filter, Bool.and_comm]

theorem deleteAll_eq_self_iff :
    deleteAll ids db = db ↔ ∀ id ∈ ids, ∀ h ∈ db.hostsTable, h.ruleId ≠ some id := by
  rw [deleteAll_eq, Database.ext_iff, and_iff_right rfl, List.filter_eq_self]
  simp only [decide_eq_true_eq]
  exact ⟨fun h id hid r hr => h r hr id hid, fun h r hr id hid => h id hid r hr⟩

theorem filter_deleteAll {id : Text} (hid : id ∈ ids) :
    ((deleteAll ids db).hostsTable.filter fun h => h.ruleId = some id) = [] := by
  rw [List.filter_eq_nil_iff, deleteAll_eq]
  intro h hh hrule
  rw [List.mem_filter, decide_eq_true_eq] at hh
  exact hh.2 id hid (by simpa using hrule)

theorem clearHosts_spec (fault : Nat → Bool) (k : Nat) (ids : List Text) (db : Database) :
    (∃ n < ids.length, (∀ i < n, fault (k + i) = false) ∧ fault (k + n) = true ∧
        clearHosts fault k ids db = .error (deleteAll (ids.take n) db)) ∨
      ((∀ i < ids.length, fault (k + i) = false) ∧
        clearHosts fault k ids db = .ok (deleteAll ids db)) := by
  induction ids generalizing k db with
  | nil => exact .inr ⟨by simp, rfl⟩
  | cons id ids ih =>
    cases hfault : fault k with
    | true =>
      refine .inl ⟨0, by simp, by simp, hfault, ?_⟩
      simp [clearHosts, hfault, deleteAll]
    | false =>
      have hshift : ∀ n, (∀ i < n, fault (k + 1 + i) = false) → ∀ i < n + 1, fault (k + i) = false := by
        intro n hn i hi
        cases i with
        | zero => exact hfault
        | succ i =>
          rw [Nat.add_comm i, ← Nat.add_assoc]
          exact hn i (by omega)
      have hclear : clearHosts fault k (id :: ids) db =
          clearHosts fault (k + 1) ids (db.deleteHosts id) := by
        simp [clearHosts, hfault]
      rcases ih (k + 1) (db.deleteHosts id) with ⟨n, hn, hbefore, hat, herror⟩ | ⟨hall, hok⟩
      · refine .inl ⟨n + 1, by simpa using hn, hshift n hbefore, ?_, ?_⟩
        · rwa [Nat.add_comm n, ← Nat.add_assoc]
        · rw [hclear, herror]
          rfl
      · refine .inr ⟨hshift _ hall, ?_⟩
        rw [hclear, hok]
        rfl

theorem insertHost_eq_some_iff {hosts hosts' : List HostEntry} {c : HostEntry} :
    insertHost hosts c = some hosts' ↔ hosts' = hosts ++ [c] ∧ ∀ h ∈ hosts, ¬ Conflicts c h := by
  rw [insertHost]
  split
  next hany =>
    obtain ⟨h, hh, hconflict⟩ := List.any_eq_true.mp hany
    exact iff_of_false nofun fun hright => hright.2 h hh (by simpa using hconflict)
  next hnone =>
    have hfree : ∀ h ∈ hosts, ¬ Conflicts c h := by simpa using hnone
    simp only [Option.some.injEq, and_iff_left hfree, eq_comm]

theorem insertHosts_eq_some_iff {hosts hosts' : List HostEntry} :
    companions.foldlM insertHost hosts = some hosts' ↔
      hosts' = hosts ++ companions ∧ (∀ c ∈ companions, ∀ h ∈ hosts, ¬ Conflicts c h) ∧
        companions.Pairwise fun c c' => ¬ Conflicts c' c := by
  induction companions generalizing hosts with
  | nil => simp [eq_comm]
  | cons c companions ih =>
    simp only [List.foldlM_cons, Option.bind_eq_bind, Option.bind_eq_some_iff, insertHost_eq_some_iff,
      ih, List.pairwise_cons, List.forall_mem_cons]
    constructor
    · rintro ⟨_, ⟨rfl, hc⟩, hresult, hfree, hpairs⟩
      refine ⟨by simpa using hresult, ⟨hc, ?_⟩, ?_, hpairs⟩
      · intro c' hc' h hh
        exact hfree c' hc' h (List.mem_append_left _ hh)
      · intro c' hc'
        exact hfree c' hc' c (by simp)
    · rintro ⟨hresult, ⟨hc, hfree⟩, hself, hpairs⟩
      refine ⟨_, ⟨rfl, hc⟩, by simpa using hresult, ?_, hpairs⟩
      intro c' hc' h hh
      rcases List.mem_append.mp hh with hh | hh
      · exact hfree c' hc' h hh
      · rw [List.mem_singleton.mp hh]
        exact hself c' hc'

theorem companions_pairwise_iff (hrule : ∀ c ∈ companions, c.ruleId ≠ none) :
    companions.Pairwise (fun c c' => ¬ Conflicts c' c) ↔ companions.Nodup := by
  rw [List.Nodup]
  apply List.Pairwise.iff_of_mem
  intro c c' hc hc'
  rw [not_iff_not]
  constructor
  · rintro ⟨-, hrule, htype, htarget⟩
    obtain ⟨ruleId, target, type⟩ := c
    obtain ⟨ruleId', target', type'⟩ := c'
    obtain rfl : ruleId = ruleId' := hrule
    obtain rfl : type = type' := htype
    obtain rfl : target = target' := htarget
    rfl
  · rintro rfl
    exact ⟨hrule c hc, rfl, rfl, rfl⟩

end Hosts

section Updates
open Database

/-- The two updates of targets. -/
inductive Update
  | insertAll (entries : List Rule)
  | updateHosts (id : Text) (hosts : List HostEntry)

namespace Update
variable {db : Database} {fault : Nat → Bool} {u : Update}

def run (u : Update) (fault : Nat → Bool) (db : Database) : Except Database Database :=
  match u with
  | .insertAll entries => db.insertAll fault entries
  | .updateHosts id hosts => db.updateHosts fault id hosts

def ids : Update → List Text
  | .insertAll entries => entries.map Rule.id
  | .updateHosts id _ => [id]

def rules : Update → List (Text × RuleRow)
  | .insertAll entries => entries.map fun r => (r.id, r.companion)
  | .updateHosts _ _ => []

def companions : Update → List HostEntry
  | .insertAll entries => entries.flatMap Rule.hostCompanions
  | .updateHosts id hosts => hosts.map fun h => { h with ruleId := some id }

/-- A failure leaves the tables as they were, and after a success each rule has its new
rows and no others. -/
def Atomic (u : Update) (fault : Nat → Bool) (db : Database) : Prop :=
  match u.run fault db with
  | .error db' => db' = db
  | .ok db' => ∀ id ∈ u.ids, (db'.hostsTable.filter fun h => h.ruleId = some id) =
      u.companions.filter fun h => h.ruleId = some id

/-- The update fails when `n` rules have been cleared: at a step of the database, or
because the batch has a row twice. -/
def StopsAt (u : Update) (fault : Nat → Bool) (n : Nat) : Prop :=
  n ≤ u.ids.length ∧ (∀ i < n, fault i = false) ∧
    (fault n = true ∨ n = u.ids.length ∧ ¬ u.companions.Nodup)

theorem run_eq (u : Update) (fault : Nat → Bool) (db : Database) : u.run fault db =
    clearHosts fault 0 u.ids db >>= commit fault u.ids.length u.rules u.companions := by
  cases u with
  | insertAll entries =>
    simp only [run, Database.insertAll, ids, rules, companions, List.length_map]
  | updateHosts id hosts => rfl

theorem companions_ruleId {c : HostEntry} (hc : c ∈ u.companions) :
    ∃ id ∈ u.ids, c.ruleId = some id := by
  cases u with
  | insertAll entries =>
    obtain ⟨r, hr, hc⟩ := List.mem_flatMap.mp hc
    exact ⟨r.id, List.mem_map_of_mem hr, hostCompanions_ruleId hc⟩
  | updateHosts id hosts =>
    obtain ⟨h, -, rfl⟩ := List.mem_map.mp hc
    exact ⟨id, List.mem_singleton_self id, rfl⟩

/-- After the rules are cleared only the batch itself can be in conflict. -/
theorem insertHosts_cleared (u : Update) (db : Database) {hosts : List HostEntry} :
    u.companions.foldlM insertHost (deleteAll u.ids db).hostsTable = some hosts ↔
      hosts = (deleteAll u.ids db).hostsTable ++ u.companions ∧ u.companions.Nodup := by
  have hrule : ∀ c ∈ u.companions, c.ruleId ≠ none := by
    intro c hc
    obtain ⟨id, -, hid⟩ := companions_ruleId hc
    simp [hid]
  have hfree : ∀ c ∈ u.companions, ∀ h ∈ (deleteAll u.ids db).hostsTable, ¬ Conflicts c h := by
    rintro c hc h hh ⟨-, hsame, -⟩
    obtain ⟨id, hid, hcid⟩ := companions_ruleId hc
    rw [deleteAll_eq, List.mem_filter, decide_eq_true_eq] at hh
    exact hh.2 id hid (hsame.trans hcid)
  rw [insertHosts_eq_some_iff, companions_pairwise_iff hrule, and_iff_right hfree]

/-- How an update ends: at a stop, with the rules before it cleared, or with everything. -/
theorem run_spec (u : Update) (fault : Nat → Bool) (db : Database) :
    (∃ n, u.StopsAt fault n ∧ u.run fault db = .error (deleteAll (u.ids.take n) db)) ∨
      ((∀ n, ¬ u.StopsAt fault n) ∧ ∃ rulesTable, u.run fault db =
        .ok ⟨rulesTable, (deleteAll u.ids db).hostsTable ++ u.companions⟩) := by
  rw [run_eq]
  rcases clearHosts_spec fault 0 u.ids db with ⟨n, hn, hbefore, hat, herror⟩ | ⟨hall, hok⟩
  · simp only [Nat.zero_add] at hbefore hat
    refine .inl ⟨n, ⟨Nat.le_of_lt hn, hbefore, .inl hat⟩, ?_⟩
    rw [herror]
    rfl
  · simp only [Nat.zero_add] at hall
    have hbind : (clearHosts fault 0 u.ids db >>=
        commit fault u.ids.length u.rules u.companions) =
        commit fault u.ids.length u.rules u.companions (deleteAll u.ids db) := by
      rw [hok]
      rfl
    rw [hbind, commit]
    cases hfault : fault u.ids.length with
    | true =>
      refine .inl ⟨u.ids.length, ⟨Nat.le_refl _, hall, .inl hfault⟩, ?_⟩
      rw [if_pos rfl, List.take_length]
    | false =>
      rw [if_neg Bool.false_ne_true, batch]
      cases hinsert : u.companions.foldlM insertHost (deleteAll u.ids db).hostsTable with
      | none =>
        have hrepeat : ¬ u.companions.Nodup := fun hnodup => by
          simp [(insertHosts_cleared u db).mpr ⟨rfl, hnodup⟩] at hinsert
        refine .inl ⟨u.ids.length, ⟨Nat.le_refl _, hall, .inr ⟨rfl, hrepeat⟩⟩, ?_⟩
        rw [List.take_length]
        rfl
      | some hosts =>
        obtain ⟨hhosts, hnodup⟩ := (insertHosts_cleared u db).mp hinsert
        refine .inr ⟨?_, _, by rw [hhosts]; rfl⟩
        rintro n ⟨hle, hbefore, hat | ⟨-, hrepeat⟩⟩
        · rcases Nat.lt_or_eq_of_le hle with hlt | rfl
          · simp [hall n hlt] at hat
          · simp [hfault] at hat
        · exact hrepeat hnodup

theorem StopsAt.unique {n m : Nat} (hn : u.StopsAt fault n) (hm : u.StopsAt fault m) : n = m := by
  have hle {n m : Nat} (hn : u.StopsAt fault n) (hm : u.StopsAt fault m) : m ≤ n := by
    by_contra hlt
    rw [Nat.not_le] at hlt
    have hbefore := hm.2.1 n hlt
    rcases hn.2.2 with hat | ⟨hlast, -⟩
    · simp [hbefore] at hat
    · exact absurd hm.1 (Nat.not_le.mpr (hlast ▸ hlt))
  exact Nat.le_antisymm (hle hm hn) (hle hn hm)

/-- An update is atomic exactly when the rules it has cleared before it fails, if it does,
had no targets. -/
theorem atomic_iff (u : Update) (fault : Nat → Bool) (db : Database) :
    u.Atomic fault db ↔ ∀ n, u.StopsAt fault n →
      ∀ id ∈ u.ids.take n, ∀ h ∈ db.hostsTable, h.ruleId ≠ some id := by
  rcases u.run_spec fault db with ⟨n, hstop, hrun⟩ | ⟨hnever, rulesTable, hrun⟩
  · rw [Atomic, hrun]
    simp only [deleteAll_eq_self_iff]
    constructor
    · intro h m hm
      rwa [← hstop.unique hm]
    · intro h
      exact h n hstop
  · rw [Atomic, hrun]
    apply iff_of_true _ fun n hstop => (hnever n hstop).elim
    intro id hid
    rw [List.filter_append, filter_deleteAll hid, List.nil_append]

/-- A rule whose only row is its target. -/
def sampleTarget : HostEntry := ⟨some "r".toList, "ads.example".toList, .host⟩

/-- New targets that repeat are rejected when the old ones are gone. -/
theorem not_atomic :
    ((Update.updateHosts "r".toList [sampleTarget, sampleTarget]).run (fun _ => false)
        ⟨.empty, [sampleTarget]⟩) = .error ⟨.empty, []⟩ ∧
      ¬ (Update.updateHosts "r".toList [sampleTarget, sampleTarget]).Atomic (fun _ => false)
        ⟨.empty, [sampleTarget]⟩ := by
  have hrun : (Update.updateHosts "r".toList [sampleTarget, sampleTarget]).run (fun _ => false)
      ⟨.empty, [sampleTarget]⟩ = .error ⟨.empty, []⟩ := rfl
  refine ⟨hrun, ?_⟩
  rw [Atomic, hrun]
  intro hsame
  exact absurd (congrArg Database.hostsTable hsame) (by simp)

end Update

end Updates

section RoundTrip
open Database
variable {db : Database} {r : Rule}

theorem get_targetMap (targets : List Text) (target : Text) :
    (targetMap targets).get target = if target ∈ targets then some true else none := by
  induction targets using List.reverseRecOn with
  | nil => rfl
  | append_singleton targets t ih =>
    rw [targetMap, List.foldl_append, ← targetMap, List.foldl_cons, List.foldl_nil, OrderedMap.add,
      OrderedMap.get_upsert, ih]
    by_cases ht : target = t
    · simp [ht]
    · simp [ht]

theorem get_targetMap_keys (m : OrderedMap Text Bool) (target : Text) :
    (targetMap m.keys).get target = (m.get target).map fun _ => true := by
  rw [get_targetMap]
  cases hget : m.get target with
  | none =>
    apply if_neg
    rw [OrderedMap.mem_keys_iff]
    simp [hget]
  | some value => exact if_pos (OrderedMap.mem_keys_iff.mpr ⟨value, hget⟩)

theorem hostCompanions_nodup (r : Rule) : r.hostCompanions.Nodup := by
  rw [Rule.hostCompanions, List.nodup_append]
  refine ⟨?_, ?_, ?_⟩
  · exact List.Nodup.map (fun a b h => congrArg HostEntry.target h) r.hosts.nodup
  · exact List.Nodup.map (fun a b h => congrArg HostEntry.target h) r.ips.nodup
  · rintro c hc c' hc' rfl
    obtain ⟨host, -, rfl⟩ := List.mem_map.mp hc
    obtain ⟨ip, -, hip⟩ := List.mem_map.mp hc'
    exact absurd (congrArg HostEntry.type hip) nofun

/-- The rule's own row and its targets after it has been inserted alone. -/
theorem insertAll_single (db : Database) (r : Rule) :
    db.insertAll (fun _ => false) [r] = .ok ⟨db.rulesTable.add r.id r.companion,
      (db.deleteHosts r.id).hostsTable ++ r.hostCompanions⟩ := by
  have hcompanions : (Update.insertAll [r]).companions = r.hostCompanions := List.append_nil _
  have hinsert := (Update.insertHosts_cleared (.insertAll [r]) db).mpr
    ⟨rfl, hcompanions ▸ hostCompanions_nodup r⟩
  rw [hcompanions] at hinsert
  have hcleared : (deleteAll (Update.insertAll [r]).ids db).hostsTable =
      (db.deleteHosts r.id).hostsTable := rfl
  rw [hcleared] at hinsert
  have hbatch : (db.deleteHosts r.id).batch [(r.id, r.companion)] ([r].flatMap Rule.hostCompanions) =
      some ⟨db.rulesTable.add r.id r.companion,
        (db.deleteHosts r.id).hostsTable ++ r.hostCompanions⟩ := by
    rw [batch, show [r].flatMap Rule.hostCompanions = r.hostCompanions from hcompanions, hinsert]
    rfl
  have hcommit : db.insertAll (fun _ => false) [r] = commit (fun _ => false) 1 [(r.id, r.companion)]
      ([r].flatMap Rule.hostCompanions) (db.deleteHosts r.id) := rfl
  rw [hcommit, commit, if_neg Bool.false_ne_true, hbatch]

theorem filter_hostCompanions (db : Database) (r : Rule) :
    (((db.deleteHosts r.id).hostsTable ++ r.hostCompanions).filter fun h => h.ruleId = some r.id) =
      r.hostCompanions := by
  have hold : ((db.deleteHosts r.id).hostsTable.filter fun h => h.ruleId = some r.id) = [] :=
    filter_deleteAll (List.mem_singleton_self r.id)
  have hnew : (r.hostCompanions.filter fun h => h.ruleId = some r.id) = r.hostCompanions := by
    rw [List.filter_eq_self]
    intro c hc
    simp [hostCompanions_ruleId hc]
  rw [List.filter_append, hold, hnew, List.nil_append]

theorem hostCompanions_targets (r : Rule) :
    ((r.hostCompanions.filter fun h => h.type = .host).map fun h => h.target) = r.hosts.keys ∧
      ((r.hostCompanions.filter fun h => h.type = .ip).map fun h => h.target) = r.ips.keys := by
  simp [Rule.hostCompanions, List.filter_append, List.filter_map, Function.comp_def]

/-- A rule stored without a package is not found again, nor any other under no package. -/
theorem getForPackage_none (db : Database) (activeOnly : Bool) :
    db.getForPackage none activeOnly = [] := by
  simp [getForPackage]

/-- A rule as it was stored, with the values of its targets as `value` makes them. -/
structure ReadBack (value : Bool → Bool) (r r' : Rule) : Prop where
  id : r'.id = r.id
  type : r'.type = r.type
  active : r'.active = r.active
  shouldBlockQuic : r'.shouldBlockQuic = r.shouldBlockQuic
  whitelistExclusive : r'.whitelistExclusive = r.whitelistExclusive
  packageName : r'.packageName = r.packageName
  hosts : ∀ target, r'.hosts.get target = (r.hosts.get target).map value
  ips : ∀ target, r'.ips.get target = (r.ips.get target).map value

/-- A rule of a package is read back, every target with the value `true`. -/
theorem getForPackage_insertAll (db : Database) (r : Rule) {packageName : Text}
    (hpackage : r.packageName = some packageName) :
    ∃ db', db.insertAll (fun _ => false) [r] = .ok db' ∧
      ∃ r' ∈ db'.getForPackage r.packageName false, ReadBack (fun _ => true) r r' := by
  obtain ⟨db', hdb'⟩ : ∃ db' : Database, db' = ⟨db.rulesTable.add r.id r.companion,
    (db.deleteHosts r.id).hostsTable ++ r.hostCompanions⟩ := ⟨_, rfl⟩
  have hcolumn : some r.companion.packageName = r.packageName := by
    rw [hpackage]
    simp only [Rule.companion, hpackage, List.isEmpty_iff]
    split
    next hempty => rw [hempty]
    next => rfl
  refine ⟨db', hdb' ▸ insertAll_single db r, db'.readRule (r.id, r.companion), ?_, ?_⟩
  · refine List.mem_map_of_mem (List.mem_filter.mpr ⟨?_, by simp [hcolumn]⟩)
    rw [← OrderedMap.get_eq_some_iff, hdb', OrderedMap.add, OrderedMap.get_upsert, if_pos rfl]
  · refine ⟨rfl, rfl, rfl, rfl, rfl, hcolumn, ?_, ?_⟩
    · intro target
      simp only [readRule, hdb', filter_hostCompanions, (hostCompanions_targets r).1]
      exact get_targetMap_keys r.hosts target
    · intro target
      simp only [readRule, hdb', filter_hostCompanions, (hostCompanions_targets r).2]
      exact get_targetMap_keys r.ips target

def Rule.sample (value : Bool) : Rule where
  id := "r".toList
  targetVersion := none
  name := none
  description := none
  active := true
  type := .blacklist
  shouldBlockQuic := false
  whitelistExclusive := true
  packageName := some "app".toList
  hosts := .add .empty "ads.example".toList value
  ips := .empty

theorem getForPackage_insertAll_sample :
    ∃ db', Database.insertAll (fun _ => false) [.sample true] ⟨.empty, []⟩ = .ok db' ∧
      ∃ r' ∈ db'.getForPackage (Rule.sample true).packageName false,
        ReadBack (fun _ => true) (.sample true) r' :=
  getForPackage_insertAll ⟨.empty, []⟩ (.sample true) rfl

/-- A target with the value `false` is read back with `true`. -/
theorem not_getForPackage_insertAll :
    ∃ db', Database.insertAll (fun _ => false) [.sample false] ⟨.empty, []⟩ = .ok db' ∧
      ∀ r' ∈ db'.getForPackage (Rule.sample false).packageName false,
        ¬ ReadBack id (.sample false) r' := by
  refine ⟨_, rfl, ?_⟩
  intro r' hr' hread
  obtain rfl := List.mem_singleton.mp hr'
  exact absurd (hread.hosts "ads.example".toList) (by decide)

end RoundTrip

end NetGuard.Storage
