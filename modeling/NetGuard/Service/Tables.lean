import NetGuard.Service.Policy
import Mathlib.Data.List.Basic

/-! # The tables of the app as the service reads them

`DatabaseHelper` reads two tables. A row of `hosts_table` without a rule belongs to the
global lists. The other rows belong to rules of apps, and `getPackageRule` gathers all
active rules of an app into one whitelist and one blacklist.
-/
namespace NetGuard.Service

inductive HostType
  | host
  | ip
  deriving DecidableEq, Repr

structure HostEntry where
  ruleId : Option Text
  target : Text
  type : HostType
  deriving DecidableEq, Repr

structure RuleEntry where
  id : Text
  packageName : Text
  active : Bool
  type : RuleType
  whitelistExclusive : Bool
  deriving DecidableEq, Repr

structure Tables where
  rules : List RuleEntry
  hosts : List HostEntry

def HostEntry.isGeneric (type : HostType) (target : Text) (h : HostEntry) : Bool :=
  h.ruleId.isNone && h.type = type && h.target = target

def genericBlacklistContains (hosts : List HostEntry) (type : HostType) (target : Text) : Bool :=
  hosts.any (HostEntry.isGeneric type target)

def IsGeneric (hosts : List HostEntry) (type : HostType) (target : Text) : Prop :=
  ∃ h ∈ hosts, h.ruleId = none ∧ h.type = type ∧ h.target = target

theorem genericBlacklistContains_iff {hosts : List HostEntry} {type : HostType} {target : Text} :
    genericBlacklistContains hosts type target = true ↔ IsGeneric hosts type target := by
  simp [genericBlacklistContains, HostEntry.isGeneric, IsGeneric, and_assoc]

/-- A database whose queries succeed. -/
def Database.ofHosts (hosts : List HostEntry) : Database where
  containsHost domain := some (genericBlacklistContains hosts .host domain)
  containsIp ip := some (genericBlacklistContains hosts .ip ip)

section PackageRule

def HostType.checkTarget : HostType → CheckRuleTarget
  | .host => .host
  | .ip => .ip

def addTargetToRule (rule : Rule) (target : Text) : HostType → Rule
  | .host => { rule with hosts := rule.hosts ++ [target] }
  | .ip => { rule with ips := rule.ips ++ [target] }

/-- The rows of the query: an active rule of the app with one of its targets, or with
none if it has none. -/
def Tables.packageRows (db : Tables) (packageName : Text) : List (RuleEntry × Option HostEntry) :=
  (db.rules.filter fun r => r.active && r.packageName = packageName).flatMap fun r =>
    match db.hosts.filter fun h => h.ruleId = some r.id with
    | [] => [(r, none)]
    | targets => targets.map fun h => (r, some h)

/-- The blacklist and the whitelist of an app. -/
structure PackageRules where
  blacklist : Rule
  whitelist : Rule

def PackageRules.new : PackageRules :=
  ⟨⟨.blacklist, false, [], []⟩, ⟨.whitelist, false, [], []⟩⟩

def addRowTarget (rule : Rule) : Option HostEntry → Rule
  | some h => addTargetToRule rule h.target h.type
  | none => rule

def markExclusive (rule : Rule) (whitelistExclusive : Bool) : Rule :=
  if whitelistExclusive && !rule.whitelistExclusive then { rule with whitelistExclusive := true }
  else rule

def addRow (rules : PackageRules) (row : RuleEntry × Option HostEntry) : PackageRules :=
  match row.1.type with
  | .whitelist =>
    let whitelist := markExclusive rules.whitelist row.1.whitelistExclusive
    { rules with whitelist := addRowTarget whitelist row.2 }
  | .blacklist => { rules with blacklist := addRowTarget rules.blacklist row.2 }

def Rule.isVoid (rule : Rule) : Bool := rule.ips.isEmpty && rule.hosts.isEmpty

def PackageRules.toList (p : PackageRules) : List Rule :=
  let rules := if !p.whitelist.isVoid then [p.whitelist] else []
  let canUseBlacklist := rules.isEmpty || !p.whitelist.whitelistExclusive
  if canUseBlacklist && !p.blacklist.isVoid then rules ++ [p.blacklist] else rules

def Tables.gather (db : Tables) (packageName : Text) : PackageRules :=
  (db.packageRows packageName).foldl addRow .new

def Tables.getPackageRule (db : Tables) (packageName : Text) : List Rule :=
  (db.gather packageName).toList

end PackageRule

section Gather
variable {db : Tables} {packageName : Text}

/-- A target of an active rule of the app. -/
def Tables.Stores (db : Tables) (packageName : Text) (type : RuleType) (kind : HostType)
    (target : Text) : Prop :=
  ∃ r ∈ db.rules, r.active = true ∧ r.packageName = packageName ∧ r.type = type ∧
    ∃ h ∈ db.hosts, h.ruleId = some r.id ∧ h.type = kind ∧ h.target = target

def Tables.HasExclusive (db : Tables) (packageName : Text) : Prop :=
  ∃ r ∈ db.rules, r.active = true ∧ r.packageName = packageName ∧ r.type = .whitelist ∧
    r.whitelistExclusive = true

def PackageRules.ofType (p : PackageRules) : RuleType → Rule
  | .blacklist => p.blacklist
  | .whitelist => p.whitelist

theorem mem_packageRows_some {r : RuleEntry} {h : HostEntry} :
    (r, some h) ∈ db.packageRows packageName ↔
      r ∈ db.rules ∧ r.active = true ∧ r.packageName = packageName ∧ h ∈ db.hosts ∧
        h.ruleId = some r.id := by
  simp only [Tables.packageRows, List.mem_flatMap, List.mem_filter, Bool.and_eq_true,
    decide_eq_true_eq]
  constructor
  · rintro ⟨r', ⟨hr, hactive, hpackage⟩, hrow⟩
    split at hrow
    next => simp at hrow
    next targets =>
      obtain ⟨h', hh', hpair⟩ := List.mem_map.mp hrow
      obtain ⟨rfl, hsome⟩ := Prod.mk.inj hpair
      obtain rfl := Option.some.inj hsome
      obtain ⟨hmem, hrule⟩ := List.mem_filter.mp hh'
      exact ⟨hr, hactive, hpackage, hmem, by simpa using hrule⟩
  · rintro ⟨hr, hactive, hpackage, hmem, hrule⟩
    refine ⟨r, ⟨hr, hactive, hpackage⟩, ?_⟩
    have hfilter : h ∈ db.hosts.filter fun h => h.ruleId = some r.id := by simp [hmem, hrule]
    split
    next hnil => simp [hnil] at hfilter
    next targets => exact List.mem_map_of_mem hfilter

theorem exists_mem_packageRows {r : RuleEntry} :
    (∃ o, (r, o) ∈ db.packageRows packageName) ↔
      r ∈ db.rules ∧ r.active = true ∧ r.packageName = packageName := by
  simp only [Tables.packageRows, List.mem_flatMap, List.mem_filter, Bool.and_eq_true,
    decide_eq_true_eq]
  constructor
  · rintro ⟨o, r', hr', hrow⟩
    split at hrow
    next => exact (Prod.mk.inj (List.mem_singleton.mp hrow)).1 ▸ hr'
    next targets =>
      obtain ⟨h, -, heq⟩ := List.mem_map.mp hrow
      exact (Prod.mk.inj heq).1 ▸ hr'
  · intro hr
    cases htargets : db.hosts.filter fun h => h.ruleId = some r.id with
    | nil => exact ⟨none, r, hr, by simp [htargets]⟩
    | cons h rest => exact ⟨some h, r, hr, by simp [htargets]⟩

@[simp] theorem markExclusive_targets {rule : Rule} {exclusive : Bool} :
    (markExclusive rule exclusive).targets = rule.targets := by
  unfold markExclusive
  split <;> rfl

@[simp] theorem markExclusive_type {rule : Rule} {exclusive : Bool} :
    (markExclusive rule exclusive).type = rule.type := by
  unfold markExclusive
  split <;> rfl

@[simp] theorem markExclusive_exclusive {rule : Rule} {exclusive : Bool} :
    (markExclusive rule exclusive).whitelistExclusive =
      (rule.whitelistExclusive || exclusive) := by
  unfold markExclusive
  cases exclusive <;> cases h : rule.whitelistExclusive <;> simp [h]

@[simp] theorem addRowTarget_type {rule : Rule} {o : Option HostEntry} :
    (addRowTarget rule o).type = rule.type := by
  cases o with
  | none => rfl
  | some h => cases htype : h.type <;> simp [addRowTarget, addTargetToRule, htype]

@[simp] theorem addRowTarget_exclusive {rule : Rule} {o : Option HostEntry} :
    (addRowTarget rule o).whitelistExclusive = rule.whitelistExclusive := by
  cases o with
  | none => rfl
  | some h => cases htype : h.type <;> simp [addRowTarget, addTargetToRule, htype]

theorem mem_addRowTarget {rule : Rule} {o : Option HostEntry} {kind : HostType} {t : Text} :
    t ∈ (addRowTarget rule o).targets kind.checkTarget ↔
      t ∈ rule.targets kind.checkTarget ∨ ∃ h, o = some h ∧ h.type = kind ∧ h.target = t := by
  cases o with
  | none => simp [addRowTarget]
  | some h =>
    cases htype : h.type <;> cases kind <;>
      simp [addRowTarget, addTargetToRule, htype, Rule.targets, HostType.checkTarget, eq_comm]

theorem mem_addRow {p : PackageRules} {row : RuleEntry × Option HostEntry} {type : RuleType}
    {kind : HostType} {t : Text} :
    t ∈ ((addRow p row).ofType type).targets kind.checkTarget ↔
      t ∈ (p.ofType type).targets kind.checkTarget ∨
        (row.1.type = type ∧ ∃ h, row.2 = some h ∧ h.type = kind ∧ h.target = t) := by
  cases hrow : row.1.type <;> cases type <;>
    simp [addRow, hrow, PackageRules.ofType, mem_addRowTarget]

theorem mem_foldl_addRow {rows : List (RuleEntry × Option HostEntry)} {p : PackageRules}
    {type : RuleType} {kind : HostType} {t : Text} :
    t ∈ ((rows.foldl addRow p).ofType type).targets kind.checkTarget ↔
      t ∈ (p.ofType type).targets kind.checkTarget ∨
        ∃ r h, (r, some h) ∈ rows ∧ r.type = type ∧ h.type = kind ∧ h.target = t := by
  induction rows generalizing p with
  | nil => simp
  | cons row rows ih =>
    rw [List.foldl_cons, ih, mem_addRow, or_assoc]
    apply or_congr_right
    obtain ⟨r, o⟩ := row
    constructor
    · rintro (⟨htype, h, rfl, hkind⟩ | ⟨r', h, hmem, hrest⟩)
      · exact ⟨r, h, List.mem_cons_self, htype, hkind⟩
      · exact ⟨r', h, List.mem_cons_of_mem _ hmem, hrest⟩
    · rintro ⟨r', h, hmem, htype, hkind⟩
      rcases List.mem_cons.mp hmem with hhead | htail
      · obtain ⟨rfl, rfl⟩ := Prod.mk.inj hhead
        exact Or.inl ⟨htype, h, rfl, hkind⟩
      · exact Or.inr ⟨r', h, htail, htype, hkind⟩

theorem mem_gather (type : RuleType) (kind : HostType) {t : Text} :
    t ∈ ((db.gather packageName).ofType type).targets kind.checkTarget ↔
      db.Stores packageName type kind t := by
  have hnew : t ∉ (PackageRules.new.ofType type).targets kind.checkTarget := by
    cases type <;> cases kind <;>
      simp [PackageRules.new, PackageRules.ofType, Rule.targets, HostType.checkTarget]
  rw [Tables.gather, mem_foldl_addRow, or_iff_right hnew]
  simp only [mem_packageRows_some]
  constructor
  · rintro ⟨r, h, ⟨hr, hactive, hpackage, hmem, hrule⟩, htype, hkind, ht⟩
    exact ⟨r, hr, hactive, hpackage, htype, h, hmem, hrule, hkind, ht⟩
  · rintro ⟨r, hr, hactive, hpackage, htype, h, hmem, hrule, hkind, ht⟩
    exact ⟨r, h, ⟨hr, hactive, hpackage, hmem, hrule⟩, htype, hkind, ht⟩

theorem addRow_exclusive {p : PackageRules} {row : RuleEntry × Option HostEntry} :
    (addRow p row).whitelist.whitelistExclusive = true ↔
      p.whitelist.whitelistExclusive = true ∨
        (row.1.type = .whitelist ∧ row.1.whitelistExclusive = true) := by
  cases hrow : row.1.type <;> simp [addRow, hrow]

theorem gather_exclusive :
    (db.gather packageName).whitelist.whitelistExclusive = true ↔
      db.HasExclusive packageName := by
  have hfold (rows : List (RuleEntry × Option HostEntry)) (p : PackageRules) :
      (rows.foldl addRow p).whitelist.whitelistExclusive = true ↔
        p.whitelist.whitelistExclusive = true ∨
          ∃ row ∈ rows, row.1.type = .whitelist ∧ row.1.whitelistExclusive = true := by
    induction rows generalizing p with
    | nil => simp
    | cons row rows ih => rw [List.foldl_cons, ih, addRow_exclusive, or_assoc,
        List.exists_mem_cons_iff]
  rw [Tables.gather, hfold]
  constructor
  · rintro (hnew | ⟨⟨r, o⟩, hrow, htype, hexclusive⟩)
    · simp [PackageRules.new] at hnew
    · obtain ⟨hr, hactive, hpackage⟩ := exists_mem_packageRows.mp ⟨o, hrow⟩
      exact ⟨r, hr, hactive, hpackage, htype, hexclusive⟩
  · rintro ⟨r, hr, hactive, hpackage, htype, hexclusive⟩
    obtain ⟨o, hrow⟩ := exists_mem_packageRows.mpr ⟨hr, hactive, hpackage⟩
    exact Or.inr ⟨(r, o), hrow, htype, hexclusive⟩

theorem addRow_type {p : PackageRules} {row : RuleEntry × Option HostEntry} {type : RuleType} :
    ((addRow p row).ofType type).type = (p.ofType type).type := by
  cases hrow : row.1.type <;> cases type <;> simp [addRow, hrow, PackageRules.ofType]

theorem gather_type (type : RuleType) : ((db.gather packageName).ofType type).type = type := by
  have hfold (rows : List (RuleEntry × Option HostEntry)) (p : PackageRules) :
      ((rows.foldl addRow p).ofType type).type = (p.ofType type).type := by
    induction rows generalizing p with
    | nil => rfl
    | cons row rows ih => rw [List.foldl_cons, ih, addRow_type]
  rw [Tables.gather, hfold]
  cases type <;> rfl

theorem mem_hosts_gather (type : RuleType) {t : Text} :
    t ∈ ((db.gather packageName).ofType type).hosts ↔ db.Stores packageName type .host t :=
  mem_gather type .host

end Gather

section Loaded
variable {db : Tables} {packageName : Text} {p : PackageRules}

theorem PackageRules.toList_eq :
    p.toList = (if p.whitelist.isVoid then [] else [p.whitelist]) ++
      if (p.whitelist.isVoid || !p.whitelist.whitelistExclusive) && !p.blacklist.isVoid
      then [p.blacklist] else [] := by
  unfold PackageRules.toList
  cases hvoid : p.whitelist.isVoid with
  | true => cases hblack : p.blacklist.isVoid <;> simp
  | false =>
    cases hblack : p.blacklist.isVoid <;> cases hexclusive : p.whitelist.whitelistExclusive <;>
      simp

theorem mem_getPackageRule {rule : Rule} (hmem : rule ∈ db.getPackageRule packageName) :
    (rule = (db.gather packageName).whitelist ∧ rule.isVoid = false) ∨
      rule = (db.gather packageName).blacklist ∧ rule.isVoid = false := by
  unfold Tables.getPackageRule at hmem
  rw [PackageRules.toList_eq] at hmem
  rcases List.mem_append.mp hmem with h | h
  · split at h
    next => simp at h
    next hvoid =>
      obtain rfl := List.mem_singleton.mp h
      exact .inl ⟨rfl, by simpa using hvoid⟩
  · split at h
    next hblack =>
      obtain rfl := List.mem_singleton.mp h
      simp only [Bool.and_eq_true, Bool.not_eq_true'] at hblack
      exact .inr ⟨rfl, hblack.2⟩
    next => simp at h

/-- A whitelist comes first, and nothing follows one that is exclusive. -/
theorem getPackageRule_whitelist {w : Rule} (hmem : w ∈ db.getPackageRule packageName)
    (htype : w.type = .whitelist) :
    db.getPackageRule packageName = [w] ∨
      w.whitelistExclusive = false ∧
        ∃ b, b.type = .blacklist ∧ db.getPackageRule packageName = [w, b] := by
  have hblacklist : (db.gather packageName).blacklist.type = .blacklist := gather_type .blacklist
  have hne : w ≠ (db.gather packageName).blacklist := by
    rintro rfl
    rw [hblacklist] at htype
    exact absurd htype (by decide)
  obtain ⟨rfl, hvoid⟩ : w = (db.gather packageName).whitelist ∧ w.isVoid = false := by
    rcases mem_getPackageRule hmem with ⟨hw, hvoid⟩ | ⟨hw, -⟩
    · exact ⟨hw, hvoid⟩
    · exact (hne hw).elim
  unfold Tables.getPackageRule
  rw [PackageRules.toList_eq]
  rw [if_neg (by simp [hvoid])]
  split
  next hboth =>
    refine Or.inr ⟨?_, _, hblacklist, rfl⟩
    simp only [hvoid, Bool.false_or, Bool.and_eq_true, Bool.not_eq_true'] at hboth
    exact hboth.1
  next => exact Or.inl rfl

theorem getPackageRule_exclusive {w : Rule} (hmem : w ∈ db.getPackageRule packageName)
    (htype : w.type = .whitelist) (hexclusive : w.whitelistExclusive = true) :
    db.getPackageRule packageName = [w] := by
  rcases getPackageRule_whitelist hmem htype with hlist | ⟨hnot, -⟩
  · exact hlist
  · rw [hexclusive] at hnot
    exact absurd hnot (by decide)

/-- A rule that is loaded has a target. -/
theorem not_isVoid_of_mem {rule : Rule} (hmem : rule ∈ db.getPackageRule packageName) :
    rule.isVoid = false := by
  rcases mem_getPackageRule hmem with ⟨-, hvoid⟩ | ⟨-, hvoid⟩
  · exact hvoid
  · exact hvoid

end Loaded

end NetGuard.Service
