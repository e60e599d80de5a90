import NetGuard.Service.Lists
import Mathlib.Data.List.Forall2

/-! # The rules of an app, from rows in any order

The query of `getPackageRule` names no order. Its rows are merged into the unions of the
whitelists and of the blacklists and one flag, and these decide every check.
-/
namespace NetGuard.Service

/-- A row of the query: an active rule with one of its targets, or with none. -/
abbrev PackageRow := RuleEntry × Option HostEntry

section Merge
variable {rows rows' : List PackageRow} {p : PackageRules} {type : RuleType} {kind : HostType}

/-- `getPackageRule` on the rows in the order in which the cursor gives them. -/
def rulesOfRows (rows : List PackageRow) : List Rule := (rows.foldl addRow .new).toList

theorem getPackageRule_eq (db : Tables) (packageName : Text) :
    db.getPackageRule packageName = rulesOfRows (db.packageRows packageName) := rfl

/-- The targets of a kind, of all rules of a type. -/
def entries (rows : List PackageRow) (type : RuleType) (kind : HostType) : List Text :=
  rows.filterMap fun row =>
    if row.1.type = type then
      row.2.bind fun h => if h.type = kind then some h.target else none
    else none

def anyExclusive (rows : List PackageRow) : Bool :=
  rows.any fun row => row.1.type = .whitelist && row.1.whitelistExclusive

theorem targets_addRowTarget {rule : Rule} {o : Option HostEntry} :
    (addRowTarget rule o).targets kind.checkTarget = rule.targets kind.checkTarget ++
      (o.bind fun h => if h.type = kind then some h.target else none).toList := by
  cases o with
  | none => simp [addRowTarget]
  | some h =>
    cases htype : h.type <;> cases kind <;>
      simp [addRowTarget, addTargetToRule, htype, Rule.targets, HostType.checkTarget]

theorem targets_addRow (row : PackageRow) :
    ((addRow p row).ofType type).targets kind.checkTarget =
      (p.ofType type).targets kind.checkTarget ++ entries [row] type kind := by
  have hentries : entries [row] type kind = if row.1.type = type then
      (row.2.bind fun h => if h.type = kind then some h.target else none).toList else [] := by
    by_cases htype : row.1.type = type
    · cases htarget : row.2.bind fun h => if h.type = kind then some h.target else none <;>
        simp [entries, htype, htarget]
    · simp [entries, htype]
  rw [hentries]
  cases hrow : row.1.type <;> cases type <;>
    simp [addRow, hrow, PackageRules.ofType, targets_addRowTarget]

theorem targets_merge : ((rows.foldl addRow p).ofType type).targets kind.checkTarget =
    (p.ofType type).targets kind.checkTarget ++ entries rows type kind := by
  induction rows generalizing p with
  | nil => simp [entries]
  | cons row rows ih =>
    have hcons : entries (row :: rows) type kind =
        entries [row] type kind ++ entries rows type kind := by
      rw [entries, ← List.singleton_append, List.filterMap_append, entries, entries]
    rw [List.foldl_cons, ih, targets_addRow, hcons, List.append_assoc]

theorem targets_rows (type : RuleType) (kind : HostType) :
    ((rows.foldl addRow .new).ofType type).targets kind.checkTarget = entries rows type kind := by
  rw [targets_merge]
  cases type <;> cases kind <;> rfl

theorem exclusive_merge : (rows.foldl addRow p).whitelist.whitelistExclusive =
    (p.whitelist.whitelistExclusive || anyExclusive rows) := by
  induction rows generalizing p with
  | nil => simp [anyExclusive]
  | cons row rows ih =>
    have hrow : (addRow p row).whitelist.whitelistExclusive = (p.whitelist.whitelistExclusive ||
        (decide (row.1.type = .whitelist) && row.1.whitelistExclusive)) := by
      rw [Bool.eq_iff_iff, addRow_exclusive]
      simp
    rw [List.foldl_cons, ih, hrow, anyExclusive, anyExclusive, List.any_cons, Bool.or_assoc]

theorem exclusive_rows :
    (rows.foldl addRow .new).whitelist.whitelistExclusive = anyExclusive rows := by
  rw [exclusive_merge]
  exact Bool.false_or _

theorem type_rows (type : RuleType) : ((rows.foldl addRow .new).ofType type).type = type := by
  have hfold (p : PackageRules) :
      ((rows.foldl addRow p).ofType type).type = (p.ofType type).type := by
    induction rows generalizing p with
    | nil => rfl
    | cons row rows ih => rw [List.foldl_cons, ih, addRow_type]
  rw [hfold]
  cases type <;> rfl

end Merge

section Order
variable {rows rows' : List PackageRow} {rule rule' : Rule}

/-- Rules with the same maps: the maps hold `true` at every key. -/
structure Rule.Same (rule rule' : Rule) : Prop where
  type : rule.type = rule'.type
  exclusive : rule.whitelistExclusive = rule'.whitelistExclusive
  targets : ∀ (kind : HostType) t,
    t ∈ rule.targets kind.checkTarget ↔ t ∈ rule'.targets kind.checkTarget

theorem isVoid_iff : rule.isVoid = true ↔
    ∀ (kind : HostType) t, t ∉ rule.targets kind.checkTarget := by
  constructor
  · intro hvoid kind t
    simp only [Rule.isVoid, Bool.and_eq_true, List.isEmpty_iff] at hvoid
    cases kind <;> simp [Rule.targets, HostType.checkTarget, hvoid]
  · intro hnone
    have hips := List.eq_nil_iff_forall_not_mem.mpr (hnone .ip)
    have hhosts := List.eq_nil_iff_forall_not_mem.mpr (hnone .host)
    simp only [Rule.targets, HostType.checkTarget] at hips hhosts
    simp [Rule.isVoid, hips, hhosts]

theorem Rule.Same.isVoid (h : rule.Same rule') : rule.isVoid = rule'.isVoid := by
  rw [Bool.eq_iff_iff, isVoid_iff, isVoid_iff]
  simp only [h.targets]

theorem same_rows (hperm : rows.Perm rows') (type : RuleType) :
    ((rows.foldl addRow .new).ofType type).Same ((rows'.foldl addRow .new).ofType type) where
  type := by rw [type_rows, type_rows]
  exclusive := by
    cases type with
    | whitelist =>
      have hany : anyExclusive rows = anyExclusive rows' := hperm.any_eq
      rw [PackageRules.ofType, PackageRules.ofType, exclusive_rows, exclusive_rows, hany]
    | blacklist =>
      -- the flag of the blacklist is never set
      have hfold (l : List PackageRow) (p : PackageRules) :
          (l.foldl addRow p).blacklist.whitelistExclusive = p.blacklist.whitelistExclusive := by
        induction l generalizing p with
        | nil => rfl
        | cons row l ih =>
          rw [List.foldl_cons, ih]
          cases hrow : row.1.type <;> simp [addRow, hrow]
      rw [PackageRules.ofType, PackageRules.ofType, hfold, hfold]
  targets kind t := by
    rw [targets_rows, targets_rows]
    exact (hperm.filterMap _).mem_iff

theorem rulesOfRows_perm (hperm : rows.Perm rows') :
    List.Forall₂ Rule.Same (rulesOfRows rows) (rulesOfRows rows') := by
  have hwhite : (rows.foldl addRow .new).whitelist.Same (rows'.foldl addRow .new).whitelist :=
    same_rows hperm .whitelist
  have hblack : (rows.foldl addRow .new).blacklist.Same (rows'.foldl addRow .new).blacklist :=
    same_rows hperm .blacklist
  rw [rulesOfRows, rulesOfRows, PackageRules.toList_eq, PackageRules.toList_eq, hwhite.isVoid,
    hblack.isVoid, hwhite.exclusive]
  apply List.rel_append (R := Rule.Same)
  · split
    · exact .nil
    · exact .cons hwhite .nil
  · split
    · exact .cons hblack .nil
    · exact .nil

end Order

section Verdict
variable {rows : List PackageRow} {p : PackageRules} {value : Text}

/-- What the rows say about a value of a kind, without the rules made of them. -/
def verdictOfRows (rows : List PackageRow) (kind : HostType) (value : Text) : RuleCheckResult :=
  if value ∈ entries rows .whitelist kind then ⟨false, true⟩
  else if entries rows .whitelist kind ≠ [] ∧ anyExclusive rows = true then ⟨true, true⟩
  else if anyExclusive rows = true ∧
      (entries rows .whitelist .ip ≠ [] ∨ entries rows .whitelist .host ≠ []) then ⟨false, false⟩
  else if value ∈ entries rows .blacklist kind then ⟨true, true⟩
  else ⟨false, false⟩

theorem checkRules_toList (hwhite : p.whitelist.type = .whitelist)
    (hblack : p.blacklist.type = .blacklist) (target : CheckRuleTarget) :
    checkRules value target p.toList =
      if value ∈ p.whitelist.targets target then ⟨false, true⟩
      else if p.whitelist.targets target ≠ [] ∧ p.whitelist.whitelistExclusive = true then
        ⟨true, true⟩
      else if p.whitelist.whitelistExclusive = true ∧ p.whitelist.isVoid = false then ⟨false, false⟩
      else if value ∈ p.blacklist.targets target then ⟨true, true⟩
      else ⟨false, false⟩ := by
  have hempty {rule : Rule} (hvoid : rule.isVoid = true) : rule.targets target = [] := by
    simp only [Rule.isVoid, Bool.and_eq_true, List.isEmpty_iff] at hvoid
    cases target <;> simp [Rule.targets, hvoid]
  have hlast : checkRules value target (if p.blacklist.isVoid = false then [p.blacklist] else []) =
      if value ∈ p.blacklist.targets target then ⟨true, true⟩ else ⟨false, false⟩ := by
    cases hvoid : p.blacklist.isVoid with
    | true => simp [checkRules, hempty hvoid]
    | false =>
      rw [if_pos rfl, checkRules_blacklist hblack]
      by_cases htargets : p.blacklist.targets target = []
      · simp [checkRules, htargets]
      · rw [if_neg htargets]
  rw [PackageRules.toList_eq]
  cases hvoid : p.whitelist.isVoid with
  | true =>
    simp [hempty hvoid, hlast]
  | false =>
    cases hexclusive : p.whitelist.whitelistExclusive with
    | true => simp [checkRules_whitelist hwhite, checkRules, hexclusive]
    | false => simp [checkRules_whitelist hwhite, hexclusive, hlast]

theorem checkRules_rows (rows : List PackageRow) (kind : HostType) (value : Text) :
    checkRules value kind.checkTarget (rulesOfRows rows) = verdictOfRows rows kind value := by
  have hwhite (kind : HostType) : (rows.foldl addRow .new).whitelist.targets kind.checkTarget =
      entries rows .whitelist kind := targets_rows .whitelist kind
  have hblack : (rows.foldl addRow .new).blacklist.targets kind.checkTarget =
      entries rows .blacklist kind := targets_rows .blacklist kind
  have hvoid : (rows.foldl addRow .new).whitelist.isVoid = false ↔
      entries rows .whitelist .ip ≠ [] ∨ entries rows .whitelist .host ≠ [] := by
    rw [← hwhite, ← hwhite, Rule.isVoid, Bool.and_eq_false_iff, List.isEmpty_eq_false_iff,
      List.isEmpty_eq_false_iff]
    rfl
  rw [rulesOfRows, checkRules_toList (type_rows .whitelist) (type_rows .blacklist), hwhite, hblack,
    exclusive_rows, verdictOfRows]
  simp only [hvoid]

end Verdict

namespace MyVpnService

/-- The map of rules, emptied and filled for one app. An app without rules is left out. -/
def preparePackageRules (uid : Int) (rules : List Rule) (s : MyVpnService) : MyVpnService :=
  { s with mapUidRules := if rules.isEmpty then fun _ => none else Map.put (fun _ => none) uid rules }

theorem blockedByRule_prepared (s : MyVpnService) (uid : Int) (rules : List Rule) (value : Text)
    (target : CheckRuleTarget) :
    (s.preparePackageRules uid rules).blockedByRule uid value target =
      checkRules value target rules := by
  unfold preparePackageRules blockedByRule
  cases rules with
  | nil => rfl
  | cons rule rest => simp [Map.put]

/-- The rules of an app and every check on them depend on its rows alone, not on their
order: on the unions of its lists and on whether a whitelist is exclusive. -/
theorem blockedByRule_rows (db : Tables) (packageName : Text) (rows : List PackageRow)
    (hperm : rows.Perm (db.packageRows packageName)) :
    List.Forall₂ Rule.Same (rulesOfRows rows) (db.getPackageRule packageName) ∧
      ∀ (s : MyVpnService) (uid : Int) (kind : HostType) (value : Text),
        (s.preparePackageRules uid (rulesOfRows rows)).blockedByRule uid value kind.checkTarget =
          verdictOfRows (db.packageRows packageName) kind value := by
  refine ⟨rulesOfRows_perm hperm, ?_⟩
  intro s uid kind value
  have hentries (type : RuleType) (kind : HostType) (t : Text) :
      t ∈ entries rows type kind ↔ t ∈ entries (db.packageRows packageName) type kind :=
    (hperm.filterMap _).mem_iff
  have hnil (kind : HostType) : entries rows .whitelist kind = [] ↔
      entries (db.packageRows packageName) .whitelist kind = [] := by
    simp only [List.eq_nil_iff_forall_not_mem, hentries]
  have hany : anyExclusive rows = anyExclusive (db.packageRows packageName) := hperm.any_eq
  rw [blockedByRule_prepared, checkRules_rows, verdictOfRows, verdictOfRows]
  simp only [hentries, hany, ne_eq, hnil]

def rowsSample : List PackageRow :=
  (Tables.sample .whitelist true [("a.b".toList, .host), ("1.2.3.4".toList, .ip)]).packageRows
    "app".toList

theorem blockedByRule_rows_sample :
    List.Forall₂ Rule.Same (rulesOfRows rowsSample.reverse) (rulesOfRows rowsSample) ∧
      ∀ (s : MyVpnService) (uid : Int) (kind : HostType) (value : Text),
        (s.preparePackageRules uid (rulesOfRows rowsSample.reverse)).blockedByRule uid value
          kind.checkTarget = verdictOfRows rowsSample kind value :=
  blockedByRule_rows _ "app".toList _ (List.reverse_perm _)

end MyVpnService

end NetGuard.Service
