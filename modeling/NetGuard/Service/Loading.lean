import NetGuard.Library.Recent
import NetGuard.Service.Globals
import NetGuard.Service.Merge
import NetGuard.Service.Upcalls

/-! # What a start loads

A start reads the settings of the filtered packages and their rules, and files them under
the uids of the packages. Packages may share a uid. The last of them that has rules then
gives the rules of all, and a setting of one of them holds for all.
-/
namespace NetGuard.Service

/-- A row of `application_setting_table`. -/
structure ApplicationSetting where
  packageName : Text
  filter : Bool
  blockAll : Bool
  blockQuic : Bool
  deriving DecidableEq, Repr

/-- What a start finds: the packages to filter, the uids that the package manager knows,
-1 for none, and the tables. -/
structure Installation where
  filteredPackages : List Text
  packageNameToUid : Text → Int
  settings : List ApplicationSetting
  tables : Tables

/-- What the service has of a session. -/
structure Session extends Served where
  mapUidPackageName : Map Int Text

namespace Installation
variable (i : Installation)

def getApplicationSettings (packageNames : List Text) : List ApplicationSetting :=
  i.settings.filter fun setting => packageNames.contains setting.packageName

def applicationSettings : List ApplicationSetting := i.getApplicationSettings i.filteredPackages

/-- How both loops over the settings begin: the uid of a package that is not skipped. -/
def uid (setting : ApplicationSetting) : Option Int :=
  if !i.filteredPackages.contains setting.packageName then none
  else
    let uid := i.packageNameToUid setting.packageName
    if uid < 0 then none else some uid

end Installation

namespace Session

section Prepare
variable (i : Installation)

def prepareCacheMaps (s : Session) : Session :=
  { s with
    mapIPKeyUid := fun _ => none
    service := { s.service with mapIPKeySni := fun _ => none, mapIpUidDomain := fun _ => none } }

def prepareGlobalRules (s : Session) : Session := { s with service := s.service.prepareGlobalRules }

def preparePackage (s : Session) (setting : ApplicationSetting) : Session :=
  match i.uid setting with
  | none => s
  | some uid =>
    let s := { s with mapUidPackageName := s.mapUidPackageName.put uid setting.packageName }
    let rules := i.tables.getPackageRule setting.packageName
    if rules.isEmpty then s
    else { s with service := { s.service with mapUidRules := s.service.mapUidRules.put uid rules } }

def preparePackageRules (s : Session) : Session :=
  i.applicationSettings.foldl (preparePackage i)
    { s with
      mapUidPackageName := fun _ => none
      service := { s.service with mapUidRules := fun _ => none } }

def addUid (uid : Int) (blocks : Bool) (set : List Int) : List Int :=
  if blocks then set.insert uid else set

def prepareSetting (s : Session) (setting : ApplicationSetting) : Session :=
  match i.uid setting with
  | none => s
  | some uid =>
    { s with service := { s.service with
        setUidBlockAll := addUid uid setting.blockAll s.service.setUidBlockAll
        setUidBlockQuic := addUid uid setting.blockQuic s.service.setUidBlockQuic } }

def prepareApplicationSettings (s : Session) : Session :=
  i.applicationSettings.foldl (prepareSetting i)
    { s with service := { s.service with setUidBlockAll := [], setUidBlockQuic := [] } }

/-- The first part of `startNative`, which makes the maps. -/
def startNative (s : Session) : Session :=
  prepareApplicationSettings i (preparePackageRules i (prepareGlobalRules (prepareCacheMaps s)))

end Prepare

end Session

section Stored
variable (i : Installation) (uid : Int)

namespace Installation

/-- A package that a start files under `uid`. -/
def Files (setting : ApplicationSetting) : Prop :=
  setting ∈ i.settings ∧ setting.packageName ∈ i.filteredPackages ∧
    i.packageNameToUid setting.packageName = uid ∧ 0 ≤ uid

def BlocksAll : Prop := ∃ setting, i.Files uid setting ∧ setting.blockAll = true

def BlocksQuic : Prop := ∃ setting, i.Files uid setting ∧ setting.blockQuic = true

/-- The package that the uid is known by. -/
def packageOf : Option Text :=
  Recent.last (fun setting => if i.uid setting = some uid then some setting.packageName else none)
    i.settings

/-- The package that the uid has its rules from. -/
def rulesOf : Option Text :=
  Recent.last (fun setting =>
    if i.uid setting = some uid ∧ i.tables.getPackageRule setting.packageName ≠ [] then
      some setting.packageName
    else none) i.settings

/-- What the stored rules say about a value. -/
def verdict (kind : HostType) (value : Text) : RuleCheckResult :=
  match i.rulesOf uid with
  | none => ⟨false, false⟩
  | some packageName => verdictOfRows (i.tables.packageRows packageName) kind value

end Installation

end Stored

section Load
variable {i : Installation} {uid : Int} {setting : ApplicationSetting} {s : Session}
  {settings : List ApplicationSetting}

namespace Installation

theorem uid_eq_some_iff : i.uid setting = some uid ↔ setting.packageName ∈ i.filteredPackages ∧
    i.packageNameToUid setting.packageName = uid ∧ 0 ≤ uid := by
  unfold Installation.uid
  by_cases hfiltered : setting.packageName ∈ i.filteredPackages
  · by_cases hneg : i.packageNameToUid setting.packageName < 0
    · simp only [List.contains_iff_mem.mpr hfiltered, Bool.not_true, Bool.false_eq_true, if_false,
        if_pos hneg, reduceCtorEq, false_iff, not_and]
      rintro - rfl
      omega
    · simp only [List.contains_iff_mem.mpr hfiltered, Bool.not_true, Bool.false_eq_true, if_false,
        if_neg hneg, Option.some.injEq, hfiltered, true_and]
      constructor
      · rintro rfl
        exact ⟨rfl, Int.not_lt.mp hneg⟩
      · exact And.left
  · simp [hfiltered]

theorem files_iff : i.Files uid setting ↔ setting ∈ i.settings ∧ i.uid setting = some uid := by
  rw [Files, uid_eq_some_iff]

theorem uid_eq_none_of_not_filtered
    (h : i.filteredPackages.contains setting.packageName = false) : i.uid setting = none := by
  rw [Installation.uid, h]
  rfl

/-- The loops skip what the query has left out. -/
theorem last_applicationSettings {ν : Type*} {f : ApplicationSetting → Option ν}
    (hf : ∀ setting, i.uid setting = none → f setting = none) :
    Recent.last f i.applicationSettings = Recent.last f i.settings :=
  Recent.last_filter fun _ h => hf _ (uid_eq_none_of_not_filtered h)

theorem exists_applicationSettings {P : ApplicationSetting → Prop} :
    (∃ setting ∈ i.applicationSettings, i.uid setting = some uid ∧ P setting) ↔
      ∃ setting, i.Files uid setting ∧ P setting := by
  simp only [applicationSettings, getApplicationSettings, List.mem_filter, List.contains_iff_mem,
    files_iff]
  constructor
  · rintro ⟨setting, ⟨hmem, -⟩, huid, hP⟩
    exact ⟨setting, ⟨hmem, huid⟩, hP⟩
  · rintro ⟨setting, ⟨hmem, huid⟩, hP⟩
    exact ⟨setting, ⟨hmem, (uid_eq_some_iff.mp huid).1⟩, huid, hP⟩

end Installation

namespace Session

/-- What a setting writes into the map of rules. -/
def rulesWrite (i : Installation) (setting : ApplicationSetting) : Option (Int × List Rule) :=
  match i.uid setting with
  | none => none
  | some uid =>
    let rules := i.tables.getPackageRule setting.packageName
    if rules.isEmpty then none else some (uid, rules)

def nameWrite (i : Installation) (setting : ApplicationSetting) : Option (Int × Text) :=
  (i.uid setting).map fun uid => (uid, setting.packageName)

theorem preparePackage_eq (s : Session) (setting : ApplicationSetting) :
    preparePackage i s setting =
      { s with
        mapUidPackageName := Recent.put s.mapUidPackageName (nameWrite i setting)
        service := { s.service with
          mapUidRules := Recent.put s.service.mapUidRules (rulesWrite i setting) } } := by
  unfold preparePackage nameWrite rulesWrite
  cases i.uid setting with
  | none => rfl
  | some uid =>
    cases hrules : (i.tables.getPackageRule setting.packageName).isEmpty with
    | true => simp [hrules, Recent.put, Map.put]
    | false => simp [hrules, Recent.put, Map.put]

theorem foldl_preparePackage (s : Session) : settings.foldl (preparePackage i) s =
    { s with
      mapUidPackageName := settings.foldl (fun m a => Recent.put m (nameWrite i a)) s.mapUidPackageName
      service := { s.service with
        mapUidRules :=
          settings.foldl (fun m a => Recent.put m (rulesWrite i a)) s.service.mapUidRules } } := by
  induction settings generalizing s with
  | nil => rfl
  | cons setting settings ih => rw [List.foldl_cons, ih, preparePackage_eq]; rfl

/-- The sets after one setting: `blocks` is the flag that fills the set. -/
def settingWrite (i : Installation) (blocks : ApplicationSetting → Bool) (set : List Int)
    (setting : ApplicationSetting) : List Int :=
  match i.uid setting with
  | none => set
  | some uid => addUid uid (blocks setting) set

theorem mem_settingWrites {blocks : ApplicationSetting → Bool} {set : List Int} :
    uid ∈ settings.foldl (settingWrite i blocks) set ↔
      uid ∈ set ∨ ∃ setting ∈ settings, i.uid setting = some uid ∧ blocks setting = true := by
  induction settings generalizing set with
  | nil => simp
  | cons setting settings ih =>
    have hone : uid ∈ settingWrite i blocks set setting ↔
        uid ∈ set ∨ i.uid setting = some uid ∧ blocks setting = true := by
      unfold settingWrite addUid
      cases i.uid setting with
      | none => simp
      | some uid' => cases blocks setting <;> simp [or_comm, eq_comm]
    rw [List.foldl_cons, ih, hone, or_assoc, List.exists_mem_cons_iff]

theorem foldl_prepareSetting (s : Session) : settings.foldl (prepareSetting i) s =
    { s with service := { s.service with
        setUidBlockAll :=
          settings.foldl (settingWrite i ApplicationSetting.blockAll) s.service.setUidBlockAll
        setUidBlockQuic :=
          settings.foldl (settingWrite i ApplicationSetting.blockQuic) s.service.setUidBlockQuic } } := by
  induction settings generalizing s with
  | nil => rfl
  | cons setting settings ih =>
    rw [List.foldl_cons, ih]
    cases huid : i.uid setting <;> simp [prepareSetting, settingWrite, huid]

theorem startNative_eq (i : Installation) (s : Session) : startNative i s =
    { mapIPKeyUid := fun _ => none
      mapUidPackageName :=
        i.applicationSettings.foldl (fun m a => Recent.put m (nameWrite i a)) fun _ => none
      service := {
        myUid := s.service.myUid
        setUidBlockAll :=
          i.applicationSettings.foldl (settingWrite i ApplicationSetting.blockAll) []
        setUidBlockQuic :=
          i.applicationSettings.foldl (settingWrite i ApplicationSetting.blockQuic) []
        mapUidRules :=
          i.applicationSettings.foldl (fun m a => Recent.put m (rulesWrite i a)) fun _ => none
        mapGlobalBlockedHosts := fun _ => none
        mapGlobalBlockedIPs := fun _ => none
        mapIPKeySni := fun _ => none
        mapIpUidDomain := fun _ => none } } := by
  rw [startNative, prepareApplicationSettings, foldl_prepareSetting, preparePackageRules,
    foldl_preparePackage]
  rfl

theorem mapUidRules_startNative (i : Installation) (s : Session) (uid : Int) :
    (startNative i s).service.mapUidRules uid = (i.rulesOf uid).map i.tables.getPackageRule := by
  have hwritten : ∀ setting : ApplicationSetting,
      Recent.writtenAt uid (rulesWrite i setting) =
        (if i.uid setting = some uid ∧ i.tables.getPackageRule setting.packageName ≠ [] then
          some setting.packageName else none).map i.tables.getPackageRule := by
    intro setting
    unfold rulesWrite
    cases i.uid setting with
    | none => simp [Recent.writtenAt]
    | some uid' =>
      by_cases hrules : i.tables.getPackageRule setting.packageName = []
      · simp [hrules, Recent.writtenAt]
      · by_cases huid : uid' = uid <;> simp [hrules, huid, Recent.writtenAt]
  have hmap := Recent.replay_apply (rulesWrite i) uid i.applicationSettings fun _ => none
  simp only [startNative_eq, hmap, Option.or_none]
  rw [Installation.rulesOf, ← Recent.last_map, ← Installation.last_applicationSettings]
  · simp only [hwritten]
  · intro setting hnone
    simp [hnone]

theorem mapUidPackageName_startNative (i : Installation) (s : Session) (uid : Int) :
    (startNative i s).mapUidPackageName uid = i.packageOf uid := by
  have hwritten : ∀ setting : ApplicationSetting, Recent.writtenAt uid (nameWrite i setting) =
      if i.uid setting = some uid then some setting.packageName else none := by
    intro setting
    unfold nameWrite
    cases i.uid setting <;> simp [Recent.writtenAt]
  have hmap := Recent.replay_apply (nameWrite i) uid i.applicationSettings fun _ => none
  simp only [startNative_eq, hmap, Option.or_none, hwritten]
  apply Installation.last_applicationSettings
  intro setting hnone
  simp [hnone]

/-- The maps hold what is stored. -/
structure Loaded (i : Installation) (s : Session) : Prop where
  blockAll : ∀ uid, uid ∈ s.service.setUidBlockAll ↔ i.BlocksAll uid
  blockQuic : ∀ uid, uid ∈ s.service.setUidBlockQuic ↔ i.BlocksQuic uid
  rules : ∀ uid (kind : HostType) value,
    s.service.blockedByRule uid value kind.checkTarget = i.verdict uid kind value
  packageName : ∀ uid, s.mapUidPackageName uid = i.packageOf uid

theorem loaded_startNative (i : Installation) (s : Session) : Loaded i (startNative i s) where
  blockAll uid := by
    simp only [startNative_eq, mem_settingWrites, List.not_mem_nil, false_or]
    exact Installation.exists_applicationSettings
  blockQuic uid := by
    simp only [startNative_eq, mem_settingWrites, List.not_mem_nil, false_or]
    exact Installation.exists_applicationSettings
  rules uid kind value := by
    rw [MyVpnService.blockedByRule, mapUidRules_startNative, Installation.verdict]
    cases i.rulesOf uid with
    | none => rfl
    | some packageName => exact checkRules_rows (i.tables.packageRows packageName) kind value
  packageName uid := mapUidPackageName_startNative i s uid

end Session

end Load

end NetGuard.Service
