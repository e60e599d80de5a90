import NetGuard.Service.Decision

/-! # What the lists of an app do

The lists are those that `getPackageRule` loads. A host of the blacklist is refused under
its own name. An exclusive whitelist and a whitelisted domain do what they are for only
where the rules on addresses do not answer first.
-/
namespace NetGuard.Service

section Names
variable {h name : Text}

theorem cleanDomain_of_not_prefix (hwww : ¬ "www.".toList <+: h) : cleanDomain h = h := by
  have hfalse : ¬ "www.".toList.isPrefixOf h = true := by
    rw [List.isPrefixOf_iff_prefix]
    exact hwww
  exact if_neg hfalse

theorem cleanDomain_www (h : Text) : cleanDomain ("www.".toList ++ h) = h := by
  have htrue : "www.".toList.isPrefixOf ("www.".toList ++ h) = true :=
    List.isPrefixOf_iff_prefix.mpr (List.prefix_append _ _)
  rw [cleanDomain, if_pos htrue]
  rfl

end Names

section Loaded
variable {tables : Tables} {packageName : Text}

/-- A whitelist keeps `name` from the blacklist: an exclusive one with any target, or any
one that holds the name. -/
def Tables.Overrides (tables : Tables) (packageName name : Text) : Prop :=
  (tables.HasExclusive packageName ∧ ∃ kind t, tables.Stores packageName .whitelist kind t) ∨
    tables.Stores packageName .whitelist .host name

theorem Rule.exists_target_of_not_void {rule : Rule} (h : rule.isVoid = false) :
    ∃ (kind : HostType) (t : Text), t ∈ rule.targets kind.checkTarget := by
  by_cases hips : rule.ips = []
  · have hhosts : rule.hosts ≠ [] := by
      intro hhosts
      simp [Rule.isVoid, hips, hhosts] at h
    obtain ⟨t, ht⟩ := List.exists_mem_of_ne_nil _ hhosts
    exact ⟨.host, t, ht⟩
  · obtain ⟨t, ht⟩ := List.exists_mem_of_ne_nil _ hips
    exact ⟨.ip, t, ht⟩

theorem checkRules_stored {name : Text} (hstored : tables.Stores packageName .blacklist .host name)
    (hover : ¬ tables.Overrides packageName name) :
    checkRules name .host (tables.getPackageRule packageName) = ⟨true, true⟩ := by
  have hblack : name ∈ (tables.gather packageName).blacklist.hosts :=
    (mem_hosts_gather .blacklist).mpr hstored
  have hne : (tables.gather packageName).blacklist.hosts ≠ [] := List.ne_nil_of_mem hblack
  have hvoid : (tables.gather packageName).blacklist.isVoid = false := by
    simp [Rule.isVoid, hne]
  have hbtype : (tables.gather packageName).blacklist.type = .blacklist := gather_type .blacklist
  have hwtype : (tables.gather packageName).whitelist.type = .whitelist := gather_type .whitelist
  have hb : checkRules name .host [(tables.gather packageName).blacklist] = ⟨true, true⟩ := by
    rw [checkRules_blacklist hbtype]
    exact (if_neg hne).trans (if_pos hblack)
  rw [Tables.getPackageRule, PackageRules.toList_eq, hvoid]
  cases hwhite : (tables.gather packageName).whitelist.isVoid with
  | true => simpa using hb
  | false =>
    obtain ⟨kind, t, ht⟩ := Rule.exists_target_of_not_void hwhite
    have hexclusive : (tables.gather packageName).whitelist.whitelistExclusive = false := by
      rw [← Bool.not_eq_true, gather_exclusive]
      intro hhas
      exact hover (Or.inl ⟨hhas, kind, t, (mem_gather .whitelist kind).mp ht⟩)
    have hname : name ∉ (tables.gather packageName).whitelist.hosts := by
      intro hmem
      exact hover (Or.inr ((mem_hosts_gather .whitelist).mp hmem))
    simp only [Bool.false_eq_true, if_false, Bool.false_or, hexclusive, Bool.not_false,
      Bool.and_self, if_true, List.singleton_append]
    rw [checkRules_whitelist hwtype]
    refine (if_neg hname).trans ((if_neg ?_).trans hb)
    simp [hexclusive]

theorem MyVpnService.isDomainBlocked_stored (s : MyVpnService) (db : Database) (uid : Int)
    (tables : Tables) (packageName h name : Text) (hpos : 0 < uid)
    (hrules : s.mapUidRules uid = some (tables.getPackageRule packageName))
    (hstored : tables.Stores packageName .blacklist .host h)
    (hover : ¬ tables.Overrides packageName (cleanDomain name)) (hwww : ¬ "www.".toList <+: h)
    (hname : name = h ∨ name = "www.".toList ++ h) :
    (s.isDomainBlocked db uid name).1 = true := by
  have hclean : cleanDomain name = h := by
    rcases hname with rfl | rfl
    · exact cleanDomain_of_not_prefix hwww
    · exact cleanDomain_www h
  rw [hclean] at hover
  by_cases hall : uid ∈ s.setUidBlockAll
  · have hall' : s.setUidBlockAll.contains uid = true := by simpa using hall
    simp only [isDomainBlocked, hall', if_true]
  · rw [isDomainBlocked_fst hall hpos]
    simp [blockedByRule, hrules, hclean, checkRules_stored hstored hover]

end Loaded

section Samples

/-- One app with one rule and its hosts. -/
def Tables.sample (type : RuleType) (whitelistExclusive : Bool)
    (targets : List (Text × HostType)) : Tables where
  rules := [⟨"1".toList, "app".toList, true, type, whitelistExclusive⟩]
  hosts := targets.map fun t => ⟨some "1".toList, t.1, t.2⟩

def MyVpnService.ofTables (tables : Tables) : MyVpnService where
  myUid := 10000
  setUidBlockAll := []
  setUidBlockQuic := []
  mapUidRules := fun uid =>
    if uid = 10001 then some (tables.getPackageRule "app".toList) else none
  mapGlobalBlockedHosts := fun _ => none
  mapGlobalBlockedIPs := fun _ => none
  mapIPKeySni := fun _ => none
  mapIpUidDomain := fun _ => none

def Tables.blacklistSample : Tables :=
  .sample .blacklist false [("example.com".toList, .host), ("www.example.org".toList, .host)]

theorem Tables.blacklistSample_not_overrides (name : Text) :
    ¬ blacklistSample.Overrides "app".toList name := by
  rintro (⟨⟨r, hr, -, -, htype, -⟩, -⟩ | ⟨r, hr, -, -, htype, -⟩)
  · obtain rfl := List.mem_singleton.mp hr
    exact absurd htype (by decide)
  · obtain rfl := List.mem_singleton.mp hr
    exact absurd htype (by decide)

theorem Tables.blacklistSample_stores :
    blacklistSample.Stores "app".toList .blacklist .host "example.com".toList ∧
      blacklistSample.Stores "app".toList .blacklist .host "www.example.org".toList := by
  constructor
  · exact ⟨_, List.mem_cons_self, rfl, rfl, rfl, _, List.mem_cons_self, rfl, rfl, rfl⟩
  · exact ⟨_, List.mem_cons_self, rfl, rfl, rfl, _,
      List.mem_cons_of_mem _ List.mem_cons_self, rfl, rfl, rfl⟩

end Samples

theorem MyVpnService.isDomainBlocked_stored_sample :
    ((ofTables .blacklistSample).isDomainBlocked .empty 10001 "www.example.com".toList).1 = true :=
  isDomainBlocked_stored _ .empty 10001 .blacklistSample "app".toList "example.com".toList _
    (by decide) rfl Tables.blacklistSample_stores.1 (Tables.blacklistSample_not_overrides _)
    (by decide) (Or.inr rfl)

/-- A stored host is allowed in capitals, under its own name if that starts with `www.`,
and to an app whose uid is 0. -/
theorem MyVpnService.not_isDomainBlocked_stored :
    (Tables.blacklistSample.Stores "app".toList .blacklist .host "example.com".toList ∧
      ¬ Tables.blacklistSample.Overrides "app".toList (cleanDomain "EXAMPLE.com".toList) ∧
      "EXAMPLE.com".toList.map Char.toLower = "example.com".toList.map Char.toLower ∧
      ((ofTables .blacklistSample).isDomainBlocked .empty 10001 "EXAMPLE.com".toList).1 = false) ∧
    (Tables.blacklistSample.Stores "app".toList .blacklist .host "www.example.org".toList ∧
      ¬ Tables.blacklistSample.Overrides "app".toList (cleanDomain "www.example.org".toList) ∧
      ((ofTables .blacklistSample).isDomainBlocked .empty 10001
        "www.example.org".toList).1 = false) ∧
    (¬ Tables.blacklistSample.Overrides "app".toList (cleanDomain "example.com".toList) ∧
      (isDomainBlocked .empty 0 "example.com".toList { ofTables .blacklistSample with
        mapUidRules := fun _ =>
          some (Tables.blacklistSample.getPackageRule "app".toList) }).1 = false) := by
  obtain ⟨hcom, horg⟩ := Tables.blacklistSample_stores
  have hover := Tables.blacklistSample_not_overrides
  refine ⟨⟨hcom, hover _, ?_, ?_⟩, ⟨horg, hover _, ?_⟩, hover _, ?_⟩
  · decide
  · decide
  · decide
  · decide

section Whitelist
variable {s : MyVpnService} {db : Database} {c : Connection} {uid : Int32} {w : Rule}

/-- The name is checked by the rules on hosts that a whitelist comes first in. -/
theorem MyVpnService.checkDomain_whitelist {rest : List Rule} {domain : Text}
    (hpos : 0 < uid.toInt) (hall : uid.toInt ∉ s.setUidBlockAll)
    (hrules : s.mapUidRules uid.toInt = some (w :: rest)) (htype : w.type = .whitelist)
    (hblank : isBlank domain = false) :
    (s.checkDomain db uid.toInt (some domain)).1 =
      if cleanDomain domain ∈ w.hosts then false
      else if w.hosts ≠ [] ∧ w.whitelistExclusive = true then true
      else if (checkRules (cleanDomain domain) .host rest).checkFinished then
        (checkRules (cleanDomain domain) .host rest).blocked
      else s.hostListed db (cleanDomain domain) := by
  have hblank' : (!isBlank domain) = true := by simp [hblank]
  have hcheck : s.blockedByRule uid.toInt (cleanDomain domain) .host =
      if cleanDomain domain ∈ w.hosts then ⟨false, true⟩
      else if w.hosts ≠ [] ∧ w.whitelistExclusive = true then ⟨true, true⟩
      else checkRules (cleanDomain domain) .host rest := by
    simp only [blockedByRule, hrules]
    exact checkRules_whitelist htype
  rw [checkDomain, if_pos hblank', toInt_int32, isDomainBlocked_fst hall hpos, hcheck]
  by_cases hmem : cleanDomain domain ∈ w.hosts
  · rw [if_pos hmem, if_pos hmem]
    rfl
  · rw [if_neg hmem, if_neg hmem]
    by_cases hexclusive : w.hosts ≠ [] ∧ w.whitelistExclusive = true
    · rw [if_pos hexclusive, if_pos hexclusive]
      rfl
    · rw [if_neg hexclusive, if_neg hexclusive]

theorem MyVpnService.blockedByRule_whitelist_ip {rest : List Rule}
    (hrules : s.mapUidRules uid.toInt = some (w :: rest)) (htype : w.type = .whitelist) :
    s.blockedByRule uid.toInt c.daddr .ip =
      if c.daddr ∈ w.ips then ⟨false, true⟩
      else if w.ips ≠ [] ∧ w.whitelistExclusive = true then ⟨true, true⟩
      else checkRules c.daddr .ip rest := by
  simp only [blockedByRule, hrules]
  exact checkRules_whitelist htype

theorem MyVpnService.checkDomain_of_not_pos {domain : Text} (hpos : ¬ 0 < uid.toInt)
    (hall : uid.toInt ∉ s.setUidBlockAll) (hblank : isBlank domain = false) :
    (s.checkDomain db uid.toInt (some domain)).1 = s.hostListed db (cleanDomain domain) := by
  have hblank' : (!isBlank domain) = true := by simp [hblank]
  rw [checkDomain, if_pos hblank', toInt_int32]
  exact isDomainBlocked_fst_of_not_pos hall hpos

/-- What the check of a name refuses under an exclusive whitelist with nothing else loaded. -/
def MyVpnService.RefusedName (s : MyVpnService) (db : Database) (uid : Int) (w : Rule)
    (name : Text) : Prop :=
  (0 < uid ∧ name ∉ w.hosts) ∨ (¬ 0 < uid ∧ s.hostListed db name = true)

/-- Such a whitelist allows an address in two ways: it is missing from a list of
addresses, or there is no such list and neither the name nor the global list speaks
against it. -/
theorem MyVpnService.isAddressAllowed_exclusive (hall : uid.toInt ∉ s.setUidBlockAll)
    (hself : uid.toInt ≠ s.myUid) (hrules : s.mapUidRules uid.toInt = some [w])
    (htype : w.type = .whitelist) (hexclusive : w.whitelistExclusive = true)
    (hvoid : w.isVoid = false) :
    (s.isAddressAllowed db c.version c.protocol c.saddr c.sport c.daddr c.dport uid.toInt).1 =
        true ↔
      c.daddr ∉ w.ips ∧ (w.ips ≠ [] ∨ (s.ipListed db c.daddr = false ∧
        ∀ d, s.getDomainName (c.key uid.toInt) = some d → isBlank d = false →
          ¬ s.RefusedName db uid.toInt w (cleanDomain d))) := by
  have hip := blockedByRule_whitelist_ip (c := c) hrules htype
  rw [isAddressAllowed_fst hall hself]
  by_cases hmem : c.daddr ∈ w.ips
  · rw [if_pos hmem] at hip
    simp [hip, hmem]
  · rw [if_neg hmem] at hip
    by_cases hips : w.ips = []
    · have hhosts : w.hosts ≠ [] := by
        intro hhosts
        simp [Rule.isVoid, hips, hhosts] at hvoid
      rw [if_neg fun h => h.1 hips, checkRules] at hip
      rw [hip, if_neg Bool.false_ne_true, Bool.and_eq_true, Bool.not_eq_true', Bool.not_eq_true',
        and_comm]
      simp only [hips, List.not_mem_nil, not_false_eq_true, true_and, ne_eq, not_true_eq_false,
        false_or]
      apply and_congr_right
      intro _
      cases hdomain : s.getDomainName (c.key uid.toInt) with
      | none => simp [checkDomain]
      | some d =>
        cases hblank : isBlank d with
        | true => simp [checkDomain, hblank]
        | false =>
          by_cases hpos : 0 < uid.toInt
          · rw [checkDomain_whitelist hpos hall hrules htype hblank]
            by_cases hd : cleanDomain d ∈ w.hosts
            · simp [RefusedName, hd, hpos]
            · simp [RefusedName, hd, hhosts, hexclusive, hblank, hpos]
          · rw [checkDomain_of_not_pos hpos hall hblank]
            simp [RefusedName, hblank, hpos]
    · rw [if_pos ⟨hips, hexclusive⟩] at hip
      simp [hip, hmem, hips]

/-- An exclusive whitelist is exclusive exactly where no list of addresses opens the rest. -/
theorem MyVpnService.isAddressAllowed_exclusive_iff (s : MyVpnService) (db : Database)
    (c : Connection) (uid : Int32) (tables : Tables) (packageName : Text) (w : Rule)
    (hself : uid.toInt ≠ s.myUid)
    (hrules : s.mapUidRules uid.toInt = some (tables.getPackageRule packageName))
    (hw : w ∈ tables.getPackageRule packageName) (htype : w.type = .whitelist)
    (hexclusive : w.whitelistExclusive = true) :
    ((s.isAddressAllowed db c.version c.protocol c.saddr c.sport c.daddr c.dport uid.toInt).1 =
        true →
      c.daddr ∈ w.ips ∨ ∃ d, s.getDomainName (c.key uid.toInt) = some d ∧ d ∈ w.hosts) ↔
    uid.toInt ∈ s.setUidBlockAll ∨ c.daddr ∈ w.ips ∨
      (∃ d, s.getDomainName (c.key uid.toInt) = some d ∧ d ∈ w.hosts) ∨
      (w.ips = [] ∧ (s.ipListed db c.daddr = true ∨
        ∃ d, s.getDomainName (c.key uid.toInt) = some d ∧ isBlank d = false ∧
          s.RefusedName db uid.toInt w (cleanDomain d))) := by
  rw [getPackageRule_exclusive hw htype hexclusive] at hrules
  have hvoid := not_isVoid_of_mem hw
  by_cases hall : uid.toInt ∈ s.setUidBlockAll
  · refine iff_of_true ?_ (Or.inl hall)
    intro hallowed
    rw [isAddressAllowed_blockAll hall] at hallowed
    exact absurd hallowed (by decide)
  · rw [isAddressAllowed_exclusive hall hself hrules htype hexclusive hvoid, or_iff_right hall]
    constructor
    · intro himp
      by_contra hnot
      simp only [not_or, not_and] at hnot
      obtain ⟨hip, hdomain, hrest⟩ := hnot
      have hallowed : w.ips ≠ [] ∨ (s.ipListed db c.daddr = false ∧
          ∀ d, s.getDomainName (c.key uid.toInt) = some d → isBlank d = false →
            ¬ s.RefusedName db uid.toInt w (cleanDomain d)) := by
        by_cases hips : w.ips = []
        · obtain ⟨hlisted, hnames⟩ := hrest hips
          refine Or.inr ⟨by simpa using hlisted, ?_⟩
          intro d hd hblank hrefused
          exact hnames ⟨d, hd, hblank, hrefused⟩
        · exact Or.inl hips
      rcases himp ⟨hip, hallowed⟩ with h | h
      · exact hip h
      · exact hdomain h
    · rintro (hip | hdomain | ⟨hips, hrest⟩) ⟨hnot, hallowed⟩
      · exact Or.inl hip
      · exact Or.inr hdomain
      · rcases hallowed with hips' | ⟨hlisted, hnames⟩
        · exact (hips' hips).elim
        · rcases hrest with hlisted' | ⟨d, hd, hblank, hrefused⟩
          · rw [hlisted] at hlisted'
            exact absurd hlisted' (by decide)
          · exact (hnames d hd hblank hrefused).elim

def Tables.exclusiveSample (ip : String) : Tables := .sample .whitelist true [(ip.toList, .ip)]

theorem MyVpnService.isAddressAllowed_exclusive_sample :
    (Tables.exclusiveSample "93.184.216.34").getPackageRule "app".toList =
        [⟨.whitelist, true, [], ["93.184.216.34".toList]⟩] ∧
      (((ofTables (.exclusiveSample "93.184.216.34")).isAddressAllowed .empty 4 6
          "10.1.10.1".toList 40000 "93.184.216.34".toList 443 10001).1 = true →
        "93.184.216.34".toList ∈ ["93.184.216.34".toList] ∨
          ∃ d, (ofTables (.exclusiveSample "93.184.216.34")).getDomainName
            ((Connection.toSample 40000).key 10001) = some d ∧ d ∈ []) := by
  refine ⟨by decide, ?_⟩
  apply (isAddressAllowed_exclusive_iff (ofTables (.exclusiveSample "93.184.216.34")) .empty
    (.toSample 40000) 10001 (.exclusiveSample "93.184.216.34") "app".toList
    ⟨.whitelist, true, [], ["93.184.216.34".toList]⟩ (by decide) rfl (by decide) rfl rfl).mpr
  exact Or.inr (Or.inl (by decide))

/-- With another address in the whitelist the server is allowed, and with another host in
it as well, as its name is not known. -/
theorem MyVpnService.not_isAddressAllowed_exclusive :
    ((Tables.exclusiveSample "1.1.1.1").getPackageRule "app".toList =
        [⟨.whitelist, true, [], ["1.1.1.1".toList]⟩] ∧
      (ofTables (.exclusiveSample "1.1.1.1")).getDomainName
        ((Connection.toSample 40000).key 10001) = none ∧
      ((ofTables (.exclusiveSample "1.1.1.1")).isAddressAllowed .empty 4 6
        "10.1.10.1".toList 40000 "93.184.216.34".toList 443 10001).1 = true) ∧
    ((Tables.sample .whitelist true [("a.b".toList, .host)]).getPackageRule "app".toList =
        [⟨.whitelist, true, ["a.b".toList], []⟩] ∧
      (ofTables (.sample .whitelist true [("a.b".toList, .host)])).getDomainName
        ((Connection.toSample 40000).key 10001) = none ∧
      ((ofTables (.sample .whitelist true [("a.b".toList, .host)])).isAddressAllowed .empty 4 6
        "10.1.10.1".toList 40000 "93.184.216.34".toList 443 10001).1 = true) := by
  decide

theorem checkRules_atMostBlacklist {rest : List Rule} {value : Text} {target : CheckRuleTarget}
    (hrest : rest = [] ∨ ∃ b, b.type = .blacklist ∧ rest = [b]) :
    checkRules value target rest =
      if ∃ b ∈ rest, value ∈ b.targets target then ⟨true, true⟩ else ⟨false, false⟩ := by
  rcases hrest with rfl | ⟨b, htype, rfl⟩
  · simp [checkRules]
  · rw [checkRules_blacklist htype]
    by_cases hempty : b.targets target = []
    · simp [checkRules, hempty]
    · simp [hempty]

theorem silent_iff {rest : List Rule} (value : Text) (target : CheckRuleTarget)
    (htype : w.type = .whitelist) (hrest : rest = [] ∨ ∃ b, b.type = .blacklist ∧ rest = [b]) :
    (∀ b ∈ w :: rest, b.type = .blacklist → value ∉ b.targets target) ↔
      ¬ ∃ b ∈ rest, value ∈ b.targets target := by
  rcases hrest with rfl | ⟨b, hb, rfl⟩
  · simp [htype]
  · simp [htype, hb]

/-- The name of a whitelisted domain passes: under it without its `www.`, or, where only
the global list is asked, as one that is not listed. -/
def MyVpnService.PassedName (s : MyVpnService) (db : Database) (uid : Int) (w : Rule)
    (blacklists : List Rule) (name : Text) : Prop :=
  (0 < uid ∧ (name ∈ w.hosts ∨ (w.whitelistExclusive = false ∧
    (∀ b ∈ blacklists, b.type = .blacklist → name ∉ b.hosts) ∧ s.hostListed db name = false))) ∨
    (¬ 0 < uid ∧ s.hostListed db name = false)

theorem MyVpnService.checkDomain_whitelisted {rest : List Rule} {d : Text}
    (hall : uid.toInt ∉ s.setUidBlockAll) (hrules : s.mapUidRules uid.toInt = some (w :: rest))
    (htype : w.type = .whitelist) (hrest : rest = [] ∨ ∃ b, b.type = .blacklist ∧ rest = [b])
    (hd : d ∈ w.hosts) :
    (s.checkDomain db uid.toInt (some d)).1 = false ↔
      isBlank d = true ∨ s.PassedName db uid.toInt w (w :: rest) (cleanDomain d) := by
  have hne : w.hosts ≠ [] := List.ne_nil_of_mem hd
  have hblacklists : (∀ b ∈ w :: rest, b.type = .blacklist → cleanDomain d ∉ b.hosts) ↔
      ¬ ∃ b ∈ rest, cleanDomain d ∈ b.targets .host := silent_iff _ .host htype hrest
  rw [PassedName, hblacklists]
  cases hblank : isBlank d with
  | true => simp [checkDomain, hblank]
  | false =>
    by_cases hpos : 0 < uid.toInt
    · rw [checkDomain_whitelist hpos hall hrules htype hblank, checkRules_atMostBlacklist hrest]
      by_cases hmem : cleanDomain d ∈ w.hosts
      · simp [hmem, hpos]
      · cases hexclusive : w.whitelistExclusive with
        | true => simp [hmem, hne, hpos]
        | false =>
          rw [if_neg hmem, if_neg (fun h => Bool.false_ne_true h.2)]
          by_cases hblack : ∃ b ∈ rest, cleanDomain d ∈ b.targets .host
          · rw [if_pos hblack]
            simp [hblack, hmem, hpos]
          · rw [if_neg hblack]
            simp [hblack, hmem, hpos]
    · rw [checkDomain_of_not_pos hpos hall hblank]
      simp [hpos]

/-- A whitelisted domain is reachable exactly where the rules on addresses let the
address through or keep silent, and the global list of addresses keeps silent with them. -/
theorem MyVpnService.isAddressAllowed_whitelisted_iff (s : MyVpnService) (db : Database)
    (c : Connection) (uid : Int32) (tables : Tables) (packageName : Text) (w : Rule) (d : Text)
    (hall : uid.toInt ∉ s.setUidBlockAll)
    (hrules : s.mapUidRules uid.toInt = some (tables.getPackageRule packageName))
    (hw : w ∈ tables.getPackageRule packageName) (htype : w.type = .whitelist)
    (hdomain : s.getDomainName (c.key uid.toInt) = some d) (hd : d ∈ w.hosts)
    (hblack : ∀ b ∈ tables.getPackageRule packageName, b.type = .blacklist → c.daddr ∉ b.ips) :
    (s.isAddressAllowed db c.version c.protocol c.saddr c.sport c.daddr c.dport uid.toInt).1 =
        true ↔
      uid.toInt = s.myUid ∨ (c.daddr ∉ w.ips ∧
        ((w.ips ≠ [] ∧ w.whitelistExclusive = true) ∨
          (s.ipListed db c.daddr = false ∧
            (isBlank d = true ∨ s.PassedName db uid.toInt w (tables.getPackageRule packageName)
              (cleanDomain d))))) := by
  obtain ⟨rest, heq, hrest⟩ : ∃ rest, tables.getPackageRule packageName = w :: rest ∧
      (rest = [] ∨ ∃ b, b.type = .blacklist ∧ rest = [b]) := by
    rcases getPackageRule_whitelist hw htype with hlist | ⟨-, b, hb, hlist⟩
    · exact ⟨[], hlist, Or.inl rfl⟩
    · exact ⟨[b], hlist, Or.inr ⟨b, hb, rfl⟩⟩
  rw [heq] at hrules hblack
  have hsilent : ¬ ∃ b ∈ rest, c.daddr ∈ b.targets .ip := (silent_iff _ .ip htype hrest).mp hblack
  rw [heq]
  by_cases hself : uid.toInt = s.myUid
  · exact iff_of_true (isAddressAllowed_self hall hself) (Or.inl hself)
  · rw [or_iff_right hself, isAddressAllowed_fst hall hself]
    have hip := blockedByRule_whitelist_ip (c := c) hrules htype
    by_cases hmem : c.daddr ∈ w.ips
    · rw [if_pos hmem] at hip
      simp [hip, hmem]
    · rw [if_neg hmem] at hip
      by_cases hexclusive : w.ips ≠ [] ∧ w.whitelistExclusive = true
      · rw [if_pos hexclusive] at hip
        simp [hip, hmem, hexclusive]
      · rw [if_neg hexclusive, checkRules_atMostBlacklist hrest, if_neg hsilent] at hip
        rw [hip, if_neg Bool.false_ne_true, Bool.and_eq_true, Bool.not_eq_true',
          Bool.not_eq_true', hdomain, checkDomain_whitelisted hall hrules htype hrest hd,
          and_comm, or_iff_right hexclusive, and_iff_right hmem]

/-- The service knows every address by one name. -/
def MyVpnService.knowing (s : MyVpnService) (domain : String) : MyVpnService :=
  { s with mapIpUidDomain := fun _ => some domain.toList }

theorem MyVpnService.isAddressAllowed_whitelisted_sample :
    (((ofTables (.sample .whitelist false [("a.b".toList, .host)])).knowing
      "a.b").isAddressAllowed .empty 4 6 "10.1.10.1".toList 40000
        "93.184.216.34".toList 443 10001).1 = true :=
  (isAddressAllowed_whitelisted_iff
    ((ofTables (.sample .whitelist false [("a.b".toList, .host)])).knowing "a.b") .empty
    (.toSample 40000) 10001 (.sample .whitelist false [("a.b".toList, .host)]) "app".toList
    ⟨.whitelist, false, ["a.b".toList], []⟩ "a.b".toList (by decide) rfl (by decide) rfl rfl
    (by decide) (by decide)).mpr
    (Or.inr ⟨by decide, Or.inr ⟨rfl, Or.inr (Or.inl ⟨by decide, Or.inl (by decide)⟩)⟩⟩)

/-- A whitelisted domain is refused if its address is in the whitelist too, or in the
global list. -/
theorem MyVpnService.not_isAddressAllowed_whitelisted :
    ((Tables.sample .whitelist false
          [("a.b".toList, .host), ("93.184.216.34".toList, .ip)]).getPackageRule "app".toList =
        [⟨.whitelist, false, ["a.b".toList], ["93.184.216.34".toList]⟩] ∧
      (((ofTables (.sample .whitelist false
          [("a.b".toList, .host), ("93.184.216.34".toList, .ip)])).knowing "a.b").isAddressAllowed
        .empty 4 6 "10.1.10.1".toList 40000 "93.184.216.34".toList 443 10001).1 = false) ∧
    ((Tables.sample .whitelist false [("a.b".toList, .host)]).getPackageRule "app".toList =
        [⟨.whitelist, false, ["a.b".toList], []⟩] ∧
      (((ofTables (.sample .whitelist false [("a.b".toList, .host)])).knowing
          "a.b").isAddressAllowed (.ofHosts [⟨none, "93.184.216.34".toList, .ip⟩]) 4 6
        "10.1.10.1".toList 40000 "93.184.216.34".toList 443 10001).1 = false) := by
  decide

end Whitelist

end NetGuard.Service
