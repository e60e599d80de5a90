import NetGuard.Service.Uids
import NetGuard.Service.Tables
import NetGuard.Service.Polarity

/-! # What a verdict is made of

The caches are the only thing a check changes. What it answers is said here without
them: the rules first, then the name the connection is known by, then the global lists.
-/
namespace NetGuard.Service

section Rules
variable {value : Text} {target : CheckRuleTarget} {rest : List Rule}

theorem checkRules_whitelist {w : Rule} (htype : w.type = .whitelist) :
    checkRules value target (w :: rest) =
      if value ∈ w.targets target then ⟨false, true⟩
      else if w.targets target ≠ [] ∧ w.whitelistExclusive = true then ⟨true, true⟩
      else checkRules value target rest := by
  by_cases hempty : w.targets target = []
  · simp [checkRules, hempty]
  · simp [checkRules, hempty, htype]

theorem checkRules_blacklist {b : Rule} (htype : b.type = .blacklist) :
    checkRules value target (b :: rest) =
      if b.targets target = [] then checkRules value target rest
      else if value ∈ b.targets target then ⟨true, true⟩ else ⟨false, false⟩ := by
  by_cases hempty : b.targets target = []
  · simp [checkRules, hempty]
  · by_cases hlisted : value ∈ b.targets target
    · simp [checkRules, hempty, htype, hlisted]
    · simp [checkRules, hempty, htype, hlisted]

end Rules

namespace MyVpnService

section Listed
variable (s : MyVpnService) (db : Database)

def hostListed (host : Text) : Bool :=
  if (s.mapGlobalBlockedIPs host).isSome then s.mapGlobalBlockedHosts host == some true
  else queryBoolean (db.containsHost host)

def ipListed (ip : Text) : Bool :=
  match s.mapGlobalBlockedIPs ip with
  | some listed => listed
  | none => queryBoolean (db.containsIp ip)

/-- The caches of hosts that a check may leave: at most one host more, with the answer of
the database, and none that is looked up as an address. -/
def AskedHosts (hosts : Map Text Bool) : Prop :=
  hosts = s.mapGlobalBlockedHosts ∨ ∃ host, s.mapGlobalBlockedIPs host = none ∧
    hosts = s.mapGlobalBlockedHosts.put host (queryBoolean (db.containsHost host))

/-- The middle part of `isAddressAllowed`: the name a connection is known by. -/
def checkDomain (uid : Int) : Option Text → Bool × MyVpnService
  | some domain => if !isBlank domain then s.isDomainBlocked db (toInt uid) domain else (false, s)
  | none => (false, s)

end Listed

variable {s : MyVpnService} {db : Database} {uid : Int} {name ip : Text} {c : Connection}

theorem hostBlockedGlobally_fst : (s.hostBlockedGlobally db name).1 = s.hostListed db name := by
  unfold hostBlockedGlobally hostListed
  split <;> rfl

theorem ipBlockedGlobally_fst : (s.ipBlockedGlobally db ip).1 = s.ipListed db ip := by
  unfold ipBlockedGlobally ipListed
  cases s.mapGlobalBlockedIPs ip with
  | none => rfl
  | some listed => simp

theorem hostBlockedGlobally_snd :
    ∃ hosts, s.AskedHosts db hosts ∧
      (s.hostBlockedGlobally db name).2 = { s with mapGlobalBlockedHosts := hosts } := by
  unfold hostBlockedGlobally
  by_cases hcached : (s.mapGlobalBlockedIPs name).isSome
  · rw [if_pos hcached]
    exact ⟨_, Or.inl rfl, rfl⟩
  · rw [if_neg hcached]
    refine ⟨_, Or.inr ⟨name, ?_, rfl⟩, rfl⟩
    simpa using hcached

/-- The cache of addresses after it was asked for `ip`. -/
def askedIp (s : MyVpnService) (db : Database) (ip : Text) : Map Text Bool :=
  s.mapGlobalBlockedIPs.put ip (s.ipListed db ip)

theorem ipBlockedGlobally_snd :
    (s.ipBlockedGlobally db ip).2 = { s with mapGlobalBlockedIPs := s.askedIp db ip } := by
  unfold ipBlockedGlobally askedIp ipListed
  cases hcached : s.mapGlobalBlockedIPs ip with
  | none => rfl
  | some listed =>
    have hsame : s.mapGlobalBlockedIPs.put ip listed = s.mapGlobalBlockedIPs := by
      rw [Map.put, ← hcached, Function.update_eq_self]
    simp [hsame]

theorem isDomainBlocked_snd (s : MyVpnService) (db : Database) (uid : Int) (name : Text) :
    ∃ hosts, s.AskedHosts db hosts ∧
      (s.isDomainBlocked db uid name).2 = { s with mapGlobalBlockedHosts := hosts } := by
  simp only [isDomainBlocked]
  split
  · exact ⟨_, Or.inl rfl, rfl⟩
  · split
    · split
      · exact ⟨_, Or.inl rfl, rfl⟩
      · split
        · exact ⟨_, Or.inl rfl, rfl⟩
        · exact hostBlockedGlobally_snd
    · exact hostBlockedGlobally_snd

theorem blockedByRule_blocked {value : Text} {target : CheckRuleTarget}
    (h : (s.blockedByRule uid value target).checkFinished = false) :
    (s.blockedByRule uid value target).blocked = false := by
  by_contra hblocked
  unfold blockedByRule at h hblocked
  cases hrules : s.mapUidRules uid with
  | none => simp [hrules] at hblocked
  | some rules =>
    rw [hrules] at h hblocked
    rw [checkRules_blocked (by simpa using hblocked)] at h
    exact absurd h (by decide)

theorem isDomainBlocked_fst (hall : uid ∉ s.setUidBlockAll) (hpos : 0 < uid) :
    (s.isDomainBlocked db uid name).1 =
      if (s.blockedByRule uid (cleanDomain name) .host).checkFinished then
        (s.blockedByRule uid (cleanDomain name) .host).blocked
      else s.hostListed db (cleanDomain name) := by
  have hall' : s.setUidBlockAll.contains uid = false := by simpa using hall
  simp only [isDomainBlocked, hall', Bool.false_eq_true, if_false, gt_iff_lt, if_pos hpos]
  cases hfinished : (s.blockedByRule uid (cleanDomain name) .host).checkFinished with
  | true => simp
  | false => simp [blockedByRule_blocked hfinished, hostBlockedGlobally_fst]

/-- The rules of an app are asked only for a positive uid. -/
theorem isDomainBlocked_fst_of_not_pos (hall : uid ∉ s.setUidBlockAll) (hpos : ¬ 0 < uid) :
    (s.isDomainBlocked db uid name).1 = s.hostListed db (cleanDomain name) := by
  have hall' : s.setUidBlockAll.contains uid = false := by simpa using hall
  simp only [isDomainBlocked, hall', Bool.false_eq_true, if_false, gt_iff_lt, if_neg hpos]
  exact hostBlockedGlobally_fst

theorem isAddressAllowed_blockAll (hall : uid ∈ s.setUidBlockAll) :
    (s.isAddressAllowed db c.version c.protocol c.saddr c.sport c.daddr c.dport uid).1 = false := by
  have hall' : s.setUidBlockAll.contains uid = true := by simpa using hall
  simp only [isAddressAllowed, hall', if_true]

theorem isAddressAllowed_self (hall : uid ∉ s.setUidBlockAll) (hself : uid = s.myUid) :
    (s.isAddressAllowed db c.version c.protocol c.saddr c.sport c.daddr c.dport uid).1 = true := by
  have hall' : s.setUidBlockAll.contains uid = false := by simpa using hall
  simp only [isAddressAllowed, hall', if_pos hself, Bool.false_eq_true, if_false]

theorem checkDomain_snd (s : MyVpnService) (db : Database) (uid : Int) (domain : Option Text) :
    ∃ hosts, s.AskedHosts db hosts ∧
      (s.checkDomain db uid domain).2 = { s with mapGlobalBlockedHosts := hosts } := by
  cases domain with
  | none => exact ⟨_, Or.inl rfl, rfl⟩
  | some domain =>
    by_cases hblank : (!isBlank domain) = true
    · rw [checkDomain, if_pos hblank]
      exact isDomainBlocked_snd s db (toInt uid) domain
    · rw [checkDomain, if_neg hblank]
      exact ⟨_, Or.inl rfl, rfl⟩

theorem isAddressAllowed_undecided (hall : uid ∉ s.setUidBlockAll) (hself : uid ≠ s.myUid)
    (hrules : (s.blockedByRule uid c.daddr .ip).checkFinished = false) :
    s.isAddressAllowed db c.version c.protocol c.saddr c.sport c.daddr c.dport uid =
      let (blocked, s) := s.checkDomain db uid (s.getDomainName (c.key uid))
      let (blocked, s) := if !blocked then s.ipBlockedGlobally db c.daddr else (blocked, s)
      (!blocked, s) := by
  have hall' : s.setUidBlockAll.contains uid = false := by simpa using hall
  have hkey : IPKey.make c.version c.protocol c.saddr c.sport c.daddr c.dport uid = c.key uid :=
    rfl
  cases hdomain : s.getDomainName (c.key uid) with
  | none =>
    simp only [isAddressAllowed, hall', Bool.false_eq_true, if_false, if_neg hself, hrules,
      blockedByRule_blocked hrules, Bool.not_false, if_true, hkey, hdomain, checkDomain]
  | some domain =>
    simp only [isAddressAllowed, hall', Bool.false_eq_true, if_false, if_neg hself, hrules,
      blockedByRule_blocked hrules, Bool.not_false, if_true, hkey, hdomain, checkDomain]
    rfl

/-- Where the rules on addresses finish, their answer is the verdict; elsewhere the name
and then the global list are asked. -/
theorem isAddressAllowed_fst (hall : uid ∉ s.setUidBlockAll) (hself : uid ≠ s.myUid) :
    (s.isAddressAllowed db c.version c.protocol c.saddr c.sport c.daddr c.dport uid).1 =
      if (s.blockedByRule uid c.daddr .ip).checkFinished then
        (s.blockedByRule uid c.daddr .ip).blocked
      else !(s.checkDomain db uid (s.getDomainName (c.key uid))).1 && !s.ipListed db c.daddr := by
  cases hfinished : (s.blockedByRule uid c.daddr .ip).checkFinished with
  | true =>
    have hall' : s.setUidBlockAll.contains uid = false := by simpa using hall
    simp only [isAddressAllowed, hall', Bool.false_eq_true, if_false, if_neg hself, hfinished,
      if_true]
  | false =>
    rw [isAddressAllowed_undecided hall hself hfinished]
    obtain ⟨hosts, -, hstate⟩ := checkDomain_snd s db uid (s.getDomainName (c.key uid))
    have hlisted : { s with mapGlobalBlockedHosts := hosts }.ipListed db c.daddr =
        s.ipListed db c.daddr := rfl
    cases hdomain : (s.checkDomain db uid (s.getDomainName (c.key uid))).1 with
    | true => simp [hdomain]
    | false => simp [hdomain, hstate, ipBlockedGlobally_fst, hlisted]

/-- A verdict leaves the rules and the names as they are. -/
theorem isAddressAllowed_snd (s : MyVpnService) (db : Database) (uid : Int) (c : Connection) :
    ∃ hosts ips, s.AskedHosts db hosts ∧
      (s.isAddressAllowed db c.version c.protocol c.saddr c.sport c.daddr c.dport uid).2 =
        { s with mapGlobalBlockedHosts := hosts, mapGlobalBlockedIPs := ips } ∧
      (ips = s.mapGlobalBlockedIPs ∨ ips = s.askedIp db c.daddr) := by
  by_cases hall : uid ∈ s.setUidBlockAll
  · have hall' : s.setUidBlockAll.contains uid = true := by simpa using hall
    refine ⟨s.mapGlobalBlockedHosts, _, Or.inl rfl, ?_, Or.inl rfl⟩
    simp only [isAddressAllowed, hall', if_true]
  · have hall' : s.setUidBlockAll.contains uid = false := by simpa using hall
    by_cases hself : uid = s.myUid
    · refine ⟨s.mapGlobalBlockedHosts, _, Or.inl rfl, ?_, Or.inl rfl⟩
      simp only [isAddressAllowed, hall', Bool.false_eq_true, if_false, if_pos hself]
    · cases hfinished : (s.blockedByRule uid c.daddr .ip).checkFinished with
      | true =>
        refine ⟨s.mapGlobalBlockedHosts, _, Or.inl rfl, ?_, Or.inl rfl⟩
        simp only [isAddressAllowed, hall', Bool.false_eq_true, if_false, if_neg hself,
          hfinished, if_true]
      | false =>
        rw [isAddressAllowed_undecided hall hself hfinished]
        obtain ⟨hosts, hasked, hstate⟩ :=
          checkDomain_snd s db uid (s.getDomainName (c.key uid))
        cases hdomain : (s.checkDomain db uid (s.getDomainName (c.key uid))).1 with
        | true => exact ⟨hosts, _, hasked, by simpa [hdomain] using hstate, Or.inl rfl⟩
        | false =>
          refine ⟨hosts, s.askedIp db c.daddr, hasked, ?_, Or.inr rfl⟩
          simp only [hdomain, hstate, Bool.not_false, if_true]
          exact ipBlockedGlobally_snd (s := { s with mapGlobalBlockedHosts := hosts })

end MyVpnService

end NetGuard.Service
