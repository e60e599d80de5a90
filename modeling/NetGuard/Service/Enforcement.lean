import NetGuard.Analysis.Groups
import NetGuard.Service.Loading
import NetGuard.Service.Remembered

/-! # What a session enforces

Between one start and the next the engine tells names, caches uids, asks and logs, in any
order. What it is answered is said here without the maps of the service: by the settings and
rules that the start has loaded, by what was told last, and by the global lists. These are not
loaded: each call queries the database as it is then, and a query may fail.
-/
namespace NetGuard.Service
open Analysis (TrafficLog)

section Keys

theorem underscore_not_mem_toString (n : Int) : '_' ∉ (toString n).toList := by
  have hnat : ∀ n : Nat, '_' ∉ n.repr.toList := by
    intro n hmem
    rw [Nat.toList_repr] at hmem
    exact Nat.underscore_not_in_toDigits hmem
  intro hmem
  cases n with
  | ofNat n => exact hnat n hmem
  | negSucc n =>
    have hrepr : toString (Int.negSucc n) = "-" ++ (n + 1).repr := rfl
    rw [hrepr, String.toList_append, List.mem_append] at hmem
    rcases hmem with hsign | hdigit
    · exact absurd hsign (by decide)
    · exact hnat (n + 1) hdigit

theorem toString_injective {n m : Int} (h : (toString n).toList = (toString m).toList) : n = m := by
  have hnat : ∀ {n m : Nat}, n.repr.toList = m.repr.toList → n = m := by
    intro n m h
    rw [Nat.toList_repr, Nat.toList_repr] at h
    rw [← Nat.ofDigitChars_ten_toDigits (n := n), h, Nat.ofDigitChars_ten_toDigits]
  have hsign : ∀ n m : Nat, n.repr.toList ≠ '-' :: m.repr.toList := by
    intro n m h
    have hmem : '-' ∈ Nat.toDigits 10 n := by
      rw [← Nat.toList_repr, h]
      exact List.mem_cons_self
    exact absurd (Nat.isDigit_of_mem_toDigits (by decide) (by decide) hmem) (by decide)
  have hneg : ∀ n : Nat, (toString (Int.negSucc n)).toList = '-' :: (n + 1).repr.toList := by
    intro n
    have hrepr : toString (Int.negSucc n) = "-" ++ (n + 1).repr := rfl
    rw [hrepr, String.toList_append]
    rfl
  cases n with
  | ofNat n =>
    cases m with
    | ofNat m => exact congrArg Int.ofNat (hnat h)
    | negSucc m => exact (hsign _ _ (h.trans (hneg m))).elim
  | negSucc n =>
    cases m with
    | ofNat m => exact (hsign _ _ (h.symm.trans (hneg n))).elim
    | negSucc m =>
      rw [hneg, hneg, List.cons.injEq] at h
      exact congrArg Int.negSucc (Nat.succ.inj (hnat h.2))

theorem cut_unique {x x' z z' : Text} {c : Char} (hx : c ∉ x) (hx' : c ∉ x')
    (h : x ++ c :: z = x' ++ c :: z') : x = x' ∧ z = z' := by
  rcases List.append_eq_append_iff.mp h with ⟨rest, rfl, hrest⟩ | ⟨rest, rfl, hrest⟩
  · cases rest with
    | nil => simpa using hrest
    | cons d rest =>
      obtain ⟨rfl, -⟩ := List.cons.inj hrest
      simp at hx'
  · cases rest with
    | nil => simpa [eq_comm] using hrest
    | cons d rest =>
      obtain ⟨rfl, -⟩ := List.cons.inj hrest
      simp at hx

/-- The key is a string, but no two pairs of an address and a uid share one. -/
theorem getMapIpUidDomainKey_inj {ip ip' : Text} {uid uid' : Int} :
    getMapIpUidDomainKey ip uid = getMapIpUidDomainKey ip' uid' ↔ ip = ip' ∧ uid = uid' := by
  constructor
  · intro h
    have hreverse := congrArg List.reverse h
    simp only [getMapIpUidDomainKey, List.reverse_append, List.reverse_cons, List.append_assoc,
      List.singleton_append] at hreverse
    have hfree : ∀ n : Int, '_' ∉ (toString n).toList.reverse := by
      intro n hmem
      exact underscore_not_mem_toString n (List.mem_reverse.mp hmem)
    -- the uid is what stands behind the last underscore
    obtain ⟨huid, hip⟩ := cut_unique (hfree uid) (hfree uid') hreverse
    exact ⟨List.reverse_inj.mp hip, toString_injective (List.reverse_inj.mp huid)⟩
  · rintro ⟨rfl, rfl⟩
    rfl

theorem Connection.SharesKey.symm {c d : Connection} (h : c.SharesKey d) : d.SharesKey c :=
  (Connection.identity_eq_iff 0).mp ((Connection.identity_eq_iff 0).mpr h).symm

theorem identity_key_iff {c d : Connection} {uid uid' : Int} :
    (c.key uid).identity = (d.key uid').identity ↔ c.SharesKey d ∧ uid = uid' := by
  constructor
  · intro h
    have huid : uid = uid' := congrArg IPKey.Identity.uid h
    subst huid
    exact ⟨(Connection.identity_eq_iff uid).mp h, rfl⟩
  · rintro ⟨hshares, rfl⟩
    exact (Connection.identity_eq_iff uid).mpr hshares

end Keys

section Calls

/-- The calls of the engine. The uids are `jint`. -/
inductive NativeCall
  | logTraffic (time : Int) (c : Connection) (length : Int) (uid : Int32) (allowed outgoing : Bool)
  | dnsResolved (qName resource : Text) (uid : Int32)
  | sniResolved (sni : Text) (c : Connection) (uid : Int32)
  | getUidCached (c : Connection)
  | cacheUid (c : Connection) (uid : Int32)
  | isQuicBlocked (uid : Int32)
  | isDomainBlocked (uid : Int32) (name : Text)
  | isAddressAllowed (c : Connection) (uid : Int32)
  deriving DecidableEq

namespace Session

/-- The log that is queued for the app. A host that is blank is left out. -/
def trafficLog (time : Int) (c : Connection) (length : Int) (allowed outgoing : Bool)
    (packageName domain : Option Text) : TrafficLog where
  packageName := packageName
  ip := c.daddr
  host := domain.filter fun host => !isBlank host
  size := length
  allowed := allowed
  time := time
  protocol := c.protocol
  dport := c.dport
  outgoing := outgoing

/-- A log of the firewall itself is dropped. -/
def logTraffic (time : Int) (c : Connection) (length uid : Int) (allowed outgoing : Bool)
    (s : Session) : Option TrafficLog :=
  let uid := if uid ≤ 0 then getUidCached c s.mapIPKeyUid else uid
  if uid = s.service.myUid then none
  else
    some (trafficLog time c length allowed outgoing (s.mapUidPackageName uid)
      (s.service.getDomainName (c.key uid)))

/-- What a call leaves, with the database that it finds; what it is answered is what the
service answers. -/
def step (s : Session) : Database × NativeCall → Session
  | (_, .dnsResolved qName resource uid) =>
    { s with service := s.service.dnsResolved qName resource (some uid.toInt) }
  | (_, .sniResolved sni c uid) => { s with service := s.service.sniResolved sni c uid.toInt }
  | (_, .cacheUid c uid) => { s with mapIPKeyUid := Service.cacheUid c uid s.mapIPKeyUid }
  | (db, .isDomainBlocked uid name) =>
    { s with service := (s.service.isDomainBlocked db uid.toInt name).2 }
  | (db, .isAddressAllowed c uid) =>
    { s with service := (s.service.isAddressAllowed db c.version c.protocol c.saddr c.sport c.daddr
        c.dport uid.toInt).2 }
  | _ => s

end Session

end Calls

section Told

namespace NativeCall

/-- The name that a call gives to the connections that share the key of `c`. -/
def sniAt (c : Connection) (uid : Int) : NativeCall → Option Text
  | .sniResolved sni d uid' =>
    if d.SharesKey c ∧ uid'.toInt = uid then some (cleanDomain sni) else none
  | _ => none

/-- The name that a call gives to an address. An app that is not known, -1, is given every
app's. -/
def dnsAt (ip : Text) (uid : Int) : NativeCall → Option Text
  | .dnsResolved qName resource uid' =>
    if resource = ip ∧ (uid'.toInt = uid ∨ uid = -1) then some (cleanDomain qName) else none
  | _ => none

def uidAt (c : Connection) : NativeCall → Option Int
  | .cacheUid d uid => if d.SharesKey c then some uid.toInt else none
  | _ => none

end NativeCall

/-- The name a connection is known by after `past`: the one told of its server, or else of
its address, to its own app if that one is not blank. -/
def told (past : List (Database × NativeCall)) (c : Connection) (uid : Int) : Option Text :=
  (Recent.last (fun e => e.2.sniAt c uid) past).or
    (((Recent.last (fun e => e.2.dnsAt c.daddr uid) past).filter fun domain => !isBlank domain).or
      (Recent.last (fun e => e.2.dnsAt c.daddr (-1)) past))

/-- The uid of a packet that is logged. -/
def uidKnown (past : List (Database × NativeCall)) (c : Connection) (uid : Int) : Int :=
  if uid ≤ 0 then (Recent.last (fun e => e.2.uidAt c) past).getD (-1) else uid

/-- The string was asked for as an address. -/
def Asked (past : List (Database × NativeCall)) (t : Text) : Prop :=
  ∃ db c uid, (db, .isAddressAllowed c uid) ∈ past ∧ c.daddr = t

/-- What the database says of an address, now or when it was asked for it before. -/
def Answered (past : List (Database × NativeCall)) (db : Database) (ip : Text) (listed : Bool) :
    Prop :=
  db.lists .ip ip = listed ∨
    ∃ db' c uid, (db', .isAddressAllowed c uid) ∈ past ∧ c.daddr = ip ∧ db'.lists .ip ip = listed

end Told

section Kept

/-- What the service has after a start and the calls `past`. -/
structure Kept (i : Installation) (myUid : Int) (past : List (Database × NativeCall)) (s : Session) :
    Prop where
  loaded : s.Loaded i
  myUid : s.service.myUid = myUid
  sni : ∀ c uid, s.service.mapIPKeySni (Connection.key c uid).identity =
    Recent.last (fun e => e.2.sniAt c uid) past
  dns : ∀ ip uid, s.service.mapIpUidDomain (getMapIpUidDomainKey ip uid) =
    Recent.last (fun e => e.2.dnsAt ip uid) past
  uids : ∀ c : Connection, s.mapIPKeyUid (c.key (-1)).identity =
    Recent.last (fun e => e.2.uidAt c) past
  ips : ∀ t listed, s.service.mapGlobalBlockedIPs t = some listed →
    ∃ db c uid, (db, .isAddressAllowed c uid) ∈ past ∧ c.daddr = t ∧ db.lists .ip t = listed

variable {i : Installation} {myUid : Int} {past : List (Database × NativeCall)} {s : Session}
  {e : Database × NativeCall} {db : Database}

theorem kept_startNative (i : Installation) (s : Session) :
    Kept i s.service.myUid [] (s.startNative i) where
  loaded := Session.loaded_startNative i s
  myUid := by rw [Session.startNative_eq]
  sni c uid := by rw [Session.startNative_eq]; rfl
  dns ip uid := by rw [Session.startNative_eq]; rfl
  uids c := by rw [Session.startNative_eq]; rfl
  ips t listed h := by
    rw [Session.startNative_eq] at h
    exact absurd h.symm (Option.some_ne_none listed)

/-- What is told, asked and cached is kept beside what a start has loaded. -/
theorem Session.Loaded.learn (h : s.Loaded i) {hosts ips : Map Text Bool}
    {snis : Map IPKey.Identity Text} {domains : Map Text Text} {uids : Map IPKey.Identity Int} :
    ({ s with
        service := { s.service with
          mapGlobalBlockedHosts := hosts, mapGlobalBlockedIPs := ips
          mapIPKeySni := snis, mapIpUidDomain := domains }
        mapIPKeyUid := uids } : Session).Loaded i :=
  ⟨h.blockAll, h.blockQuic, h.rules, h.packageName⟩

theorem Kept.asked (h : Kept i myUid past s) {t : Text}
    (hcached : (s.service.mapGlobalBlockedIPs t).isSome) : Asked past t := by
  obtain ⟨listed, hlisted⟩ := Option.isSome_iff_exists.mp hcached
  obtain ⟨db, c, uid, hmem, ht, -⟩ := h.ips t listed hlisted
  exact ⟨db, c, uid, hmem, ht⟩

/-- What a cached address was answered is still what some call was. -/
theorem Kept.cached (h : Kept i myUid past s) (e : Database × NativeCall) {t : Text} {listed : Bool}
    (hlisted : s.service.mapGlobalBlockedIPs t = some listed) :
    ∃ db c uid, (db, .isAddressAllowed c uid) ∈ past ++ [e] ∧ c.daddr = t ∧
      db.lists .ip t = listed := by
  obtain ⟨db, c, uid, hmem, ht⟩ := h.ips t listed hlisted
  exact ⟨db, c, uid, List.mem_append_left _ hmem, ht⟩

/-- A call that tells nothing leaves nothing but cached answers. -/
theorem Kept.caches (h : Kept i myUid past s) (hsni : ∀ c uid, e.2.sniAt c uid = none)
    (hdns : ∀ ip uid, e.2.dnsAt ip uid = none) (huid : ∀ c, e.2.uidAt c = none)
    {hosts ips : Map Text Bool}
    (hips : ∀ t listed, ips t = some listed → ∃ db c uid,
      (db, .isAddressAllowed c uid) ∈ past ++ [e] ∧ c.daddr = t ∧ db.lists .ip t = listed) :
    Kept i myUid (past ++ [e])
      { s with service := { s.service with
          mapGlobalBlockedHosts := hosts, mapGlobalBlockedIPs := ips } } where
  loaded := h.loaded.learn
  myUid := h.myUid
  sni c uid := by rw [Recent.last_concat, hsni, Option.none_or, ← h.sni]
  dns ip uid := by rw [Recent.last_concat, hdns, Option.none_or, ← h.dns]
  uids c := by rw [Recent.last_concat, huid, Option.none_or, ← h.uids]
  ips := hips

theorem Kept.answered (h : Kept i myUid past s) (db : Database) (ip : Text) :
    Answered past db ip (s.service.ipListed db ip) := by
  unfold MyVpnService.ipListed
  cases hcached : s.service.mapGlobalBlockedIPs ip with
  | none => exact .inl rfl
  | some listed => exact .inr (h.ips ip listed hcached)

theorem Kept.hostListed (h : Kept i myUid past s) {host : Text} (hnot : ¬ Asked past host) :
    s.service.hostListed db host = db.lists .host host := by
  unfold MyVpnService.hostListed
  rw [if_neg fun hcached => hnot (h.asked hcached)]
  rfl

theorem Kept.step (h : Kept i myUid past s) (e : Database × NativeCall) :
    Kept i myUid (past ++ [e]) (s.step e) := by
  obtain ⟨db, call⟩ := e
  cases call with
  | logTraffic time c length uid allowed outgoing =>
    exact h.caches (fun _ _ => rfl) (fun _ _ => rfl) (fun _ => rfl) fun t listed => h.cached _
  | getUidCached c =>
    exact h.caches (fun _ _ => rfl) (fun _ _ => rfl) (fun _ => rfl) fun t listed => h.cached _
  | isQuicBlocked uid =>
    exact h.caches (fun _ _ => rfl) (fun _ _ => rfl) (fun _ => rfl) fun t listed => h.cached _
  | isDomainBlocked uid name =>
    obtain ⟨hosts, -, hstate⟩ := s.service.isDomainBlocked_snd db uid.toInt name
    have hstep : s.step (db, .isDomainBlocked uid name) =
        { s with service := { s.service with mapGlobalBlockedHosts := hosts } } := by
      rw [← hstate]
      rfl
    rw [hstep]
    exact h.caches (fun _ _ => rfl) (fun _ _ => rfl) (fun _ => rfl) fun t listed => h.cached _
  | isAddressAllowed c uid =>
    obtain ⟨hosts, ips, -, hstate, hips⟩ := s.service.isAddressAllowed_snd db uid.toInt c
    have hstep : s.step (db, .isAddressAllowed c uid) =
        { s with service := { s.service with
          mapGlobalBlockedHosts := hosts, mapGlobalBlockedIPs := ips } } := by
      rw [← hstate]
      rfl
    rw [hstep]
    refine h.caches (fun _ _ => rfl) (fun _ _ => rfl) (fun _ => rfl) fun t listed hlisted => ?_
    rcases hips with rfl | rfl
    · exact h.cached _ hlisted
    · by_cases ht : t = c.daddr
      · -- the address of the call is answered from the cache or by the database
        subst ht
        have hanswer : s.service.ipListed db c.daddr = listed := by
          rw [MyVpnService.askedIp, Map.put, Function.update_self] at hlisted
          exact Option.some.inj hlisted
        rcases hanswer ▸ h.answered db c.daddr with hnow | ⟨db', c', uid', hmem, hearlier⟩
        · exact ⟨db, c, uid, by simp, rfl, hnow⟩
        · exact ⟨db', c', uid', List.mem_append_left _ hmem, hearlier⟩
      · rw [MyVpnService.askedIp, Map.put, Function.update_of_ne ht] at hlisted
        exact h.cached _ hlisted
  | dnsResolved qName resource uid =>
    refine { h with
      loaded := h.loaded.learn
      sni := fun c uid => by rw [Recent.last_concat]; exact h.sni c uid
      uids := fun c => by rw [Recent.last_concat]; exact h.uids c
      dns := ?_
      ips := fun t listed => h.cached _ }
    intro ip uid'
    rw [Recent.last_concat, ← h.dns]
    simp only [Session.step, MyVpnService.dnsResolved, Option.getD_some, Map.put,
      Function.update_apply, getMapIpUidDomainKey_inj, NativeCall.dnsAt]
    by_cases hip : ip = resource
    · subst hip
      by_cases hunknown : uid' = -1
      · simp [hunknown]
      · by_cases huid : uid' = uid.toInt
        · simp [huid]
        · have huid' : ¬ uid.toInt = uid' := fun heq => huid heq.symm
          simp [hunknown, huid, huid']
    · have hip' : ¬ resource = ip := fun heq => hip heq.symm
      simp [hip, hip']
  | sniResolved sni c uid =>
    refine { h with
      loaded := h.loaded.learn
      sni := ?_
      uids := fun c => by rw [Recent.last_concat]; exact h.uids c
      dns := fun ip uid => by rw [Recent.last_concat]; exact h.dns ip uid
      ips := fun t listed => h.cached _ }
    intro d uid'
    rw [Recent.last_concat, ← h.sni]
    simp only [Session.step, MyVpnService.sniResolved, Map.put,
      Function.update_apply, identity_key_iff, NativeCall.sniAt]
    by_cases hshares : c.SharesKey d ∧ uid.toInt = uid'
    · have hshares' : d.SharesKey c ∧ uid' = uid.toInt := ⟨hshares.1.symm, hshares.2.symm⟩
      rw [if_pos hshares', if_pos hshares, Option.some_or]
    · have hshares' : ¬ (d.SharesKey c ∧ uid' = uid.toInt) :=
        fun hboth => hshares ⟨hboth.1.symm, hboth.2.symm⟩
      rw [if_neg hshares', if_neg hshares, Option.none_or]
  | cacheUid c uid =>
    refine { h with
      uids := ?_
      sni := fun c uid => by rw [Recent.last_concat]; exact h.sni c uid
      dns := fun ip uid => by rw [Recent.last_concat]; exact h.dns ip uid
      ips := fun t listed => h.cached _
      loaded := h.loaded.learn }
    intro d
    rw [Recent.last_concat, ← h.uids]
    simp only [Session.step, cacheUid, Map.put, Function.update_apply,
      Connection.identity_eq_iff, NativeCall.uidAt]
    by_cases hshares : c.SharesKey d
    · simp [hshares, hshares.symm]
    · have hshares' : ¬ d.SharesKey c := fun hd => hshares hd.symm
      simp [hshares, hshares']

theorem kept_run (i : Installation) (s : Session) (calls : List (Database × NativeCall)) :
    Kept i s.service.myUid calls (calls.foldl Session.step (s.startNative i)) := by
  have hrun : Run.Along Session.step (fun _ _ => True) (s.startNative i) calls :=
    .of_forall (fun _ _ => trivial) _ _
  exact hrun.history (fun _ _ e _ h => h.step e) [] (kept_startNative i s)

end Kept

section Enforced
variable {i : Installation} {myUid : Int} {past : List (Database × NativeCall)} {s : Session}
  {db : Database}

/-- The rules that were loaded refuse a name as it is spelled, or else the database lists it. -/
def Installation.RefusesName (i : Installation) (db : Database) (uid : Int) (name : Text) : Prop :=
  if 0 < uid ∧ (i.verdict uid .host name).checkFinished = true then
    (i.verdict uid .host name).blocked = true
  else db.lists .host name = true

/-- What is answered after the calls `past` by whoever finds the database `db`. This leaves open
an address on which the rules of the app decide, and a name that was asked for as an address. -/
structure Enforced (i : Installation) (myUid : Int) (past : List (Database × NativeCall))
    (s : Session) (db : Database) : Prop where
  quic : ∀ uid, s.service.isQuicBlocked uid = true ↔ i.BlocksQuic uid
  domain : ∀ (uid : Int32) name, ¬ Asked past (cleanDomain name) →
    ((s.service.isDomainBlocked db uid.toInt name).1 = true ↔
      i.BlocksAll uid.toInt ∨ i.RefusesName db uid.toInt (cleanDomain name))
  blocked : ∀ (c : Connection) uid, i.BlocksAll uid →
    (s.service.isAddressAllowed db c.version c.protocol c.saddr c.sport c.daddr c.dport
      uid).1 = false
  self : ∀ c : Connection, ¬ i.BlocksAll myUid →
    (s.service.isAddressAllowed db c.version c.protocol c.saddr c.sport c.daddr c.dport
      myUid).1 = true
  address : ∀ (c : Connection) (uid : Int32), ¬ i.BlocksAll uid.toInt → uid.toInt ≠ myUid →
    (i.verdict uid.toInt .ip c.daddr).checkFinished = false →
    (∀ domain, told past c uid.toInt = some domain → ¬ Asked past (cleanDomain domain)) →
    ∃ listed, Answered past db c.daddr listed ∧
      ((s.service.isAddressAllowed db c.version c.protocol c.saddr c.sport c.daddr c.dport
        uid.toInt).1 = true ↔ listed = false ∧
          ∀ domain, told past c uid.toInt = some domain → isBlank domain = false →
            ¬ i.RefusesName db uid.toInt (cleanDomain domain))

theorem Kept.told (h : Kept i myUid past s) (c : Connection) (uid : Int) :
    s.service.getDomainName (c.key uid) = told past c uid := by
  have hkey : (c.key uid).daddr = c.daddr ∧ (c.key uid).uid = uid := ⟨rfl, rfl⟩
  rw [MyVpnService.getDomainName, hkey.1, hkey.2, h.sni, h.dns, h.dns, Service.told]
  cases Recent.last (fun e => e.2.sniAt c uid) past with
  | some sni => rfl
  | none =>
    cases Recent.last (fun e => e.2.dnsAt c.daddr uid) past with
    | none => rfl
    | some domain =>
      cases hblank : isBlank domain <;> simp [Option.filter, hblank]

theorem Kept.refusesName_iff (h : Kept i myUid past s) {uid : Int} {name : Text}
    (hnot : ¬ Asked past name) :
    s.service.RefusesName db uid name ↔ i.RefusesName db uid name := by
  have hrules := h.loaded.rules uid .host name
  rw [MyVpnService.RefusesName, Installation.RefusesName, ← hrules, h.hostListed hnot]
  rfl

theorem Kept.domain_iff (h : Kept i myUid past s) (uid : Int32) {name : Text}
    (hnot : ¬ Asked past (cleanDomain name)) :
    (s.service.isDomainBlocked db uid.toInt name).1 = true ↔
      i.BlocksAll uid.toInt ∨ i.RefusesName db uid.toInt (cleanDomain name) := by
  rw [← h.loaded.blockAll]
  by_cases hall : uid.toInt ∈ s.service.setUidBlockAll
  · rw [MyVpnService.isDomainBlocked, if_pos (List.contains_iff_mem.mpr hall)]
    exact iff_of_true rfl (.inl hall)
  · rw [MyVpnService.isDomainBlocked_iff hall, h.refusesName_iff hnot, or_iff_right hall]

/-- What the check of the name that is told finds out. -/
theorem Kept.checkDomain_iff (h : Kept i myUid past s) (c : Connection) (uid : Int32)
    (hall : ¬ i.BlocksAll uid.toInt)
    (hnot : ∀ domain, Service.told past c uid.toInt = some domain →
      ¬ Asked past (cleanDomain domain)) :
    (s.service.checkDomain db uid.toInt (s.service.getDomainName (c.key uid.toInt))).1 = false ↔
      ∀ domain, Service.told past c uid.toInt = some domain → isBlank domain = false →
        ¬ i.RefusesName db uid.toInt (cleanDomain domain) := by
  rw [h.told]
  cases htold : Service.told past c uid.toInt with
  | none => simp [MyVpnService.checkDomain]
  | some domain =>
    cases hblank : isBlank domain with
    | true => simp [MyVpnService.checkDomain, hblank]
    | false =>
      have hdomain : (s.service.isDomainBlocked db uid.toInt domain).1 = true ↔
          i.BlocksAll uid.toInt ∨ i.RefusesName db uid.toInt (cleanDomain domain) :=
        h.domain_iff uid (hnot domain htold)
      rw [or_iff_right hall] at hdomain
      rw [MyVpnService.checkDomain, hblank, Bool.not_false, if_pos rfl, toInt_int32,
        ← Bool.not_eq_true, hdomain]
      simp [hblank]

theorem Kept.enforced (h : Kept i myUid past s) (db : Database) : Enforced i myUid past s db where
  quic uid := by
    rw [← h.loaded.blockQuic, MyVpnService.isQuicBlocked, List.contains_iff_mem]
  domain uid name hnot := h.domain_iff uid hnot
  blocked c uid hall := MyVpnService.isAddressAllowed_blockAll ((h.loaded.blockAll uid).mpr hall)
  self c hall :=
    MyVpnService.isAddressAllowed_self (fun hmem => hall ((h.loaded.blockAll myUid).mp hmem))
      h.myUid.symm
  address c uid hall hself hrules hnot := by
    have hall' : uid.toInt ∉ s.service.setUidBlockAll :=
      fun hmem => hall ((h.loaded.blockAll uid.toInt).mp hmem)
    have hself' : uid.toInt ≠ s.service.myUid := fun heq => hself (heq.trans h.myUid)
    have hip : (s.service.blockedByRule uid.toInt c.daddr .ip).checkFinished = false :=
      (congrArg RuleCheckResult.checkFinished (h.loaded.rules uid.toInt .ip c.daddr)).trans hrules
    refine ⟨s.service.ipListed db c.daddr, h.answered db c.daddr, ?_⟩
    rw [MyVpnService.isAddressAllowed_fst hall' hself', hip, if_neg Bool.false_ne_true,
      Bool.and_eq_true, Bool.not_eq_true', Bool.not_eq_true', h.checkDomain_iff c uid hall hnot,
      and_comm]

theorem Kept.getUidCached_eq (h : Kept i myUid past s) (c : Connection) :
    getUidCached c s.mapIPKeyUid = (Recent.last (fun e => e.2.uidAt c) past).getD (-1) := by
  rw [getUidCached, h.uids]
  cases hlast : Recent.last (fun e => e.2.uidAt c) past with
  | none => rfl
  | some lUid =>
    obtain ⟨-, e, -, -, he, -⟩ := Recent.last_eq_some_iff.mp hlast
    obtain ⟨uid, rfl⟩ : ∃ uid : Int32, lUid = uid.toInt := by
      obtain ⟨db, call⟩ := e
      cases call with
      | cacheUid d uid =>
        obtain ⟨-, huid⟩ := Option.ite_none_right_eq_some.mp he
        exact ⟨uid, (Option.some.inj huid).symm⟩
      | _ => simp [NativeCall.uidAt] at he
    exact toInt_int32 uid

/-- In every session, whatever came before it, in whatever order the engine calls and whatever the
database does meanwhile, the answers are those of the settings and rules that were loaded, of the
names told last, and of the lists as the database has them: those of names now, those of an
address now or when it was asked for before. -/
theorem Session.enforces (i : Installation) (s : Session) (calls : List (Database × NativeCall))
    (db : Database) :
    Enforced i s.service.myUid calls (calls.foldl Session.step (s.startNative i)) db :=
  (kept_run i s calls).enforced db

/-- Every log names the package that the uid is filed under last and the name told last; a
packet whose uid is not known has that of the last packet to its server. -/
theorem Session.logs_attributed (i : Installation) (s : Session)
    (past : List (Database × NativeCall)) (time : Int) (c : Connection) (length uid : Int)
    (allowed outgoing : Bool) :
    (past.foldl Session.step (s.startNative i)).logTraffic time c length uid allowed outgoing =
      if uidKnown past c uid = s.service.myUid then none
      else some (trafficLog time c length allowed outgoing (i.packageOf (uidKnown past c uid))
        (told past c (uidKnown past c uid))) := by
  have h := kept_run i s past
  have huid : (if uid ≤ 0 then getUidCached c
      (past.foldl Session.step (s.startNative i)).mapIPKeyUid else uid) =
        uidKnown past c uid := by rw [h.getUidCached_eq, uidKnown]
  simp only [Session.logTraffic, huid, h.myUid, h.told, h.loaded.packageName]

end Enforced

end NetGuard.Service
