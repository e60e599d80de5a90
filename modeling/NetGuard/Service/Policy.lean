import Mathlib.Logic.Function.Basic
import Mathlib.Algebra.Group.Nat.Defs

/-! # The rules of the service

`MyVpnService` as far as it answers the engine: the rules of an app, the domains it
remembers and the global lists with their caches. Every call takes the service before it
and returns the service after it; the database answers each query or fails.
-/
namespace NetGuard.Service

abbrev Text := List Char

instance : LawfulBEq Text := inferInstance

instance : LawfulBEq (Option Text) := inferInstance

/-- A `HashMap` that holds no null. -/
abbrev Map (κ ν : Type) := κ → Option ν

def Map.put {κ ν : Type} [DecidableEq κ] (m : Map κ ν) (key : κ) (value : ν) : Map κ ν :=
  Function.update m key (some value)

def isWhitespace (c : Char) : Bool :=
  let n := c.toNat
  (0x09 ≤ n && n ≤ 0x0d) || (0x1c ≤ n && n ≤ 0x20) || n == 0x1680 ||
    (0x2000 ≤ n && n ≤ 0x200a && n != 0x2007) || n == 0x2028 || n == 0x2029 || n == 0x205f ||
    n == 0x3000

def isBlank (text : Text) : Bool := text.all isWhitespace

def cleanDomain (domain : Text) : Text :=
  if "www.".toList.isPrefixOf domain then domain.drop 4 else domain

section Rules

inductive RuleType
  | blacklist
  | whitelist
  deriving DecidableEq, Repr

/-- A rule of an app. The maps of the source are read for their keys only. -/
structure Rule where
  type : RuleType
  whitelistExclusive : Bool
  hosts : List Text
  ips : List Text
  deriving DecidableEq, Repr

inductive CheckRuleTarget
  | ip
  | host
  deriving DecidableEq, Repr

structure RuleCheckResult where
  blocked : Bool
  checkFinished : Bool
  deriving DecidableEq, Repr

def Rule.targets (rule : Rule) : CheckRuleTarget → List Text
  | .ip => rule.ips
  | .host => rule.hosts

def checkRules (value : Text) (target : CheckRuleTarget) : List Rule → RuleCheckResult
  | [] => ⟨false, false⟩
  | rule :: rest =>
    if (rule.targets target).isEmpty then checkRules value target rest
    else
      let valueListed := (rule.targets target).contains value
      match rule.type with
      | .blacklist => ⟨valueListed, valueListed⟩
      | .whitelist =>
        if valueListed then ⟨false, true⟩
        else if rule.whitelistExclusive then ⟨true, true⟩
        else checkRules value target rest

end Rules

section Keys

/-- `IPKey`; only TCP and UDP have ports. -/
structure IPKey where
  version : Int
  protocol : Int
  saddr : Text
  sport : Int
  daddr : Text
  dport : Int
  uid : Int

def IPKey.make (version protocol : Int) (saddr : Text) (sport : Int) (daddr : Text) (dport : Int)
    (uid : Int) : IPKey :=
  let ports := protocol = 6 ∨ protocol = 17
  ⟨version, protocol, saddr, if ports then sport else 0, daddr, if ports then dport else 0, uid⟩

/-- What `equals` compares and `hashCode` hashes. -/
structure IPKey.Identity where
  version : Int
  protocol : Int
  daddr : Text
  dport : Int
  uid : Int
  deriving DecidableEq

def IPKey.identity (k : IPKey) : IPKey.Identity :=
  ⟨k.version, k.protocol, k.daddr, k.dport, k.uid⟩

def getMapIpUidDomainKey (ip : Text) (uid : Int) : Text := ip ++ '_' :: (toString uid).toList

end Keys

/-- The two queries of the database; `none` is one that throws. -/
structure Database where
  containsHost : Text → Option Bool
  containsIp : Text → Option Bool

def queryBoolean (answer : Option Bool) : Bool := answer.getD false

structure MyVpnService where
  myUid : Int
  setUidBlockAll : List Int
  setUidBlockQuic : List Int
  mapUidRules : Map Int (List Rule)
  mapGlobalBlockedHosts : Map Text Bool
  mapGlobalBlockedIPs : Map Text Bool
  mapIPKeySni : Map IPKey.Identity Text
  mapIpUidDomain : Map Text Text

namespace MyVpnService

section Lookup
variable (s : MyVpnService)

def isQuicBlocked (uid : Int) : Bool := s.setUidBlockQuic.contains uid

def blockedByRule (uid : Int) (value : Text) (target : CheckRuleTarget) : RuleCheckResult :=
  match s.mapUidRules uid with
  | none => ⟨false, false⟩
  | some rules => checkRules value target rules

def getDomainName (key : IPKey) : Option Text :=
  match s.mapIPKeySni key.identity with
  | some sni => some sni
  | none =>
    match s.mapIpUidDomain (getMapIpUidDomainKey key.daddr key.uid) with
    | some domain =>
      if isBlank domain then s.mapIpUidDomain (getMapIpUidDomainKey key.daddr (-1))
      else some domain
    | none => s.mapIpUidDomain (getMapIpUidDomainKey key.daddr (-1))

end Lookup

section Check
variable (db : Database)

/-- The cache of IPs decides whether the cache of hosts is read, as in the source. -/
def hostBlockedGlobally (host : Text) (s : MyVpnService) : Bool × MyVpnService :=
  if (s.mapGlobalBlockedIPs host).isSome then (s.mapGlobalBlockedHosts host == some true, s)
  else
    let listed := queryBoolean (db.containsHost host)
    (listed, { s with mapGlobalBlockedHosts := s.mapGlobalBlockedHosts.put host listed })

def ipBlockedGlobally (ip : Text) (s : MyVpnService) : Bool × MyVpnService :=
  if (s.mapGlobalBlockedIPs ip).isSome then (s.mapGlobalBlockedIPs ip == some true, s)
  else
    let listed := queryBoolean (db.containsIp ip)
    (listed, { s with mapGlobalBlockedIPs := s.mapGlobalBlockedIPs.put ip listed })

def isDomainBlocked (uid : Int) (name : Text) (s : MyVpnService) : Bool × MyVpnService :=
  let name := cleanDomain name
  if s.setUidBlockAll.contains uid then (true, s)
  else if uid > 0 then
    let result := s.blockedByRule uid name .host
    if result.checkFinished then (result.blocked, s)
    else if result.blocked then (true, s)
    else s.hostBlockedGlobally db name
  else s.hostBlockedGlobally db name

def toInt (uid : Int) : Int := Int.bmod uid (2 ^ 32)

def isAddressAllowed (version protocol : Int) (saddr : Text) (sport : Int) (daddr : Text)
    (dport : Int) (uid : Int) (s : MyVpnService) : Bool × MyVpnService :=
  if s.setUidBlockAll.contains uid then (false, s)
  else if uid = s.myUid then (true, s)
  else
    let result := s.blockedByRule uid daddr .ip
    let blocked := result.blocked
    if result.checkFinished then (blocked, s)
    else
      let domain := if !blocked
        then s.getDomainName (.make version protocol saddr sport daddr dport uid) else none
      let (blocked, s) := match domain with
        | some domain =>
          if !isBlank domain then s.isDomainBlocked db (toInt uid) domain else (blocked, s)
        | none => (blocked, s)
      let (blocked, s) := if !blocked then s.ipBlockedGlobally db daddr else (blocked, s)
      (!blocked, s)

end Check

end MyVpnService

end NetGuard.Service
