import NetGuard.Service.Names

/-! # Names that are judged now or later

The name of a ClientHello is judged as it is handed over. The same name is also stored,
without its `www.`, and judged again by whoever looks it up, once more without its `www.`.
-/
namespace NetGuard.Service

theorem cleanDomain_idem_iff (name : Text) :
    cleanDomain (cleanDomain name) = cleanDomain name ↔ ¬ "www.".toList <+: cleanDomain name := by
  constructor
  · rintro hsame ⟨rest, hrest⟩
    rw [← hrest, cleanDomain_www] at hsame
    have hlength := congrArg List.length hsame
    simp only [List.length_append, String.reduceToList, List.length_cons, List.length_nil] at hlength
    omega
  · exact cleanDomain_of_not_prefix

namespace MyVpnService
variable {s : MyVpnService} {db : Database} {c : Connection} {uid : Int32} {name : Text}

/-- A name that was answered to an app, or to one that is not known. -/
def dnsResolved (qname resource : Text) (uid : Option Int) (s : MyVpnService) : MyVpnService :=
  let uid := uid.getD (-1)
  let m := s.mapIpUidDomain.put (getMapIpUidDomainKey resource uid) (cleanDomain qname)
  -- the unknown uid is the fallback
  { s with mapIpUidDomain := m.put (getMapIpUidDomainKey resource (-1)) (cleanDomain qname) }

/-- The rules on the address leave the connection to its name. -/
def AsksName (s : MyVpnService) (c : Connection) (uid : Int) : Prop :=
  uid ∉ s.setUidBlockAll ∧ uid ≠ s.myUid ∧
    (s.blockedByRule uid c.daddr .ip).checkFinished = false

instance (s : MyVpnService) (c : Connection) (uid : Int) : Decidable (s.AsksName c uid) :=
  inferInstanceAs (Decidable (_ ∧ _))

/-- What `isAddressAllowed` finds out about the name of a connection, if it gets there. -/
def domainVerdict (db : Database) (c : Connection) (uid : Int) (s : MyVpnService) : Option Bool :=
  if s.AsksName c uid then some (s.checkDomain db uid (s.getDomainName (c.key uid))).1 else none

theorem isAddressAllowed_domainVerdict {blocked : Bool}
    (h : s.domainVerdict db c uid.toInt = some blocked) :
    (s.isAddressAllowed db c.version c.protocol c.saddr c.sport c.daddr c.dport uid.toInt).1 =
      (!blocked && !s.ipListed db c.daddr) := by
  rw [domainVerdict, Option.ite_none_right_eq_some] at h
  obtain ⟨⟨hall, hself, hrules⟩, hblocked⟩ := h
  rw [isAddressAllowed_fst hall hself, hrules, if_neg Bool.false_ne_true, Option.some.inj hblocked]

theorem getDomainName_sniResolved (s : MyVpnService) (c : Connection) (uid : Int) (name : Text) :
    (s.sniResolved name c uid).getDomainName (c.key uid) = some (cleanDomain name) := by
  simp [getDomainName, sniResolved, Map.put]

/-- An answer is found under the app that asked, or by an app that knows no other name. -/
def FindsAnswer (s : MyVpnService) (c : Connection) (uid : Int) (asked : Option Int) : Prop :=
  s.mapIPKeySni (c.key uid).identity = none ∧ (asked = some uid ∨
    ∀ domain, s.mapIpUidDomain (getMapIpUidDomainKey c.daddr uid) = some domain →
      isBlank domain = true)

theorem getDomainName_dnsResolved {uid : Int} {asked : Option Int} (h : s.FindsAnswer c uid asked) :
    (s.dnsResolved name c.daddr asked).getDomainName (c.key uid) = some (cleanDomain name) := by
  obtain ⟨hsni, hown⟩ := h
  have hkey : (c.key uid).daddr = c.daddr ∧ (c.key uid).uid = uid := ⟨rfl, rfl⟩
  have hfallback : (s.dnsResolved name c.daddr asked).mapIpUidDomain
      (getMapIpUidDomainKey c.daddr (-1)) = some (cleanDomain name) := Function.update_self _ _ _
  have hstored : ∀ domain, (s.dnsResolved name c.daddr asked).mapIpUidDomain
      (getMapIpUidDomainKey c.daddr uid) = some domain →
        isBlank domain = true ∨ domain = cleanDomain name := by
    intro domain hdomain
    simp only [dnsResolved, Map.put, Function.update_apply] at hdomain
    split at hdomain
    · exact .inr (Option.some.inj hdomain).symm
    · split at hdomain
      next => exact .inr (Option.some.inj hdomain).symm
      next hother =>
        rcases hown with rfl | hblank
        · exact (hother rfl).elim
        · exact .inl (hblank domain hdomain)
  have hsni' : (s.dnsResolved name c.daddr asked).mapIPKeySni (c.key uid).identity = none := hsni
  rw [getDomainName, hsni', hkey.1, hkey.2, hfallback]
  cases hfound : (s.dnsResolved name c.daddr asked).mapIpUidDomain
      (getMapIpUidDomainKey c.daddr uid) with
  | none => rfl
  | some domain =>
    rcases hstored domain hfound with hblank | rfl
    · simp [hblank]
    · simp

/-- The lists refuse a name as it is spelled. -/
def RefusesName (s : MyVpnService) (db : Database) (uid : Int) (name : Text) : Prop :=
  if 0 < uid ∧ (s.blockedByRule uid name .host).checkFinished = true then
    (s.blockedByRule uid name .host).blocked = true
  else s.hostListed db name = true

theorem isDomainBlocked_iff (hall : uid.toInt ∉ s.setUidBlockAll) :
    (s.isDomainBlocked db uid.toInt name).1 = true ↔
      s.RefusesName db uid.toInt (cleanDomain name) := by
  unfold RefusesName
  by_cases hpos : 0 < uid.toInt
  · rw [isDomainBlocked_fst hall hpos]
    cases (s.blockedByRule uid.toInt (cleanDomain name) .host).checkFinished <;> simp [hpos]
  · rw [isDomainBlocked_fst_of_not_pos hall hpos, if_neg fun h => hpos h.1]

/-- The verdict on a name that is looked up is that on the name handed over. -/
def Agrees (s : MyVpnService) (db : Database) (c : Connection) (uid : Int) (name : Text) : Prop :=
  ∀ blocked, s.domainVerdict db c uid = some blocked → blocked = (s.isDomainBlocked db uid name).1

theorem agrees_iff (hname : s.getDomainName (c.key uid.toInt) = some (cleanDomain name))
    (hwww : ¬ "www.".toList <+: cleanDomain name) :
    s.Agrees db c uid.toInt name ↔ (s.AsksName c uid.toInt → isBlank (cleanDomain name) = true →
      ¬ s.RefusesName db uid.toInt (cleanDomain name)) := by
  by_cases hasks : s.AsksName c uid.toInt
  · have hsame : (s.isDomainBlocked db uid.toInt (cleanDomain name)).1 =
        (s.isDomainBlocked db uid.toInt name).1 := by
      rw [Bool.eq_iff_iff, isDomainBlocked_iff hasks.1, isDomainBlocked_iff hasks.1,
        cleanDomain_of_not_prefix hwww]
    have hverdict : s.domainVerdict db c uid.toInt =
        some (if isBlank (cleanDomain name) then false
          else (s.isDomainBlocked db uid.toInt name).1) := by
      rw [domainVerdict, if_pos hasks, hname, checkDomain, toInt_int32, ← hsame]
      cases isBlank (cleanDomain name) <;> rfl
    rw [Agrees, hverdict]
    cases hblank : isBlank (cleanDomain name) with
    | false => simp
    | true =>
      rw [← isDomainBlocked_iff hasks.1]
      cases (s.isDomainBlocked db uid.toInt name).1 <;> simp [hasks]
  · have hverdict : s.domainVerdict db c uid.toInt = none := if_neg hasks
    simp [Agrees, hverdict, hasks]

/-- The name is spelled the same after one normalisation and after two, and both ways in
which it is remembered lead to the verdict on it. -/
structure RemembersAs (s : MyVpnService) (db : Database) (c : Connection) (uid : Int)
    (name : Text) : Prop where
  clean : cleanDomain (cleanDomain name) = cleanDomain name
  sni : (s.sniResolved name c uid).Agrees db c uid name
  dns : ∀ asked, s.FindsAnswer c uid asked →
    (s.dnsResolved name c.daddr asked).Agrees db c uid name

/-- The two paths agree exactly if the name loses all of its `www.` at once, and, where
nothing is left of it but blanks, no list refuses that. -/
theorem remembersAs_iff (s : MyVpnService) (db : Database) (c : Connection) (uid : Int32)
    (name : Text) :
    s.RemembersAs db c uid.toInt name ↔ ¬ "www.".toList <+: cleanDomain name ∧
      (s.AsksName c uid.toInt → isBlank (cleanDomain name) = true →
        ¬ s.RefusesName db uid.toInt (cleanDomain name)) := by
  constructor
  · rintro ⟨hclean, hsni, -⟩
    have hwww := (cleanDomain_idem_iff name).mp hclean
    exact ⟨hwww, (agrees_iff (getDomainName_sniResolved s c uid.toInt name) hwww).mp hsni⟩
  · rintro ⟨hwww, hblank⟩
    refine ⟨(cleanDomain_idem_iff name).mpr hwww, ?_, ?_⟩
    · exact (agrees_iff (getDomainName_sniResolved s c uid.toInt name) hwww).mpr hblank
    · intro asked hfinds
      exact (agrees_iff (getDomainName_dnsResolved hfinds) hwww).mpr hblank

/-- A refused name that begins with `www.` twice is refused in the ClientHello and allowed
where it is remembered. -/
theorem not_remembersAs :
    cleanDomain (cleanDomain "www.www.bad.b".toList) ≠ cleanDomain "www.www.bad.b".toList ∧
      (isDomainBlocked .empty 10001 "www.www.bad.b".toList
        (ofTables (.sample .blacklist false [("www.bad.b".toList, .host)]))).1 = true ∧
      (sniResolved "www.www.bad.b".toList (.toSample 40000) 10001
        (ofTables (.sample .blacklist false [("www.bad.b".toList, .host)]))).domainVerdict .empty
          (.toSample 40000) 10001 = some false ∧
      (dnsResolved "www.www.bad.b".toList (Connection.toSample 40000).daddr (some 10001)
        (ofTables (.sample .blacklist false [("www.bad.b".toList, .host)]))).domainVerdict .empty
          (.toSample 40000) 10001 = some false := by
  refine ⟨?_, ?_, ?_, ?_⟩
  · decide
  · decide
  · decide
  · decide

end MyVpnService

end NetGuard.Service
