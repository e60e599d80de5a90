import NetGuard.Library.Recent
import NetGuard.Service.Globals
import Mathlib.Data.List.TakeWhile

/-! # Queries that fail

A query that fails is answered with "not listed", and the answer is remembered as any
other. What a cache holds is therefore what one of the earlier lookups was answered,
whether the database was there for it or not.
-/
namespace NetGuard.Service

/-- A lookup, and whether the database answers if it is asked. -/
structure Lookup where
  call : GlobalCall
  answered : Bool

def Database.failing : Database := ⟨fun _ => none, fun _ => none⟩

namespace Lookup
variable {hosts : List HostEntry} {l : Lookup}

def database (hosts : List HostEntry) (l : Lookup) : Database :=
  if l.answered then .ofHosts hosts else .failing

def answer (hosts : List HostEntry) (l : Lookup) : Bool :=
  (l.database hosts).lists l.call.type l.call.target

theorem answer_eq_true_iff : l.answer hosts = true ↔
    l.answered = true ∧ IsGeneric hosts l.call.type l.call.target := by
  unfold answer database
  cases hanswered : l.answered with
  | true =>
    rw [if_pos rfl, MyVpnService.lists_ofHosts_iff]
    simp
  | false => cases htype : l.call.type <;> simp [Database.failing, Database.lists, queryBoolean]

end Lookup

section History
variable {past : List Lookup} {l : Lookup} {t : Text}

def firstAsIp (t : Text) (past : List Lookup) : Option Lookup :=
  past.find? fun l => l.call = ⟨.ip, t⟩

/-- The last lookup of `t` as a host among those before it is first looked up as an IP. -/
def lastAsHost (t : Text) (past : List Lookup) : Option Lookup :=
  Recent.last (fun l => if l.call = ⟨.host, t⟩ then some l else none)
    (past.takeWhile fun l => l.call ≠ ⟨.ip, t⟩)

theorem firstAsIp_concat : firstAsIp t (past ++ [l]) =
    (firstAsIp t past).or (if l.call = ⟨.ip, t⟩ then some l else none) := by
  rw [firstAsIp, List.find?_append, ← firstAsIp]
  by_cases hip : l.call = ⟨.ip, t⟩
  · simp [hip]
  · simp [hip]

theorem takeWhile_of_firstAsIp_none (h : firstAsIp t past = none) :
    (past.takeWhile fun l => decide (l.call ≠ ⟨.ip, t⟩)) = past := by
  rw [List.takeWhile_eq_self_iff]
  intro l hl
  rw [firstAsIp, List.find?_eq_none] at h
  simpa using h l hl

theorem takeWhile_of_firstAsIp_some {first : Lookup} (h : firstAsIp t past = some first)
    (later : List Lookup) :
    ((past ++ later).takeWhile fun l => decide (l.call ≠ ⟨.ip, t⟩)) =
      past.takeWhile fun l => decide (l.call ≠ ⟨.ip, t⟩) := by
  obtain ⟨hfirst, before, rest, rfl, -⟩ := List.find?_eq_some_iff_append.mp h
  have hfails : first.call = ⟨.ip, t⟩ := by simpa using hfirst
  have hstops : ∀ before : List Lookup, ∀ tail, ((before ++ first :: tail).takeWhile fun l =>
      decide (l.call ≠ ⟨.ip, t⟩)) = before.takeWhile fun l => decide (l.call ≠ ⟨.ip, t⟩) := by
    intro before tail
    induction before with
    | nil => simp [hfails]
    | cons b before ih => simp only [List.cons_append, List.takeWhile_cons, ih]
  rw [List.append_assoc, List.cons_append, hstops, hstops]

theorem lastAsHost_concat : lastAsHost t (past ++ [l]) =
    if (firstAsIp t past).isSome then lastAsHost t past
    else if l.call = ⟨.host, t⟩ then some l else lastAsHost t past := by
  cases hfirst : firstAsIp t past with
  | some first =>
    rw [Option.isSome_some, if_pos rfl, lastAsHost, takeWhile_of_firstAsIp_some hfirst, lastAsHost]
  | none =>
    have hpast := takeWhile_of_firstAsIp_none hfirst
    rw [Option.isSome_none, if_neg Bool.false_ne_true, lastAsHost, lastAsHost, hpast,
      List.takeWhile_append_of_pos (by simpa [firstAsIp] using hfirst)]
    by_cases hip : l.call = ⟨.ip, t⟩
    · simp [hip]
    · by_cases hhost : l.call = ⟨.host, t⟩
      · simp [hhost, Recent.last_concat]
      · simp [hip, hhost, Recent.last_concat]

end History

namespace MyVpnService
variable {hosts : List HostEntry} {past : List Lookup} {s : MyVpnService}

def lookUp (hosts : List HostEntry) (s : MyVpnService) (l : Lookup) : MyVpnService :=
  s.callGlobally (l.database hosts) l.call

/-- Every cached value is what one of the lookups was answered. -/
structure Recalls (hosts : List HostEntry) (past : List Lookup) (s : MyVpnService) : Prop where
  ips : ∀ t, s.mapGlobalBlockedIPs t = (firstAsIp t past).map (Lookup.answer hosts)
  hosts : ∀ t, s.mapGlobalBlockedHosts t = (lastAsHost t past).map (Lookup.answer hosts)

theorem recalls_nil : Recalls hosts [] s.prepareGlobalRules := ⟨fun _ => rfl, fun _ => rfl⟩

/-- Nothing is put where the cache of IPs has a value, in neither of the caches. -/
theorem lookUp_cached {l : Lookup} (h : (s.mapGlobalBlockedIPs l.call.target).isSome) :
    s.lookUp hosts l = s := by
  obtain ⟨⟨type, t⟩, answered⟩ := l
  obtain ⟨cached, hcached⟩ := Option.isSome_iff_exists.mp h
  have hcached : s.mapGlobalBlockedIPs t = some cached := hcached
  cases type with
  | ip => simp [lookUp, callGlobally, blockedGlobally, ipBlockedGlobally, hcached]
  | host => simp [lookUp, callGlobally, blockedGlobally, hostBlockedGlobally, hcached]

/-- The answer is put into the cache of its kind. -/
theorem lookUp_missed {l : Lookup} (h : s.mapGlobalBlockedIPs l.call.target = none) :
    s.lookUp hosts l = match l.call.type with
      | .ip => { s with
          mapGlobalBlockedIPs := s.mapGlobalBlockedIPs.put l.call.target (l.answer hosts) }
      | .host => { s with
          mapGlobalBlockedHosts := s.mapGlobalBlockedHosts.put l.call.target (l.answer hosts) } := by
  obtain ⟨⟨type, t⟩, answered⟩ := l
  have hmissed : s.mapGlobalBlockedIPs t = none := h
  cases type with
  | ip =>
    simp only [lookUp, callGlobally, blockedGlobally, ipBlockedGlobally, hmissed,
      Option.isSome_none, Bool.false_eq_true, if_false]
    rfl
  | host =>
    simp only [lookUp, callGlobally, blockedGlobally, hostBlockedGlobally, hmissed,
      Option.isSome_none, Bool.false_eq_true, if_false]
    rfl

theorem lookUp_ips (l : Lookup) (t : Text) : (s.lookUp hosts l).mapGlobalBlockedIPs t =
    (s.mapGlobalBlockedIPs t).or (if l.call = ⟨.ip, t⟩ then some (l.answer hosts) else none) := by
  cases hcached : s.mapGlobalBlockedIPs l.call.target with
  | some cached =>
    rw [lookUp_cached (Option.isSome_of_eq_some hcached)]
    split
    next hcall =>
      rw [hcall] at hcached
      rw [show s.mapGlobalBlockedIPs t = some cached from hcached, Option.some_or]
    next => rw [Option.or_none]
  | none =>
    rw [lookUp_missed hcached]
    obtain ⟨⟨type, t'⟩, answered⟩ := l
    have hcached : s.mapGlobalBlockedIPs t' = none := hcached
    cases type with
    | ip =>
      by_cases ht : t = t'
      · subst ht
        simp [Map.put, hcached]
      · have ht' : ¬ t' = t := fun heq => ht heq.symm
        simp [Map.put, ht, ht']
    | host => simp

theorem lookUp_hosts (l : Lookup) (t : Text) : (s.lookUp hosts l).mapGlobalBlockedHosts t =
    if (s.mapGlobalBlockedIPs t).isSome then s.mapGlobalBlockedHosts t
    else if l.call = ⟨.host, t⟩ then some (l.answer hosts) else s.mapGlobalBlockedHosts t := by
  cases hcached : s.mapGlobalBlockedIPs l.call.target with
  | some cached =>
    rw [lookUp_cached (Option.isSome_of_eq_some hcached)]
    split
    next => rfl
    next hmissed =>
      rw [if_neg]
      rintro hcall
      rw [hcall] at hcached
      exact hmissed (Option.isSome_of_eq_some hcached)
  | none =>
    rw [lookUp_missed hcached]
    obtain ⟨⟨type, t'⟩, answered⟩ := l
    have hcached : s.mapGlobalBlockedIPs t' = none := hcached
    cases type with
    | ip => simp
    | host =>
      by_cases ht : t = t'
      · subst ht
        simp [Map.put, hcached]
      · have ht' : ¬ t' = t := fun heq => ht heq.symm
        simp [Map.put, ht, ht']

/-- A lookup puts into the caches what it adds to the history. -/
theorem Recalls.step (h : Recalls hosts past s) (l : Lookup) :
    Recalls hosts (past ++ [l]) (s.lookUp hosts l) := by
  constructor
  · intro t
    rw [lookUp_ips, h.ips, firstAsIp_concat, Option.map_or]
    split <;> rfl
  · intro t
    rw [lookUp_hosts, h.ips, h.hosts, lastAsHost_concat, Option.isSome_map]
    split
    · rfl
    · split <;> rfl

theorem recalls_run (hosts : List HostEntry) (s : MyVpnService) (lookups : List Lookup) :
    Recalls hosts lookups (lookups.foldl (lookUp hosts) s.prepareGlobalRules) := by
  have hrun : Run.Along (lookUp hosts) (fun _ _ => True) s.prepareGlobalRules lookups :=
    .of_forall (fun _ _ => trivial) _ _
  exact hrun.history (fun _ _ l _ h => h.step l) [] recalls_nil

end MyVpnService

/-- The lookup that the cache would answer from was answered by the database. -/
def Survives (past : List Lookup) (call : GlobalCall) : Prop :=
  ∀ first, firstAsIp call.target past = some first →
    match call.type with
    | .ip => first.answered = true
    | .host => ∃ last, lastAsHost call.target past = some last ∧ last.answered = true

namespace MyVpnService
variable {hosts : List HostEntry} {past : List Lookup} {s : MyVpnService} {l : Lookup}

theorem firstAsIp_call {t : Text} {first : Lookup} (h : firstAsIp t past = some first) :
    first.call = ⟨.ip, t⟩ := by
  simpa using List.find?_some h

theorem lastAsHost_call {t : Text} {last : Lookup} (h : lastAsHost t past = some last) :
    last.call = ⟨.host, t⟩ := by
  obtain ⟨-, l, -, -, hl, -⟩ := Recent.last_eq_some_iff.mp h
  rw [Option.ite_none_right_eq_some] at hl
  rw [← Option.some.inj hl.2]
  exact hl.1

/-- A lookup while the database works finds what is listed exactly if the cache has no
answer for it, or one that the database gave. -/
theorem Recalls.exact_iff (h : Recalls hosts past s) (hanswered : l.answered = true) :
    ((s.blockedGlobally (l.database hosts) l.call).1 = true ↔
        IsGeneric hosts l.call.type l.call.target) ↔
      (IsGeneric hosts l.call.type l.call.target → Survives past l.call) := by
  have hlisted : (l.database hosts).lists l.call.type l.call.target = true ↔
      IsGeneric hosts l.call.type l.call.target := by
    rw [← Lookup.answer, Lookup.answer_eq_true_iff, and_iff_right hanswered]
  obtain ⟨⟨type, t⟩, answered⟩ := l
  have hip := h.ips t
  have hhost := h.hosts t
  cases hfirst : firstAsIp t past with
  | none =>
    rw [hfirst, Option.map_none] at hip
    refine iff_of_true ?_ fun _ first hsome => ?_
    · cases type with
      | ip => simpa [blockedGlobally, ipBlockedGlobally, hip, Database.lists] using hlisted
      | host => simpa [blockedGlobally, hostBlockedGlobally, hip, Database.lists] using hlisted
    · rw [hfirst] at hsome
      cases hsome
  | some first =>
    rw [hfirst, Option.map_some] at hip
    cases type with
    | ip =>
      have hresult : (s.blockedGlobally (Lookup.database hosts ⟨⟨.ip, t⟩, answered⟩) ⟨.ip, t⟩).1 =
          first.answer hosts := by
        simp [blockedGlobally, ipBlockedGlobally, hip]
      have hcall := firstAsIp_call hfirst
      rw [hresult, Lookup.answer_eq_true_iff, hcall]
      simp [Survives, hfirst]
    | host =>
      have hresult : (s.blockedGlobally (Lookup.database hosts ⟨⟨.host, t⟩, answered⟩)
          ⟨.host, t⟩).1 = ((lastAsHost t past).map (Lookup.answer hosts) == some true) := by
        simp [blockedGlobally, hostBlockedGlobally, hip, hhost]
      rw [hresult]
      cases hlast : lastAsHost t past with
      | none => simp [Survives, hfirst, hlast]
      | some last =>
        have hcall := lastAsHost_call hlast
        simp [Survives, hfirst, hlast, Lookup.answer_eq_true_iff, hcall]

/-- Lookups while the database works are right exactly if no listed string is then answered
from a lookup that failed, or from the cache of hosts without having been put there. -/
theorem blockedGlobally_recovers_iff (hosts : List HostEntry) (s : MyVpnService)
    (lookups : List Lookup) :
    (∀ past l post, lookups = past ++ l :: post → l.answered = true →
      (((past.foldl (lookUp hosts) s.prepareGlobalRules).blockedGlobally
        (l.database hosts) l.call).1 = true ↔ IsGeneric hosts l.call.type l.call.target)) ↔
    ∀ past l post, lookups = past ++ l :: post → l.answered = true →
      IsGeneric hosts l.call.type l.call.target → Survives past l.call := by
  constructor
  · intro hexact past l post heq hanswered
    exact ((recalls_run hosts s past).exact_iff hanswered).mp (hexact past l post heq hanswered)
  · intro hsurvives past l post heq hanswered
    exact ((recalls_run hosts s past).exact_iff hanswered).mpr (hsurvives past l post heq hanswered)

/-- An address that was looked up while the query failed is open from then on. -/
theorem not_blockedGlobally_recovers :
    IsGeneric [⟨none, "6.6.6.6".toList, .ip⟩] .ip "6.6.6.6".toList ∧
      ((((sample .blacklist).prepareGlobalRules.lookUp [⟨none, "6.6.6.6".toList, .ip⟩]
          ⟨⟨.ip, "6.6.6.6".toList⟩, false⟩).blockedGlobally
        (Lookup.database [⟨none, "6.6.6.6".toList, .ip⟩] ⟨⟨.ip, "6.6.6.6".toList⟩, true⟩)
          ⟨.ip, "6.6.6.6".toList⟩).1 = false) := by
  refine ⟨⟨_, List.mem_singleton_self _, rfl, rfl, rfl⟩, ?_⟩
  decide

end MyVpnService

end NetGuard.Service
