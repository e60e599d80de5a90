import NetGuard.Library.Memo
import NetGuard.Library.Run
import NetGuard.Service.Tables
import NetGuard.Service.Polarity

/-! # The caches of the global lists

`ipBlockedGlobally` fills and reads one cache. `hostBlockedGlobally` fills a cache of
its own and reads it, but whether it does so is decided by the cache of addresses.
-/
namespace NetGuard.Service

/-- A call with the string it looks up. -/
structure GlobalCall where
  type : HostType
  target : Text
  deriving DecidableEq

def Database.lists (db : Database) (type : HostType) (target : Text) : Bool :=
  match type with
  | .host => queryBoolean (db.containsHost target)
  | .ip => queryBoolean (db.containsIp target)

namespace MyVpnService

variable {db : Database}

def blockedGlobally (db : Database) (s : MyVpnService) (call : GlobalCall) :
    Bool × MyVpnService :=
  match call.type with
  | .host => s.hostBlockedGlobally db call.target
  | .ip => s.ipBlockedGlobally db call.target

def callGlobally (db : Database) (s : MyVpnService) (call : GlobalCall) : MyVpnService :=
  (s.blockedGlobally db call).2

def prepareGlobalRules (s : MyVpnService) : MyVpnService :=
  { s with mapGlobalBlockedHosts := fun _ => none, mapGlobalBlockedIPs := fun _ => none }

end MyVpnService

section History
variable {past : List GlobalCall} {t : Text}

/-- The string was looked up as a host, and before that never as an address. -/
def HostFirst (past : List GlobalCall) (t : Text) : Prop :=
  ∃ pre post, past = pre ++ ⟨.host, t⟩ :: post ∧ ⟨.ip, t⟩ ∉ pre

theorem hostFirst_concat {call : GlobalCall} :
    HostFirst (past ++ [call]) t ↔
      HostFirst past t ∨ (call = ⟨.host, t⟩ ∧ ⟨.ip, t⟩ ∉ past) := by
  constructor
  · rintro ⟨pre, post, heq, hnot⟩
    rcases List.eq_nil_or_concat post with rfl | ⟨post, last, rfl⟩
    · obtain ⟨rfl, hlast⟩ := List.append_inj' heq rfl
      exact Or.inr ⟨List.singleton_inj.mp hlast, hnot⟩
    · have hsplit : past ++ [call] = (pre ++ ⟨.host, t⟩ :: post) ++ [last] := by simpa using heq
      exact Or.inl ⟨pre, post, (List.append_inj' hsplit rfl).1, hnot⟩
  · rintro (⟨pre, post, rfl, hnot⟩ | ⟨rfl, hnot⟩)
    · exact ⟨pre, post ++ [call], by simp, hnot⟩
    · exact ⟨past, [], rfl, hnot⟩

end History

namespace MyVpnService

variable {db : Database} {past : List GlobalCall} {s : MyVpnService}

/-- What the calls `past` leave in the caches. -/
structure Caches (db : Database) (past : List GlobalCall) (s : MyVpnService) : Prop where
  ips : Memo.Valid (db.lists .ip) s.mapGlobalBlockedIPs
  hosts : Memo.Valid (db.lists .host) s.mapGlobalBlockedHosts
  ip_iff : ∀ t, (s.mapGlobalBlockedIPs t).isSome ↔ ⟨.ip, t⟩ ∈ past
  host_iff : ∀ t, (s.mapGlobalBlockedHosts t).isSome ↔ HostFirst past t

theorem caches_nil : Caches db [] s.prepareGlobalRules where
  ips := Memo.valid_empty
  hosts := Memo.valid_empty
  ip_iff t := by simp [prepareGlobalRules]
  host_iff t := by simp [prepareGlobalRules, HostFirst]

theorem Caches.ip_step (h : Caches db past s) (t : Text) :
    Caches db (past ++ [⟨.ip, t⟩]) (s.callGlobally db ⟨.ip, t⟩) := by
  have hhost (t' : Text) : HostFirst (past ++ [⟨.ip, t⟩]) t' ↔ HostFirst past t' := by
    simp [hostFirst_concat]
  by_cases hcached : (s.mapGlobalBlockedIPs t).isSome
  · have hstate : s.callGlobally db ⟨.ip, t⟩ = s := by
      simp [callGlobally, blockedGlobally, ipBlockedGlobally, hcached]
    rw [hstate]
    refine ⟨h.ips, h.hosts, ?_, fun t' => (h.host_iff t').trans (hhost t').symm⟩
    intro t'
    have hpast := (h.ip_iff t).mp hcached
    rw [h.ip_iff t', List.mem_append, List.mem_singleton]
    constructor
    · intro hmem
      exact Or.inl hmem
    · rintro (hmem | hlast)
      · exact hmem
      · rwa [hlast]
  · have hstate : s.callGlobally db ⟨.ip, t⟩ =
        { s with mapGlobalBlockedIPs := Memo.fill (db.lists .ip) s.mapGlobalBlockedIPs t } := by
      simp only [callGlobally, blockedGlobally, ipBlockedGlobally, if_neg hcached]
      rfl
    rw [hstate]
    refine ⟨h.ips.fill t, h.hosts, ?_, fun t' => (h.host_iff t').trans (hhost t').symm⟩
    intro t'
    rw [Memo.isSome_fill_iff, h.ip_iff t']
    simp [or_comm]

theorem Caches.host_step (h : Caches db past s) (t : Text) :
    Caches db (past ++ [⟨.host, t⟩]) (s.callGlobally db ⟨.host, t⟩) := by
  have hip (t' : Text) : (⟨.ip, t'⟩ : GlobalCall) ∈ past ++ [⟨.host, t⟩] ↔ ⟨.ip, t'⟩ ∈ past := by
    simp
  by_cases hcached : (s.mapGlobalBlockedIPs t).isSome
  · have hstate : s.callGlobally db ⟨.host, t⟩ = s := by
      simp [callGlobally, blockedGlobally, hostBlockedGlobally, hcached]
    rw [hstate]
    refine ⟨h.ips, h.hosts, fun t' => (h.ip_iff t').trans (hip t').symm, ?_⟩
    intro t'
    have hpast := (h.ip_iff t).mp hcached
    rw [h.host_iff t', hostFirst_concat]
    constructor
    · intro hfirst
      exact Or.inl hfirst
    · rintro (hfirst | ⟨heq, hnot⟩)
      · exact hfirst
      · obtain ⟨-, rfl⟩ := GlobalCall.mk.inj heq
        exact (hnot hpast).elim
  · have hstate : s.callGlobally db ⟨.host, t⟩ =
        { s with mapGlobalBlockedHosts := Memo.fill (db.lists .host) s.mapGlobalBlockedHosts t } := by
      simp only [callGlobally, blockedGlobally, hostBlockedGlobally, if_neg hcached]
      rfl
    rw [hstate]
    refine ⟨h.ips, h.hosts.fill t, fun t' => (h.ip_iff t').trans (hip t').symm, ?_⟩
    intro t'
    have hpast : (⟨.ip, t⟩ : GlobalCall) ∉ past := fun hmem => hcached ((h.ip_iff t).mpr hmem)
    rw [Memo.isSome_fill_iff, h.host_iff t', hostFirst_concat, or_comm]
    apply or_congr_right
    constructor
    · rintro rfl
      exact ⟨rfl, hpast⟩
    · rintro ⟨heq, -⟩
      exact (GlobalCall.mk.inj heq).2.symm

theorem Caches.step (h : Caches db past s) (call : GlobalCall) :
    Caches db (past ++ [call]) (s.callGlobally db call) := by
  obtain ⟨type, t⟩ := call
  cases type with
  | host => exact h.host_step t
  | ip => exact h.ip_step t

theorem caches_run (db : Database) (s : MyVpnService) (calls : List GlobalCall) :
    Caches db calls (calls.foldl (callGlobally db) s.prepareGlobalRules) := by
  have hrun : Run.Along (callGlobally db) (fun _ _ => True) s.prepareGlobalRules calls :=
    .of_forall (fun _ _ => trivial) _ _
  exact hrun.history (fun _ _ e _ h => h.step e) [] caches_nil

theorem Caches.ip_exact (h : Caches db past s) (t : Text) :
    (s.ipBlockedGlobally db t).1 = db.lists .ip t := by
  unfold ipBlockedGlobally
  cases hcached : s.mapGlobalBlockedIPs t with
  | none => rfl
  | some v =>
    have hvalue := h.ips t v hcached
    simp [hvalue]

theorem Caches.host_exact_iff (h : Caches db past s) (t : Text) :
    (s.hostBlockedGlobally db t).1 = db.lists .host t ↔
      (db.lists .host t = true → ⟨.ip, t⟩ ∈ past → HostFirst past t) := by
  unfold hostBlockedGlobally
  rw [← h.ip_iff, ← h.host_iff]
  by_cases hip : (s.mapGlobalBlockedIPs t).isSome
  · simp only [if_pos hip]
    cases hhost : s.mapGlobalBlockedHosts t with
    | none => cases db.lists .host t <;> simp [hip]
    | some v =>
      have hvalue := h.hosts t v hhost
      simp [hvalue]
  · simp only [if_neg hip]
    exact iff_of_true rfl fun _ h => (hip h).elim

theorem lists_ofHosts_iff {hosts : List HostEntry} {type : HostType} {t : Text} :
    (Database.ofHosts hosts).lists type t = true ↔ IsGeneric hosts type t := by
  rw [← genericBlacklistContains_iff]
  cases type <;> rfl

/-- The caches are transparent exactly if no generic host is looked up as an address
first and as a host later. -/
theorem blockedGlobally_exact_iff (hosts : List HostEntry) (s : MyVpnService)
    (calls : List GlobalCall) :
    (∀ past call post, calls = past ++ call :: post →
      (((past.foldl (callGlobally (.ofHosts hosts)) s.prepareGlobalRules).blockedGlobally
        (.ofHosts hosts) call).1 = true ↔ IsGeneric hosts call.type call.target)) ↔
    ∀ past t post, calls = past ++ ⟨.host, t⟩ :: post → IsGeneric hosts .host t →
      ⟨.ip, t⟩ ∈ past → HostFirst past t := by
  constructor
  · intro hexact past t post heq hgeneric
    have hcaches := caches_run (.ofHosts hosts) s past
    have hcall := hexact past ⟨.host, t⟩ post heq
    rw [← lists_ofHosts_iff, ← Bool.eq_iff_iff] at hcall
    exact (hcaches.host_exact_iff t).mp hcall (lists_ofHosts_iff.mpr hgeneric)
  · rintro hfirst past ⟨type, t⟩ post heq
    have hcaches := caches_run (.ofHosts hosts) s past
    rw [← lists_ofHosts_iff, ← Bool.eq_iff_iff]
    cases type with
    | host =>
      apply (hcaches.host_exact_iff t).mpr
      intro hlists
      exact hfirst past t post heq (lists_ofHosts_iff.mp hlists)
    | ip => exact hcaches.ip_exact t

/-- A name that is listed as a host is not blocked once it was looked up as an address. -/
theorem not_blockedGlobally_exact :
    IsGeneric [⟨none, "a.b".toList, .host⟩] .host "a.b".toList ∧
      (((sample .blacklist).prepareGlobalRules.callGlobally
          (.ofHosts [⟨none, "a.b".toList, .host⟩]) ⟨.ip, "a.b".toList⟩).blockedGlobally
        (.ofHosts [⟨none, "a.b".toList, .host⟩]) ⟨.host, "a.b".toList⟩).1 = false := by
  refine ⟨⟨_, List.mem_singleton_self _, rfl, rfl, rfl⟩, ?_⟩
  decide

end MyVpnService

end NetGuard.Service
