import NetGuard.Library.Recent
import NetGuard.Service.Policy
import Mathlib.Data.List.Basic

/-! # The remembered uids

`cacheUid` and `getUidCached` share `mapIPKeyUid`. The key is built from the whole
connection, but two keys are equal without their source address and source port, so the
map has one slot for all connections to one server.
-/
namespace NetGuard.Service

/-- What an upcall passes of a packet: its version, protocol and ends. -/
structure Connection where
  version : Int
  protocol : Int
  saddr : Text
  sport : Int
  daddr : Text
  dport : Int
  deriving DecidableEq

namespace Connection

def key (c : Connection) (uid : Int) : IPKey :=
  .make c.version c.protocol c.saddr c.sport c.daddr c.dport uid

def SharesKey (c d : Connection) : Prop :=
  c.version = d.version ∧ c.protocol = d.protocol ∧ c.daddr = d.daddr ∧
    (c.protocol = 6 ∨ c.protocol = 17 → c.dport = d.dport)

instance (c d : Connection) : Decidable (c.SharesKey d) := inferInstanceAs (Decidable (_ ∧ _))

theorem identity_eq_iff {c d : Connection} (uid : Int) :
    (c.key uid).identity = (d.key uid).identity ↔ c.SharesKey d := by
  constructor
  · intro h
    obtain ⟨hversion, hprotocol, hdaddr, hdport, -⟩ := IPKey.Identity.mk.inj h
    have hprotocol : c.protocol = d.protocol := hprotocol
    refine ⟨hversion, hprotocol, hdaddr, ?_⟩
    intro hports
    have hports' : d.protocol = 6 ∨ d.protocol = 17 := by rwa [← hprotocol]
    simpa only [key, IPKey.make, if_pos hports, if_pos hports'] using hdport
  · rintro ⟨hversion, hprotocol, hdaddr, hdport⟩
    simp only [key, IPKey.make, IPKey.identity, hversion, hdaddr, ← hprotocol]
    by_cases hports : c.protocol = 6 ∨ c.protocol = 17
    · rw [if_pos hports, if_pos hports, hdport hports]
    · rw [if_neg hports, if_neg hports]

end Connection

abbrev UidCache := Map IPKey.Identity Int

def cacheUid (c : Connection) (uid : Int32) (mapIPKeyUid : UidCache) : UidCache :=
  mapIPKeyUid.put (c.key (-1)).identity uid.toInt

def getUidCached (c : Connection) (mapIPKeyUid : UidCache) : Int :=
  match mapIPKeyUid (c.key (-1)).identity with
  | some lUid => MyVpnService.toInt lUid
  | none => -1

abbrev CacheCall := Connection × Int32

def cacheUids (calls : List CacheCall) : UidCache :=
  calls.foldl (fun m call => cacheUid call.1 call.2 m) fun _ => none

def CacheCall.write (call : CacheCall) : Option (IPKey.Identity × Int) :=
  some ((call.1.key (-1)).identity, call.2.toInt)

section Run
variable {calls : List CacheCall} {c : Connection}

theorem toInt_int32 (uid : Int32) : MyVpnService.toInt uid.toInt = uid.toInt :=
  Int32.toInt_bmod uid

/-- The uid that a call caches in the slot of `c`. -/
def CacheCall.uidFor (c : Connection) (call : CacheCall) : Option Int :=
  Recent.writtenAt (c.key (-1)).identity call.write

theorem cacheUids_apply :
    cacheUids calls (c.key (-1)).identity = Recent.last (CacheCall.uidFor c) calls := by
  have h := Recent.replay_apply CacheCall.write (c.key (-1)).identity calls fun _ => none
  rwa [Option.or_none] at h

theorem uidFor_eq_none_iff {call : CacheCall} :
    call.uidFor c = none ↔ ¬ call.1.SharesKey c := by
  rw [← Connection.identity_eq_iff (-1)]
  simp [CacheCall.uidFor, CacheCall.write, Recent.writtenAt]

theorem uidFor_eq_some_iff {call : CacheCall} {lUid : Int} :
    call.uidFor c = some lUid ↔ call.1.SharesKey c ∧ call.2.toInt = lUid := by
  rw [← Connection.identity_eq_iff (-1), CacheCall.uidFor, Recent.writtenAt_eq_some_iff,
    CacheCall.write, Option.some.injEq, Prod.mk.injEq]

theorem getUidCached_of_last {pre post : List CacheCall} {call : CacheCall}
    (heq : calls = pre ++ call :: post) (hshares : call.1.SharesKey c)
    (hpost : ∀ d ∈ post, ¬ d.1.SharesKey c) :
    getUidCached c (cacheUids calls) = call.2.toInt := by
  have hlast : Recent.last (CacheCall.uidFor c) calls = some call.2.toInt := by
    apply Recent.last_eq_some_iff.mpr
    refine ⟨pre, call, post, heq, uidFor_eq_some_iff.mpr ⟨hshares, rfl⟩, ?_⟩
    intro d hd
    exact uidFor_eq_none_iff.mpr (hpost d hd)
  unfold getUidCached
  rw [cacheUids_apply, hlast]
  exact toInt_int32 call.2

/-- A uid comes from the last call in the slot of the connection. -/
theorem exists_last_of_nonneg (hnonneg : 0 ≤ getUidCached c (cacheUids calls)) :
    ∃ pre call post, calls = pre ++ call :: post ∧ call.1.SharesKey c ∧
      ∀ d ∈ post, ¬ d.1.SharesKey c := by
  unfold getUidCached at hnonneg
  rw [cacheUids_apply] at hnonneg
  cases hlast : Recent.last (CacheCall.uidFor c) calls with
  | none => simp [hlast] at hnonneg
  | some lUid =>
    obtain ⟨pre, call, post, heq, hcall, hpost⟩ := Recent.last_eq_some_iff.mp hlast
    refine ⟨pre, call, post, heq, (uidFor_eq_some_iff.mp hcall).1, ?_⟩
    intro d hd
    exact uidFor_eq_none_iff.mp (hpost d hd)

/-- A remembered uid is the connection's own, and with it the uid of the app that owns
the connection, exactly if the last call for the server cached nothing else. -/
theorem getUidCached_own_iff (calls : List CacheCall) (c : Connection) :
    ((0 ≤ getUidCached c (cacheUids calls) →
        ∃ call ∈ calls, call.1 = c ∧ call.2.toInt = getUidCached c (cacheUids calls)) ∧
      ∀ owner : Connection → Int,
        (∀ call ∈ calls, 0 ≤ call.2.toInt → call.2.toInt = owner call.1) →
        0 ≤ getUidCached c (cacheUids calls) → getUidCached c (cacheUids calls) = owner c) ↔
    ∀ pre call post, calls = pre ++ call :: post → call.1.SharesKey c →
      (∀ d ∈ post, ¬ d.1.SharesKey c) → 0 ≤ call.2.toInt → (c, call.2) ∈ calls := by
  constructor
  · rintro ⟨hown, -⟩ pre call post heq hshares hpost hnonneg
    rw [getUidCached_of_last heq hshares hpost] at hown
    obtain ⟨own, hmem, rfl, huid⟩ := hown hnonneg
    rwa [← Int32.toInt_inj.mp huid]
  · intro hlast
    have hown : 0 ≤ getUidCached c (cacheUids calls) →
        ∃ call ∈ calls, call.1 = c ∧ call.2.toInt = getUidCached c (cacheUids calls) := by
      intro hnonneg
      obtain ⟨pre, call, post, heq, hshares, hpost⟩ := exists_last_of_nonneg hnonneg
      have hget := getUidCached_of_last heq hshares hpost
      rw [hget] at hnonneg ⊢
      exact ⟨(c, call.2), hlast pre call post heq hshares hpost hnonneg, rfl, rfl⟩
    refine ⟨hown, ?_⟩
    intro owner howner hnonneg
    obtain ⟨call, hmem, rfl, huid⟩ := hown hnonneg
    rw [← huid] at hnonneg ⊢
    exact howner call hmem hnonneg

end Run

def Connection.toSample (sport : Int) : Connection :=
  ⟨4, 6, "10.1.10.1".toList, sport, "93.184.216.34".toList, 443⟩

/-- One app's uid answers for the connection of another app to the same server. -/
theorem not_getUidCached_own :
    getUidCached (.toSample 40001) (cacheUids [(.toSample 40000, 10001)]) = 10001 ∧
      ¬ ∀ calls c, 0 ≤ getUidCached c (cacheUids calls) →
        ∃ call ∈ calls, call.1 = c ∧ call.2.toInt = getUidCached c (cacheUids calls) := by
  have hget : getUidCached (.toSample 40001) (cacheUids [(.toSample 40000, 10001)]) = 10001 := by
    decide
  refine ⟨hget, ?_⟩
  intro hown
  obtain ⟨call, hmem, hconnection, -⟩ :=
    hown [(.toSample 40000, 10001)] (.toSample 40001) (by rw [hget]; decide)
  obtain rfl := List.mem_singleton.mp hmem
  exact absurd hconnection (by decide)

end NetGuard.Service
