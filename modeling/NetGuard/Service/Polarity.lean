import NetGuard.Service.Policy

/-! # The polarity of the rules on addresses

`blockedByRule` says whether an address is blocked, `isAddressAllowed` whether it is
allowed. Where the rules decide, the second returns the answer of the first unchanged.
-/
namespace NetGuard.Service

variable {value : Text} {target : CheckRuleTarget} {rules : List Rule}

def Rule.Decides (value : Text) (target : CheckRuleTarget) (rule : Rule) : Prop :=
  rule.targets target ≠ [] ∧
    (value ∈ rule.targets target ∨ (rule.type = .whitelist ∧ rule.whitelistExclusive = true))

def Rule.Ends (target : CheckRuleTarget) (rule : Rule) : Prop :=
  rule.type = .blacklist ∧ rule.targets target ≠ []

/-- Every rule that decides stands behind a blacklist where the loop ends. -/
def Undecided (value : Text) (target : CheckRuleTarget) (rules : List Rule) : Prop :=
  ∀ before rule rest, rules = before ++ rule :: rest → rule.Decides value target →
    ∃ b ∈ before, b.Ends target

theorem undecided_cons {rule : Rule} (hends : ¬ rule.Ends target) :
    Undecided value target (rule :: rules) ↔
      ¬ rule.Decides value target ∧ Undecided value target rules := by
  constructor
  · intro h
    refine ⟨?_, ?_⟩
    · intro hdecides
      obtain ⟨b, hb, -⟩ := h [] rule rules rfl hdecides
      simp at hb
    · intro before r rest heq hdecides
      obtain ⟨b, hb, hbends⟩ := h (rule :: before) r rest (by simp [heq]) hdecides
      rcases List.mem_cons.mp hb with rfl | hb
      · exact (hends hbends).elim
      · exact ⟨b, hb, hbends⟩
  · rintro ⟨hnot, hrest⟩ before r rest heq hdecides
    cases before with
    | nil =>
      obtain ⟨rfl, -⟩ := List.cons.inj heq
      exact (hnot hdecides).elim
    | cons b before =>
      obtain ⟨-, htail⟩ := List.cons.inj heq
      obtain ⟨c, hc, hcends⟩ := hrest before r rest htail hdecides
      exact ⟨c, List.mem_cons_of_mem _ hc, hcends⟩

theorem undecided_of_ends {rule : Rule} (hends : rule.Ends target) :
    Undecided value target (rule :: rules) ↔ ¬ rule.Decides value target := by
  constructor
  · intro h hdecides
    obtain ⟨b, hb, -⟩ := h [] rule rules rfl hdecides
    simp at hb
  · intro hnot before r rest heq hdecides
    cases before with
    | nil =>
      obtain ⟨rfl, -⟩ := List.cons.inj heq
      exact (hnot hdecides).elim
    | cons b before =>
      obtain ⟨rfl, -⟩ := List.cons.inj heq
      exact ⟨rule, List.mem_cons_self, hends⟩

theorem checkRules_finished_iff :
    (checkRules value target rules).checkFinished = false ↔ Undecided value target rules := by
  induction rules with
  | nil => simp [checkRules, Undecided]
  | cons rule rest ih =>
    by_cases hempty : rule.targets target = []
    · have hends : ¬ rule.Ends target := fun h => h.2 hempty
      have hnot : ¬ rule.Decides value target := fun h => h.1 hempty
      simp [checkRules, hempty, ih, undecided_cons hends, hnot]
    · cases htype : rule.type with
      | blacklist =>
        rw [undecided_of_ends ⟨htype, hempty⟩]
        simp [checkRules, hempty, htype, Rule.Decides]
      | whitelist =>
        have hends : ¬ rule.Ends target := by simp [Rule.Ends, htype]
        rw [undecided_cons hends, ← ih]
        by_cases hlisted : value ∈ rule.targets target
        · simp [checkRules, hempty, htype, hlisted, Rule.Decides]
        cases hexclusive : rule.whitelistExclusive with
        | true => simp [checkRules, hempty, htype, hlisted, hexclusive, Rule.Decides]
        | false => simp [checkRules, hempty, htype, hlisted, hexclusive, Rule.Decides]

theorem checkRules_blocked (h : (checkRules value target rules).blocked = true) :
    (checkRules value target rules).checkFinished = true := by
  induction rules with
  | nil => simp [checkRules] at h
  | cons rule rest ih =>
    simp only [checkRules] at h ⊢
    split at h
    next hempty =>
      rw [if_pos hempty]
      exact ih h
    next hempty =>
      rw [if_neg hempty]
      split at h
      next => exact h
      next =>
        split at h
        · simp at h
        · split at h
          next hlisted hexclusive => rw [if_neg hlisted, if_pos hexclusive]
          next hlisted hexclusive =>
            rw [if_neg hlisted, if_neg hexclusive]
            exact ih h

def Database.empty : Database := ⟨fun _ => some false, fun _ => some false⟩

namespace MyVpnService

variable {s : MyVpnService} {db : Database} {version protocol : Int} {saddr : Text} {sport : Int}
  {daddr : Text} {dport uid : Int}

/-- The verdict has the polarity of the rules only where the rules say nothing. -/
theorem isAddressAllowed_polarity_iff (hall : uid ∉ s.setUidBlockAll) (hself : uid ≠ s.myUid) :
    (((s.blockedByRule uid daddr .ip).blocked = true →
        (s.isAddressAllowed db version protocol saddr sport daddr dport uid).1 = false) ∧
      (s.blockedByRule uid daddr .ip = ⟨false, true⟩ →
        (s.isAddressAllowed db version protocol saddr sport daddr dport uid).1 = true)) ↔
    Undecided daddr .ip ((s.mapUidRules uid).getD []) := by
  have hundecided : Undecided daddr .ip ((s.mapUidRules uid).getD []) ↔
      (s.blockedByRule uid daddr .ip).checkFinished = false := by
    unfold blockedByRule
    cases s.mapUidRules uid with
    | none => simp [Undecided]
    | some rules => exact checkRules_finished_iff.symm
  have hblocked (h : (s.blockedByRule uid daddr .ip).blocked = true) :
      (s.blockedByRule uid daddr .ip).checkFinished = true := by
    unfold blockedByRule at h ⊢
    cases hrules : s.mapUidRules uid with
    | none => simp [hrules] at h
    | some rules =>
      rw [hrules] at h
      exact checkRules_blocked h
  rw [hundecided]
  generalize hresult : s.blockedByRule uid daddr .ip = result at *
  obtain ⟨blocked, finished⟩ := result
  cases finished with
  | false =>
    -- nothing was decided, so nothing is claimed
    refine iff_of_true ⟨?_, ?_⟩ rfl
    · intro h
      exact absurd (hblocked h) Bool.false_ne_true
    · intro h
      exact absurd (RuleCheckResult.mk.inj h).2 (by decide)
  | true =>
    have hallowed :
        (s.isAddressAllowed db version protocol saddr sport daddr dport uid).1 = blocked := by
      have hall' : s.setUidBlockAll.contains uid = false := by simpa using hall
      simp only [isAddressAllowed, hall', hself, hresult, Bool.false_eq_true, if_false, if_true]
    rw [hallowed]
    cases blocked with
    | true => exact iff_of_false (fun h => absurd (h.1 rfl) (by decide)) (by decide)
    | false => exact iff_of_false (fun h => absurd (h.2 rfl) (by decide)) (by decide)

def sample (type : RuleType) : MyVpnService where
  myUid := 10000
  setUidBlockAll := []
  setUidBlockQuic := []
  mapUidRules := fun uid =>
    if uid = 10001 then some [⟨type, false, [], ["93.184.216.34".toList]⟩] else none
  mapGlobalBlockedHosts := fun _ => none
  mapGlobalBlockedIPs := fun _ => none
  mapIPKeySni := fun _ => none
  mapIpUidDomain := fun _ => none

theorem isAddressAllowed_polarity_sample :
    (((sample .blacklist).blockedByRule 10001 "1.1.1.1".toList .ip).blocked = true →
        ((sample .blacklist).isAddressAllowed .empty 4 6 "10.0.0.2".toList 40000
          "1.1.1.1".toList 80 10001).1 = false) ∧
      ((sample .blacklist).blockedByRule 10001 "1.1.1.1".toList .ip = ⟨false, true⟩ →
        ((sample .blacklist).isAddressAllowed .empty 4 6 "10.0.0.2".toList 40000
          "1.1.1.1".toList 80 10001).1 = true) := by
  apply (isAddressAllowed_polarity_iff (by decide) (by decide)).mpr
  rw [← checkRules_finished_iff]
  decide

/-- The blacklisted address is allowed and the whitelisted one is not. -/
theorem not_isAddressAllowed_polarity :
    ((sample .blacklist).blockedByRule 10001 "93.184.216.34".toList .ip = ⟨true, true⟩ ∧
      ((sample .blacklist).isAddressAllowed .empty 4 6 "10.0.0.2".toList 40000
        "93.184.216.34".toList 80 10001).1 = true) ∧
    ((sample .whitelist).blockedByRule 10001 "93.184.216.34".toList .ip = ⟨false, true⟩ ∧
      ((sample .whitelist).isAddressAllowed .empty 4 6 "10.0.0.2".toList 40000
        "93.184.216.34".toList 80 10001).1 = false) := by
  decide

end MyVpnService

end NetGuard.Service
