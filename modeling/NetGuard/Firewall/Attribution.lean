import NetGuard.Firewall.Verdict

/-! # Whose packet it is

`get_uid_from_session` takes the uid of the first entry its test accepts. The test does
not compare protocols: an entry of another transport can stand in front.
-/
namespace NetGuard.Engine

variable {p : Packet} {h : IpHdr} {list : List NgSession}

def NgSession.carries (h : IpHdr) : NgSession → Bool
  | .icmp _ _ => h.isIcmp
  | .udp _ _ => h.protocol = ipprotoUdp
  | .tcp _ _ _ => h.protocol = ipprotoTcp

def NgSession.OfPacket (p : Packet) (h : IpHdr) (s : NgSession) : Prop :=
  s.carries h = true ∧
    match s with
    | .icmp s _ => s.toEndpoints = (p.flow h.payload h.version).toEndpoints
    | .udp s _ => s.toFlow = p.flow h.payload h.version
    | .tcp s _ _ => s.toFlow = p.flow h.payload h.version

theorem NgSession.ofPacket_of_matchesUid {s : NgSession} (hcarries : s.carries h = true)
    (hmatches : s.matchesUid p h.version h.payload = true) : s.OfPacket p h := by
  refine ⟨hcarries, ?_⟩
  cases s with
  | icmp s sock =>
    simp only [NgSession.matchesUid, Bool.and_eq_true, decide_eq_true_eq] at hmatches
    exact hmatches.2
  | udp s sock => simpa [NgSession.matchesUid] using hmatches
  | tcp s sock events => simpa [NgSession.matchesUid] using hmatches

theorem getUidFromSession_eq (p : Packet) (version : IpVersion) (payload : Nat)
    (list : List NgSession) : getUidFromSession p version payload list =
      ((list.find? fun s => s.matchesUid p version payload).map NgSession.uid).getD (-1) := by
  induction list with
  | nil => rfl
  | cons s rest ih =>
    by_cases hs : s.matchesUid p version payload = true
    · simp [getUidFromSession, hs]
    · simp [getUidFromSession, hs, ih]

/-- The first entry the test accepts has a uid but another transport than the packet, and
no session of the packet itself has that uid. -/
def Shadowed (p : Packet) (h : IpHdr) (list : List NgSession) : Prop :=
  ∃ s, (list.find? fun s => s.matchesUid p h.version h.payload) = some s ∧
    0 ≤ s.uid ∧ s.carries h = false ∧ ∀ t ∈ list, t.OfPacket p h → t.uid ≠ s.uid

/-- The uid found is that of a session of the packet, unless that session is shadowed. -/
theorem getUidFromSession_ofPacket_iff (p : Packet) (h : IpHdr) (list : List NgSession) :
    (0 ≤ getUidFromSession p h.version h.payload list →
      ∃ s ∈ list, s.OfPacket p h ∧ s.uid = getUidFromSession p h.version h.payload list) ↔
    ¬ Shadowed p h list := by
  rw [getUidFromSession_eq]
  constructor
  · rintro hown ⟨s, hfirst, huid, hcarries, hother⟩
    rw [hfirst] at hown
    obtain ⟨t, ht, hof, heq⟩ := hown huid
    exact hother t ht hof heq
  · intro hnot huid
    cases hfirst : list.find? fun s => s.matchesUid p h.version h.payload with
    | none =>
      rw [hfirst] at huid
      exact absurd huid (by decide)
    | some s =>
      rw [hfirst] at huid
      by_cases hcarries : s.carries h = true
      · refine ⟨s, List.mem_of_find?_eq_some hfirst, ?_, rfl⟩
        exact NgSession.ofPacket_of_matchesUid hcarries (List.find?_some hfirst)
      · by_contra hnone
        refine hnot ⟨s, hfirst, huid, by simpa using hcarries, fun t ht hof heq => hnone ?_⟩
        exact ⟨t, ht, hof, heq⟩

/-- A ping of another app to the same host decides the uid of a SYN. -/
theorem not_getUidFromSession_ofPacket :
    let ping : NgSession := .icmp
      { version := .v4, saddr := [10, 0, 0, 2], daddr := [93, 184, 216, 34], time := 0,
        uid := 1001, id := 0, stop := false } 9
    Judged .direct .sampleSyn 0 409 [ping] ⟨.v4, ipprotoTcp, 20⟩ ∧
      getUidFromSession .sampleSyn .v4 20 [ping] = 1001 ∧
      ¬ ∃ s ∈ [ping], s.OfPacket .sampleSyn ⟨.v4, ipprotoTcp, 20⟩ ∧ s.uid = 1001 := by
  refine ⟨⟨rfl, rfl, rfl⟩, rfl, ?_⟩
  rintro ⟨s, hs, ⟨hcarries, -⟩, -⟩
  rw [List.mem_singleton.mp hs] at hcarries
  exact absurd hcarries (by decide)

end NetGuard.Engine
