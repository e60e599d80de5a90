import NetGuard.Engine.Loop
import NetGuard.Firewall.Verdict
import NetGuard.Tcp.Chain

/-! # The recheck of all sessions

`check_allowed` under a new policy, as a map over the session list: the entries of blocked
datagrams go, the live sessions the policy refuses are terminated, and the others stay as
they are and where they are.
-/
namespace NetGuard.Engine

/-- What the verdict on a session is asked for: the ports of ICMP are 0. -/
def NgSession.verdictQuery : NgSession → Query
  | .icmp s _ => ⟨s.version, ipprotoIcmp, s.saddr, 0, s.daddr, 0⟩
  | .udp s _ => s.query
  | .tcp s _ _ => s.query

def NgSession.blocked : NgSession → Bool
  | .udp s _ => s.state = .blocked
  | _ => false

def NgSession.terminated : NgSession → NgSession
  | .icmp s sock => .icmp { s with stop := true } sock
  | .udp s sock => .udp { s with state := .finishing } sock
  | .tcp s sock events => .tcp { s with
      remoteSeq := if s.state = .listen then s.remoteSeq + 1 else s.remoteSeq
      state := .closing } sock events

def NgSession.judged (verdict : Query → Int → Bool) (s : NgSession) : NgSession :=
  if s.live ∧ verdict s.verdictQuery s.uid = false then s.terminated else s

abbrev checkAllowed (env : Env) (args : Arguments) (list : List NgSession) (out : Trace) :
    List NgSession × Trace := Table.sweep (checkAllowedEntry env args) list out

section Entry
variable {env : Env} {args : Arguments} {verdict : Query → Int → Bool} {s : NgSession}

theorem NgSession.terminated_not_live (s : NgSession) : s.terminated.live = false := by
  cases s <;> simp [NgSession.terminated, NgSession.live]

theorem NgSession.terminated_not_blocked (s : NgSession) : s.terminated.blocked = false := by
  cases s <;> simp [NgSession.terminated, NgSession.blocked]

theorem checkTcpAllowed_entry (hobserve : args.observeOnly = false)
    (hverdict : ∀ out q uid, env.isAddressAllowed out q uid = verdict q uid) (s : TcpSession)
    (sock : Int) (events : Events) (out : Trace) :
    (checkTcpAllowed (env.after out) args ⟨s, sock, events, []⟩).entry =
      (NgSession.tcp s sock events).judged verdict := by
  by_cases hlive : s.state ≠ .closing ∧ s.state ≠ .close
  · obtain ⟨hclosing, hclose⟩ := hlive
    have hasked : (env.after out).isAddressAllowed [] s.query s.uid = verdict s.query s.uid :=
      hverdict _ _ _
    cases hallowed : verdict s.query s.uid with
    | true =>
      simp [checkTcpAllowed, NgSession.judged, NgSession.verdictQuery, NgSession.uid, Conn.entry,
        hobserve, hclosing, hclose, hasked, hallowed]
    | false =>
      simp [checkTcpAllowed, NgSession.judged, NgSession.verdictQuery, NgSession.uid,
        NgSession.live, NgSession.terminated, Conn.entry, writeRst_eq, hobserve, hclosing, hclose,
        hasked, hallowed]
      rfl
  · have hover : s.state = .closing ∨ s.state = .close := by
      by_contra hnot
      exact hlive (not_or.mp hnot)
    have hdead : ¬ (s.state ≠ .closing ∧ s.state ≠ .close) := hlive
    rcases hover with h | h <;>
      simp [checkTcpAllowed, NgSession.judged, NgSession.live, Conn.entry, h]

theorem checkAllowedEntry_eq (hobserve : args.observeOnly = false)
    (hverdict : ∀ out q uid, env.isAddressAllowed out q uid = verdict q uid) (out : Trace) :
    (checkAllowedEntry env args s out).1 =
      if !s.blocked then some (s.judged verdict) else none := by
  cases s with
  | icmp s sock =>
    by_cases hstop : s.stop = true
    · simp [checkAllowedEntry, NgSession.judged, NgSession.blocked, NgSession.live, hstop]
    · simp only [checkAllowedEntry, NgSession.judged, NgSession.blocked, NgSession.live,
        NgSession.verdictQuery, NgSession.uid, NgSession.terminated, hstop, hobserve, hverdict]
      cases verdict ⟨s.version, ipprotoIcmp, s.saddr, 0, s.daddr, 0⟩ s.uid <;> rfl
  | udp s sock =>
    cases hstate : s.state with
    | active =>
      simp only [checkAllowedEntry, NgSession.judged, NgSession.blocked, NgSession.live,
        NgSession.verdictQuery, NgSession.uid, NgSession.terminated, hstate, hobserve, hverdict]
      cases verdict s.query s.uid <;> simp
    | _ => simp [checkAllowedEntry, NgSession.judged, NgSession.blocked, NgSession.live, hstate]
  | tcp s sock events =>
    simp only [checkAllowedEntry, NgSession.blocked]
    rw [checkTcpAllowed_entry hobserve hverdict]
    rfl

theorem NgSession.judged_blocked (verdict : Query → Int → Bool) (s : NgSession) :
    (s.judged verdict).blocked = true → s.blocked = true := by
  intro hblocked
  unfold NgSession.judged at hblocked
  split at hblocked
  · rw [s.terminated_not_blocked] at hblocked
    exact absurd hblocked Bool.false_ne_true
  · exact hblocked

theorem NgSession.judged_live (hlive : (s.judged verdict).live = true) :
    verdict (s.judged verdict).verdictQuery (s.judged verdict).uid = true := by
  unfold NgSession.judged at hlive ⊢
  split
  next hrefused =>
    rw [if_pos hrefused, s.terminated_not_live] at hlive
    exact absurd hlive Bool.false_ne_true
  next hnot =>
    rw [if_neg hnot] at hlive
    cases hverdict : verdict s.verdictQuery s.uid with
    | true => rfl
    | false => exact absurd ⟨hlive, hverdict⟩ hnot

end Entry

section Recheck
variable {env : Env} {args : Arguments} {verdict : Query → Int → Bool}

/-- After the recheck all live sessions are allowed and no blocked entry is left; the others
are all there, in their order, and those that are allowed or over are unchanged. -/
theorem checkAllowed_enforces (hobserve : args.observeOnly = false)
    (hverdict : ∀ out q uid, env.isAddressAllowed out q uid = verdict q uid)
    (list : List NgSession) (out : Trace) :
    (∀ s ∈ (checkAllowed env args list out).1,
      (s.live = true → verdict s.verdictQuery s.uid = true) ∧ s.blocked = false) ∧
    (checkAllowed env args list out).1 =
      (list.filter (fun s => !s.blocked)).map (NgSession.judged verdict) ∧
    ∀ s : NgSession, verdict s.verdictQuery s.uid = true ∨ s.live = false →
      s.judged verdict = s := by
  have hmap : (checkAllowed env args list out).1 =
      (list.filter (fun s => !s.blocked)).map (NgSession.judged verdict) := by
    apply Table.sweep_eq_map
    intro s out
    exact checkAllowedEntry_eq hobserve hverdict out
  refine ⟨?_, hmap, ?_⟩
  · intro t ht
    rw [hmap] at ht
    obtain ⟨s, hs, rfl⟩ := List.mem_map.mp ht
    have hkept : s.blocked = false := by simpa using (List.mem_filter.mp hs).2
    refine ⟨NgSession.judged_live, ?_⟩
    by_contra hblocked
    have hwas := s.judged_blocked verdict (by simpa using hblocked)
    rw [hkept] at hwas
    exact Bool.false_ne_true hwas
  · intro s hs
    unfold NgSession.judged
    split
    next hrefused =>
      rcases hs with hallowed | hover
      · rw [hrefused.2] at hallowed
        exact absurd hallowed Bool.false_ne_true
      · rw [hover] at hrefused
        exact absurd hrefused.1 Bool.false_ne_true
    next => rfl

theorem checkAllowed_enforces_sample :
    (checkAllowed .strict .direct [(Conn.sample 100 ⟨[], by decide⟩).entry] []).1.any
      NgSession.live = false := by
  have hobserve : Arguments.direct.observeOnly = false := rfl
  have hverdict : ∀ out q uid, Env.strict.isAddressAllowed out q uid = (fun _ _ => false) q uid :=
    fun _ _ _ => rfl
  rw [List.any_eq_false]
  intro s hs hlive
  have hallowed := ((checkAllowed_enforces hobserve hverdict _ []).1 s hs).1
  exact absurd (hallowed hlive) Bool.false_ne_true

end Recheck

end NetGuard.Engine
