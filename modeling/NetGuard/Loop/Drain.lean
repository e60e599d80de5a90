import NetGuard.Loop.Descriptors
import NetGuard.Loop.Timeout

/-! # An idle engine drains

When nothing arrives any more, two sweeps end every session: one that is later than the longest
timeout and closes them all, and one that is later than it by the time closed sessions are kept.
No descriptor of the whole run is open then.
-/
namespace NetGuard.Engine

section Spent
variable {env env' : Env} {s : NgSession} {out : Trace} {sessions maxsessions : Int}

/-- An entry that a sweep has closed, at its time. -/
def NgSession.Spent (env : Env) : NgSession → Prop
  | .icmp _ _ => False
  | .udp s _ => s.state = .closed ∧ ∃ out, s.time = env.time out
  | .tcp s sock _ => s.state = .close ∧ sock < 0 ∧ ∃ out, s.time = env.time out

theorem scaleTimeout_le {base : Int} (hbase : 0 ≤ base) (hsessions : 0 ≤ sessions)
    (hmax : 1 ≤ maxsessions) : scaleTimeout base sessions maxsessions ≤ base := by
  have hlow : 0 ≤ (sessions * 100).tdiv maxsessions := Int.tdiv_nonneg (by omega) (by omega)
  have hscale : base * (100 - (sessions * 100).tdiv maxsessions) ≤ base * 100 :=
    Int.mul_le_mul_of_nonneg_left (by omega) hbase
  have hdiv := Int.tdiv_le_tdiv (c := 100) (by omega) hscale
  rwa [Int.mul_tdiv_cancel _ (by omega)] at hdiv

/-- No timeout is longer than an hour, however few sessions there are. -/
theorem NgSession.timeout_le (s : NgSession) (hsessions : 0 ≤ sessions) (hmax : 1 ≤ maxsessions) :
    s.timeout sessions maxsessions ≤ epollTimeout := by
  have hbound {base : Int} (hbase : 0 ≤ base) (hle : base ≤ epollTimeout) :
      scaleTimeout base sessions maxsessions ≤ epollTimeout :=
    (scaleTimeout_le hbase hsessions hmax).trans hle
  cases s with
  | icmp s sock => exact hbound (by decide) (by decide)
  | udp s sock => exact hbound (by split <;> decide) (by split <;> decide)
  | tcp s sock events =>
    rw [timeout, getTcpTimeout_eq]
    exact hbound (by split <;> decide) (by split <;> decide)

theorem closeSession_closes (env : Env) {c : Conn} (hclosing : c.tcp.state = .closing) :
    (closeSession env c).tcp.state = .close ∧ (closeSession env c).socket < 0 ∧
      ∃ out, (closeSession env c).tcp.time = env.time out := by
  by_cases hsocket : c.socket ≥ 0
  · simp only [closeSession, if_pos hclosing, if_pos hsocket]
    exact ⟨trivial, by decide, _, rfl⟩
  · simp only [closeSession, if_pos hclosing, if_neg hsocket]
    exact ⟨trivial, Int.not_le.mp hsocket, _, rfl⟩

/-- A session past its timeout is closed, and one that was closed is dropped when it was kept
long enough. -/
theorem checkTcpSession_idle {c : Conn}
    (hexpired : c.tcp.time + getTcpTimeout c.tcp sessions maxsessions < env.time c.out)
    (hkept : c.tcp.time + tcpKeepTimeout < env.time c.out)
    (hstays : (checkTcpSession env sessions maxsessions c).2 = false) :
    (checkTcpSession env sessions maxsessions c).1.entry.Spent env := by
  simp only [checkTcpSession] at hstays ⊢
  generalize hended : (if c.tcp.state ≠ .closing ∧ c.tcp.state ≠ .close ∧
      c.tcp.time + getTcpTimeout c.tcp sessions maxsessions < env.time c.out then
    if c.tcp.state = .listen then c.setState .closing else writeRst env c
    else c) = ended at hstays ⊢
  have hclosing : ended.tcp.state = .closing := by
    by_cases hover : c.tcp.state ≠ .closing ∧ c.tcp.state ≠ .close
    · rw [if_pos ⟨hover.1, hover.2, hexpired⟩] at hended
      rw [← hended]
      split
      · rfl
      · exact writeRst_state hover.2
    · have hnot : ¬ (c.tcp.state ≠ .closing ∧ c.tcp.state ≠ .close ∧
          c.tcp.time + getTcpTimeout c.tcp sessions maxsessions < env.time c.out) :=
        fun h => hover ⟨h.1, h.2.1⟩
      rw [if_neg hnot] at hended
      subst hended
      by_contra hne
      have hclose : c.tcp.state = .close := by
        by_contra hopen
        exact hover ⟨hne, hopen⟩
      simp [closeSession, hclose, hkept] at hstays
  obtain ⟨hclose, hsocket, htime⟩ := closeSession_closes env hclosing
  rw [if_pos (.inr hclose)]
  exact ⟨hclose, hsocket, htime⟩

theorem checkUdpSession_idle {d : Datagram}
    (hexpired : d.udp.time + getUdpTimeout d.udp sessions maxsessions < env.time d.out)
    (hkept : d.udp.time + udpKeepTimeout < env.time d.out)
    (hstays : (checkUdpSession env sessions maxsessions d).2 = false) :
    (NgSession.udp (checkUdpSession env sessions maxsessions d).1.udp
      (checkUdpSession env sessions maxsessions d).1.socket).Spent env := by
  cases hstate : d.udp.state with
  | active =>
    simp only [checkUdpSession, hstate, hexpired, and_self, if_true]
    exact ⟨rfl, _, rfl⟩
  | finishing =>
    simp only [checkUdpSession, hstate, reduceCtorEq, false_and, if_false, if_true]
    exact ⟨rfl, _, rfl⟩
  | closed => simp [checkUdpSession, hstate, hkept] at hstays
  | blocked => simp [checkUdpSession, hstate, hkept] at hstays

/-- The sweep that comes later than every timeout. -/
theorem checkEntry_idle (hsessions : 0 ≤ sessions) (hmax : 1 ≤ maxsessions)
    (hidle : s.time + epollTimeout < env.time out) :
    ∀ t ∈ (checkEntry env sessions maxsessions s out).1, t.Spent env := by
  have hnow : (env.after out).time [] = env.time out := congrArg env.time (List.append_nil out)
  have htimeout := s.timeout_le hsessions hmax
  have hspent {t : NgSession} (h : t.Spent (env.after out)) : t.Spent env := by
    cases t with
    | icmp t sock => exact h
    | udp t sock =>
      obtain ⟨hstate, more, htime⟩ := h
      exact ⟨hstate, _, htime⟩
    | tcp t sock events =>
      obtain ⟨hstate, hsocket, more, htime⟩ := h
      exact ⟨hstate, hsocket, _, htime⟩
  intro t ht
  cases s with
  | icmp s sock =>
    have hexpired : s.time + getIcmpTimeout sessions maxsessions < env.time out := by
      simp only [NgSession.time, NgSession.timeout] at hidle htimeout
      omega
    simp [checkEntry, checkIcmpSession, hnow, hexpired] at ht
  | udp s sock =>
    simp only [NgSession.time, NgSession.timeout, epollTimeout] at hidle htimeout
    obtain ⟨hstays, hsome⟩ := Option.ite_none_left_eq_some.mp ht
    rw [← Option.some.inj hsome]
    refine hspent (checkUdpSession_idle ?_ ?_ (Bool.not_eq_true _ ▸ hstays))
    · simp only [hnow]
      omega
    · simp only [hnow, udpKeepTimeout]
      omega
  | tcp s sock events =>
    simp only [NgSession.time, NgSession.timeout, epollTimeout] at hidle htimeout
    obtain ⟨hstays, hsome⟩ := Option.ite_none_left_eq_some.mp ht
    rw [← Option.some.inj hsome]
    refine hspent (checkTcpSession_idle ?_ ?_ (Bool.not_eq_true _ ▸ hstays))
    · simp only [hnow]
      omega
    · simp only [hnow, tcpKeepTimeout]
      omega

/-- A later sweep drops a spent entry or leaves it as it is, but for its counters. -/
theorem checkEntry_of_spent (h : s.Spent env) :
    ∀ t ∈ (checkEntry env' sessions maxsessions s out).1, t.Spent env := by
  intro t ht
  cases s with
  | icmp s sock => exact absurd h id
  | udp s sock =>
    obtain ⟨hstate, htime⟩ := h
    obtain ⟨-, hsome⟩ := Option.ite_none_left_eq_some.mp ht
    rw [← Option.some.inj hsome]
    simpa [checkUdpSession, hstate, NgSession.Spent] using htime
  | tcp s sock events =>
    obtain ⟨hstate, hsocket, htime⟩ := h
    obtain ⟨-, hsome⟩ := Option.ite_none_left_eq_some.mp ht
    rw [← Option.some.inj hsome]
    simpa [checkTcpSession, closeSession, hstate, hsocket, NgSession.Spent, Conn.entry] using htime

theorem checkEntry_gone (h : s.Spent env)
    (hlater : ∀ out out', env.time out + tcpKeepTimeout < env'.time out') :
    (checkEntry env' sessions maxsessions s out).1 = none := by
  have hnow : (env'.after out).time [] = env'.time out := congrArg env'.time (List.append_nil out)
  cases s with
  | icmp s sock => exact absurd h id
  | udp s sock =>
    obtain ⟨hstate, before, htime⟩ := h
    have hlate := hlater before out
    have hkept : s.time + udpKeepTimeout < env'.time out := by
      simp only [tcpKeepTimeout] at hlate
      rw [htime, udpKeepTimeout]
      omega
    simp [checkEntry, checkUdpSession, hstate, hnow, hkept]
  | tcp s sock events =>
    obtain ⟨hstate, -, before, htime⟩ := h
    have hlate := hlater before out
    rw [← htime] at hlate
    simp [checkEntry, checkTcpSession, closeSession, hstate, hnow, hlate]

theorem monitorEvents_time (c : Conn) : (monitorEvents env c).2.2.tcp.time = c.tcp.time := by
  have hkept : (keepAlive env c).tcp.time = c.tcp.time := by
    simp only [keepAlive, writeAck]
    split <;> simp [writeOrClose_eq]
  have hsent : (if getSendWindow c.tcp > 0 then c else keepAlive env c).tcp.time = c.tcp.time := by
    split
    · rfl
    · exact hkept
  simp only [monitorEvents]
  split
  · rfl
  · split
    · split <;> simpa [probeBuffer] using hsent
    · rfl

theorem monitorEntry_time : ∀ t ∈ (monitorEntry env s out).1, t.time = s.time := by
  intro t ht
  cases s with
  | icmp s sock => rw [← Option.some.inj ht]
  | udp s sock => rw [← Option.some.inj ht]
  | tcp s sock events =>
    simp only [monitorEntry] at ht
    split at ht
    · rw [← Option.some.inj ht]
      simp only [NgSession.time, Conn.entry, monitorTcpSession]
      split
      · split <;> simp [monitorEvents_time]
      · exact monitorEvents_time _
    · rw [← Option.some.inj ht]

theorem monitorEntry_of_spent (h : s.Spent env) : monitorEntry env' s out = (some s, out) := by
  cases s with
  | icmp s sock => exact absurd h id
  | udp s sock => rfl
  | tcp s sock events => exact if_neg (Int.not_le.mpr h.2.1)

end Spent

section Rounds
variable {env env' : Env} {l : EventLoop}

theorem EventLoop.head_idle (hmax : 1 ≤ l.maxsessions) (hsweeps : l.Sweeps env)
    (hidle : ∀ s ∈ l.ngSession, ∀ out, s.time + epollTimeout < env.time out) :
    ∀ s ∈ (l.head env).ngSession, s.Spent env := by
  rw [(l.head_swept env hsweeps).1, swept, monitored_eq]
  have hmonitored : ∀ s ∈ (Table.sweep (monitorEntry env) l.ngSession l.out).1,
      ∀ out, s.time + epollTimeout < env.time out := by
    refine Table.forall_sweep (fun s out hs t ht out' => ?_) hidle _
    rw [monitorEntry_time t ht]
    exact hs out'
  exact Table.forall_sweep
    (fun s out hs => checkEntry_idle (Int.natCast_nonneg _) hmax (hs out)) hmonitored _

theorem EventLoop.monitored_of_spent (env' : Env) (h : ∀ s ∈ l.ngSession, s.Spent env) :
    ∀ s ∈ (Table.sweep (monitorEntry env') l.ngSession l.out).1, s.Spent env := by
  refine Table.forall_sweep (P := NgSession.Spent env) (fun s out hs t ht => ?_) h _
  rw [monitorEntry_of_spent hs] at ht
  exact Option.some.inj ht ▸ hs

theorem EventLoop.head_of_spent (h : ∀ s ∈ l.ngSession, s.Spent env) :
    ∀ s ∈ (l.head env').ngSession, s.Spent env := by
  simp only [head]
  split
  · exact Table.forall_sweep (P := NgSession.Spent env) (fun s out hs => checkEntry_of_spent hs)
      (monitored_of_spent env' h) _
  · exact monitored_of_spent env' h

theorem EventLoop.head_gone (h : ∀ s ∈ l.ngSession, s.Spent env) (hsweeps : l.Sweeps env')
    (hlater : ∀ out out', env.time out + tcpKeepTimeout < env'.time out') :
    (l.head env').ngSession = [] := by
  rw [(l.head_swept env' hsweeps).1, swept, monitored_eq, List.eq_nil_iff_forall_not_mem]
  refine Table.forall_sweep (P := NgSession.Spent env) (fun s out hs t ht => ?_)
    (monitored_of_spent env' h) _
  rw [checkEntry_gone hs hlater] at ht
  exact Option.some_ne_none t ht.symm

/-- Rounds of the loop in which nothing is reported. -/
def EventLoop.rounds (l : EventLoop) (envs : List Env) : EventLoop :=
  l.run (envs.map fun env => (env, .head))

theorem EventLoop.rounds_append (l : EventLoop) (envs envs' : List Env) :
    l.rounds (envs ++ envs') = (l.rounds envs).rounds envs' := by
  rw [rounds, List.map_append, run, List.foldl_append]
  rfl

theorem EventLoop.rounds_of_spent (h : ∀ s ∈ l.ngSession, s.Spent env) (envs : List Env) :
    ∀ s ∈ (l.rounds envs).ngSession, s.Spent env := by
  induction envs generalizing l with
  | nil => exact h
  | cons env' envs ih => exact ih (head_of_spent (l := { l with out := [] }) h)

theorem EventLoop.rounds_held (h : Held l.ngSession l.out) (envs : List Env) :
    Held (l.rounds envs).ngSession (l.rounds envs).out := by
  induction envs generalizing l with
  | nil => exact h
  | cons env envs ih => exact ih (l.step_held (env, .head) ⟨nofun, nofun⟩ h)

/-- In every run, once the sessions have been idle longer than the longest timeout, a sweep and
another one when closed sessions are no longer kept leave no session, and every descriptor that
the run obtained is closed. -/
theorem EventLoop.drains (args : Arguments) {es : List (Env × LoopEvent)}
    (hrun : Run.Along EventLoop.step (fun l e => l.Fresh e ∧ l.Grants e) (.init args) es)
    (hl : l = (EventLoop.init args).run es) (hmax : 1 ≤ l.maxsessions) (first last : Env)
    (between : List Env) (hfirst : EventLoop.Sweeps first { l with out := [] })
    (hlast : EventLoop.Sweeps last { l.rounds (first :: between) with out := [] })
    (hidle : ∀ s ∈ l.ngSession, ∀ out, s.time + epollTimeout < first.time out)
    (hlater : ∀ out out', first.time out + tcpKeepTimeout < last.time out') :
    (l.rounds (first :: between ++ [last])).ngSession = [] ∧
      ∀ n ≥ 0, ¬ Trace.IsOpen n (l.rounds (first :: between ++ [last])).out := by
  have hspent : ∀ s ∈ (l.rounds [first]).ngSession, s.Spent first :=
    head_idle (l := { l with out := [] }) hmax hfirst hidle
  have hbetween : ∀ s ∈ (l.rounds (first :: between)).ngSession, s.Spent first := by
    have hrounds := rounds_of_spent hspent between
    rwa [← rounds_append] at hrounds
  have hempty : (l.rounds (first :: between ++ [last])).ngSession = [] := by
    rw [rounds_append]
    exact head_gone (l := { l.rounds (first :: between) with out := [] }) hbetween hlast hlater
  refine ⟨hempty, fun n hn hopen => ?_⟩
  have hinit : Held (EventLoop.init args).ngSession (EventLoop.init args).out :=
    ⟨fun n _ => rfl, fun n _ => .nil, fun s hs => absurd hs List.not_mem_nil⟩
  have hheld : Held l.ngSession l.out :=
    hl ▸ hrun.invariant (P := fun l => Held l.ngSession l.out) EventLoop.step_held hinit
  have hbalanced := (rounds_held hheld (first :: between ++ [last])).balanced n hn
  rw [hempty, holders, List.countP_nil] at hbalanced
  rw [Trace.IsOpen] at hopen
  omega

/-- A clock that stands still. -/
def Env.clock (time ms : Int) : Env :=
  { Env.calm with
    time := fun _ => time
    ms := fun _ => ms }

theorem EventLoop.drains_sample :
    (((EventLoop.init .direct).run [(.calm, .tun .sampleDatagram)]).rounds
      [.clock 4000 1000, .clock 5000 2000]).ngSession = [] := by
  have hrun : Run.Along EventLoop.step (fun l e => l.Fresh e ∧ l.Grants e) (.init .direct)
      [(.calm, .tun .sampleDatagram)] := by
    refine ⟨⟨?_, ?_⟩, trivial⟩
    · rintro p h ⟨⟩ hjudged -
      obtain rfl := sampleDatagram_judged rfl hjudged
      intro _ hopen
      exact absurd hopen (Nat.lt_irrefl 0)
    · rintro p h ⟨⟩ hjudged -
      obtain rfl := sampleDatagram_judged rfl hjudged
      exact fun htcp => absurd htcp (by decide)
  obtain ⟨s, hlist, htime⟩ : ∃ s,
      ((EventLoop.init .direct).run [(.calm, .tun .sampleDatagram)]).ngSession = [s] ∧
        s.time = 0 := ⟨_, rfl, rfl⟩
  refine (drains .direct hrun rfl (by decide) (.clock 4000 1000) (.clock 5000 2000) [] (by decide)
    (by decide) ?_ ?_).1
  · rw [hlist]
    intro t ht out
    have hhour : (0 : Int) + 3600 < 4000 := by decide
    rw [List.mem_singleton.mp ht, htime]
    exact hhour
  · intro out out'
    have hkeep : (4000 : Int) + 300 < 5000 := by decide
    exact hkeep

end Rounds

end NetGuard.Engine
