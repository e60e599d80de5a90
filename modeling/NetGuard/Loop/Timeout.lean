import NetGuard.Loop.Limit
import Mathlib.Data.Int.Order.Basic

/-! # How long the loop waits

The timeout that `handle_events` passes to `epoll_wait`: the smallest number of seconds the
sweep finds over the sessions it leaves live, or `EPOLL_MIN_CHECK` when it did not sweep or a
TCP session asked to be looked at again.
-/
namespace NetGuard.Engine

/-- `EPOLL_TIMEOUT`, in seconds. -/
def epollTimeout : Int := 3600

section Timeout
variable (sessions maxsessions : Int)

def NgSession.timeout : NgSession → Int
  | .icmp _ _ => getIcmpTimeout sessions maxsessions
  | .udp s _ => getUdpTimeout s sessions maxsessions
  | .tcp s _ _ => getTcpTimeout s sessions maxsessions

/-- The last second in which the sweep leaves the session live. -/
def NgSession.expiry (s : NgSession) : Int := s.time + s.timeout sessions maxsessions

/-- The seconds from `now` to the expiry, one more, in an `int`. -/
def NgSession.stimeout (s : NgSession) (now : Int) : Int :=
  (s.time + s.timeout sessions maxsessions - now + 1).bmod (2 ^ 32)

def shorten (now : Int) (timeout : Int) (s : NgSession) : Int :=
  if s.live then
    let stimeout := s.stimeout sessions maxsessions now
    if stimeout > 0 ∧ stimeout < timeout then stimeout else timeout
  else timeout

variable (env : Env)

/-- The sweep with its running `timeout`. -/
def sweepTimeout (now : Int) (list : List NgSession) (out : Trace) : Int :=
  (Table.sweep (Table.gather (checkEntry env sessions maxsessions) fun s out timeout =>
    (checkEntry env sessions maxsessions s out).1.elim timeout
      (shorten sessions maxsessions now timeout)) list (out, epollTimeout)).2.2

end Timeout

section Wait
variable (env : Env)

/-- What `monitor_tcp_session` returns for a TCP session with a socket. -/
def monitorRecheck : NgSession → Trace → Bool
  | .tcp s sock events, out =>
    0 ≤ sock && (monitorTcpSession (env.after out) ⟨s, sock, events, []⟩).2
  | _, _ => false

/-- The entries after the count of the sessions, the trace, and `recheck`. -/
def EventLoop.monitored (l : EventLoop) : List NgSession × Trace × Bool :=
  Table.sweep (Table.gather (monitorEntry env) fun s out recheck =>
    recheck || monitorRecheck env s out) l.ngSession (l.out, false)

/-- The head of the loop comes to its sweep. -/
def EventLoop.Sweeps (l : EventLoop) : Prop :=
  env.ms (l.monitored env).2.1 - l.lastCheck > epollMinCheck

instance (l : EventLoop) : Decidable (l.Sweeps env) :=
  inferInstanceAs (Decidable (_ > _))

/-- The clock as the sweep reads it before its first check. -/
def EventLoop.now (l : EventLoop) : Int := env.time (l.monitored env).2.1

/-- The last argument of `epoll_wait`, in milliseconds. -/
def EventLoop.wait (l : EventLoop) : Int :=
  let (list, out, recheck) := l.monitored env
  if l.Sweeps env then
    let timeout :=
      sweepTimeout (countSessions l.ngSession) l.maxsessions env (l.now env) list out
    if recheck then epollMinCheck else timeout * 1000
  else epollMinCheck

/-- Some TCP session asks to be looked at again when its turn of the monitoring comes. -/
def EventLoop.Rechecks (l : EventLoop) : Prop :=
  ∃ before s rest, l.ngSession = before ++ s :: rest ∧
    monitorRecheck env s (Table.sweep (monitorEntry env) before l.out).2 = true

/-- No reading of the clock in the sweep lies before the sweep's first one. -/
def EventLoop.Steady (l : EventLoop) : Prop :=
  ∀ out, (l.monitored env).2.1 <+: out → out <+: (l.head env).out → l.now env ≤ env.time out

/-- The seconds that a session has left when the sweep begins. -/
def EventLoop.left (l : EventLoop) (s : NgSession) : Int :=
  s.expiry (countSessions l.ngSession) l.maxsessions - l.now env

end Wait

section Sweep
variable {env : Env} {sessions maxsessions : Int}

theorem checkUdpSession_active {d : Datagram}
    (hstate : (checkUdpSession env sessions maxsessions d).1.udp.state = .active) :
    (checkUdpSession env sessions maxsessions d).1 = d ∧
      ¬ d.udp.time + getUdpTimeout d.udp sessions maxsessions < env.time d.out := by
  by_cases hexpired :
      d.udp.state = .active ∧ d.udp.time + getUdpTimeout d.udp sessions maxsessions < env.time d.out
  · simp [checkUdpSession, hexpired] at hstate
  · simp only [checkUdpSession, if_neg hexpired] at hstate ⊢
    cases hold : d.udp.state with
    | active => simpa [hold] using hexpired
    | finishing => simp [hold] at hstate
    | closed => simp [hold] at hstate
    | blocked => simp [hold] at hstate

theorem closeSession_open {c : Conn} (hopen : ¬ (closeSession env c).tcp.state.Over) :
    closeSession env c = c ∧ ¬ c.tcp.state.Over := by
  by_cases hclosing : c.tcp.state = .closing
  · simp [closeSession, hclosing, TcpState.Over] at hopen
  · have hsame : closeSession env c = c := if_neg hclosing
    rw [hsame] at hopen
    exact ⟨hsame, hopen⟩

theorem checkTcpSession_open {c : Conn}
    (hopen : ¬ (checkTcpSession env sessions maxsessions c).1.tcp.state.Over) :
    (checkTcpSession env sessions maxsessions c).1 = c ∧
      ¬ c.tcp.time + getTcpTimeout c.tcp sessions maxsessions < env.time c.out := by
  simp only [checkTcpSession] at hopen ⊢
  generalize hidle : (if c.tcp.state ≠ .closing ∧ c.tcp.state ≠ .close ∧
      c.tcp.time + getTcpTimeout c.tcp sessions maxsessions < env.time c.out then
    if c.tcp.state = .listen then c.setState .closing else writeRst env c
    else c) = idle at hopen ⊢
  have hstill : ¬ ((closeSession env idle).tcp.state = .closing ∨
      (closeSession env idle).tcp.state = .close) := by
    intro hover
    rw [if_pos hover] at hopen
    exact hopen hover
  obtain ⟨hsame, hopen⟩ := closeSession_open hstill
  rw [if_neg hstill, hsame]
  split at hidle
  next hexpired =>
    refine absurd (.inl ?_) hopen
    rw [← hidle]
    split
    · rfl
    · exact writeRst_state hexpired.2.1
  next hfresh =>
    subst hidle
    exact ⟨rfl, fun hexpired => hfresh ⟨fun h => hopen (.inl h), fun h => hopen (.inr h), hexpired⟩⟩

/-- What a check leaves live is not past its expiry. -/
theorem checkEntry_expiry {s t : NgSession} {out : Trace}
    (hkept : (checkEntry env sessions maxsessions s out).1 = some t) (hlive : t.live = true) :
    env.time out ≤ t.expiry sessions maxsessions := by
  have hnow : (env.after out).time [] = env.time out := congrArg env.time (List.append_nil out)
  cases s with
  | icmp s sock =>
    simp only [checkEntry, checkIcmpSession, hnow] at hkept
    split at hkept
    next => exact absurd hkept (by simp)
    next hfresh =>
      obtain rfl : NgSession.icmp s sock = t := by simpa using hkept
      rw [not_or, Int.not_lt] at hfresh
      exact hfresh.2
  | udp s sock =>
    simp only [checkEntry] at hkept
    split at hkept
    · exact absurd hkept (by simp)
    · obtain rfl := Option.some.inj hkept
      obtain ⟨hsame, hfresh⟩ := checkUdpSession_active (of_decide_eq_true hlive)
      rw [hsame]
      exact Int.not_lt.mp (hnow ▸ hfresh)
  | tcp s sock events =>
    simp only [checkEntry] at hkept
    split at hkept
    · exact absurd hkept (by simp)
    · obtain rfl := Option.some.inj hkept
      obtain ⟨hsame, hfresh⟩ := checkTcpSession_open (NgSession.live_tcp.mp hlive)
      rw [hsame]
      exact Int.not_lt.mp (hnow ▸ hfresh)

theorem checkEntry_extends (s : NgSession) (out : Trace) :
    out <+: (checkEntry env sessions maxsessions s out).2 := by
  cases s with
  | icmp s sock => exact List.prefix_append ..
  | udp s sock => exact List.prefix_append ..
  | tcp s sock events => exact List.prefix_append ..

theorem shorten_le (now timeout : Int) (s : NgSession) :
    shorten sessions maxsessions now timeout s ≤ timeout := by
  unfold shorten
  grind

/-- A session with time left, less than the longest timeout, is taken into the minimum. -/
theorem shorten_live {s : NgSession} {now : Int} (hlive : s.live = true)
    (hleft : 0 ≤ s.expiry sessions maxsessions - now)
    (hshort : s.expiry sessions maxsessions - now < epollTimeout) (timeout : Int) :
    shorten sessions maxsessions now timeout s ≤ s.expiry sessions maxsessions - now + 1 := by
  simp only [epollTimeout] at hshort
  have hexact : s.stimeout sessions maxsessions now = s.expiry sessions maxsessions - now + 1 :=
    Int.bmod_eq_of_le (by simp only [NgSession.expiry] at hleft; omega)
      (by simp only [NgSession.expiry] at hshort; omega)
  simp only [shorten, hlive, hexact]
  grind

end Sweep

section Loop
variable (env : Env) (l : EventLoop)

theorem EventLoop.monitored_eq : l.monitored env =
    ((Table.sweep (monitorEntry env) l.ngSession l.out).1,
      (Table.sweep (monitorEntry env) l.ngSession l.out).2, (l.monitored env).2.2) :=
  Table.sweep_gather ..

theorem EventLoop.recheck_iff : (l.monitored env).2.2 = true ↔ l.Rechecks env :=
  (Table.gather_or ..).trans (or_iff_right Bool.false_ne_true)

theorem EventLoop.wait_recheck (h : ¬ l.Sweeps env ∨ l.Rechecks env) :
    l.wait env = epollMinCheck := by
  rw [← recheck_iff] at h
  simp only [wait]
  split
  next hswept => exact if_pos (h.resolve_left (not_not_intro hswept))
  next => rfl

/-- The sweep of the head, from what the monitoring left. -/
def EventLoop.swept : List NgSession × Trace :=
  Table.sweep (checkEntry env (countSessions l.ngSession) l.maxsessions)
    (l.monitored env).1 (l.monitored env).2.1

theorem EventLoop.head_swept (hswept : l.Sweeps env) :
    (l.head env).ngSession = (l.swept env).1 ∧ (l.head env).out = (l.swept env).2 := by
  rw [Sweeps, monitored_eq] at hswept
  rw [swept, monitored_eq]
  simp only [head, if_pos hswept]
  exact ⟨trivial, trivial⟩

theorem EventLoop.wait_swept (hswept : l.Sweeps env) (hnot : ¬ l.Rechecks env) :
    l.wait env = (l.head env).ngSession.foldl
      (shorten (countSessions l.ngSession) l.maxsessions (l.now env)) epollTimeout * 1000 := by
  have hrecheck : (l.monitored env).2.2 ≠ true := fun h => hnot ((l.recheck_iff env).mp h)
  simp only [wait, if_pos hswept, if_neg hrecheck, sweepTimeout, Table.gather_kept,
    (l.head_swept env hswept).1]
  rfl

variable {env l}

/-- While the clock is not set back, every session that is still live has time left. -/
theorem EventLoop.left_nonneg {s : NgSession} (hswept : l.Sweeps env) (hsteady : l.Steady env)
    (hs : s ∈ (l.head env).ngSession) (hlive : s.live = true) : 0 ≤ l.left env s := by
  obtain ⟨hlist, hout⟩ := l.head_swept env hswept
  rw [hlist] at hs
  obtain ⟨a, out, hbegin, hkept, hend⟩ :=
    Table.mem_sweep (R := List.IsPrefix) List.prefix_refl (fun _ _ _ => List.IsPrefix.trans)
      checkEntry_extends hs
  have hexpiry := checkEntry_expiry hkept hlive
  have hnow := hsteady out hbegin (hout ▸ (checkEntry_extends a out).trans hend)
  exact Int.sub_nonneg_of_le (hnow.trans hexpiry)

/-- The loop waits at most one second longer than a live session has left. -/
theorem EventLoop.wait_left {s : NgSession} (hswept : l.Sweeps env)
    (hs : s ∈ (l.head env).ngSession) (hlive : s.live = true) (hleft : 0 ≤ l.left env s) :
    l.wait env ≤ 1000 * (l.left env s + 1) := by
  by_cases hrechecks : l.Rechecks env
  · rw [l.wait_recheck env (.inr hrechecks), epollMinCheck]
    omega
  · obtain ⟨hmax, hmin⟩ := Table.foldl_le (shorten_le (l.now env)) (l.head env).ngSession epollTimeout
    rw [l.wait_swept env hswept hrechecks, Int.mul_comm]
    apply Int.mul_le_mul_of_nonneg_left _ (by decide)
    by_cases hshort : l.left env s < epollTimeout
    · exact hmin _ s hs (shorten_live hlive hleft hshort)
    · exact hmax.trans (by omega)

/-- What `epoll_wait` is told: at most `EPOLL_MIN_CHECK` without a sweep or for a session that
asks to be looked at again, and else no more than a second beyond any expiry. -/
theorem EventLoop.wait_bounded (env : Env) (l : EventLoop) :
    (l.Sweeps env → ∀ s ∈ (l.head env).ngSession, s.live = true →
      (0 ≤ l.left env s → l.wait env ≤ 1000 * (l.left env s + 1)) ∧
      (l.Steady env → 0 ≤ l.left env s)) ∧
    (¬ l.Sweeps env ∨ l.Rechecks env → l.wait env ≤ epollMinCheck) := by
  constructor
  · intro hswept s hs hlive
    exact ⟨wait_left hswept hs hlive, fun hsteady => left_nonneg hswept hsteady hs hlive⟩
  · intro h
    exact Int.le_of_eq (l.wait_recheck env h)

/-- An active session, and before it one whose datagram the kernel refused. -/
def EventLoop.refused : EventLoop :=
  { (EventLoop.init .direct).run [(.calm, .tun .sampleDatagram),
      ({ Env.calm with sendto := fun _ => .failed }, .tun .secondDatagram)] with out := [] }

def Env.waited : Env := { Env.calm with ms := fun _ => 1000 }

theorem EventLoop.wait_bounded_sample : ∃ s ∈ (EventLoop.refused.head .waited).ngSession,
    s.live = true ∧
      EventLoop.refused.wait .waited ≤ 1000 * (EventLoop.refused.left .waited s + 1) := by
  obtain ⟨s, t, hlist, hlive⟩ : ∃ s t, (EventLoop.refused.head .waited).ngSession = [s, t] ∧
      t.live = true := ⟨_, _, rfl, rfl⟩
  have ht : t ∈ (EventLoop.refused.head .waited).ngSession := by simp [hlist]
  have hbounds := (wait_bounded .waited .refused).1 (by decide) t ht hlive
  exact ⟨t, ht, hlive, hbounds.1 (hbounds.2 fun _ _ _ => Int.le_refl 0)⟩

/-- The clock is set back from 400 to 300 while the sweep closes its first socket. -/
def Env.setBack : Env :=
  { Env.calm with
    ms := fun _ => 1000
    time := fun out => if out.isEmpty then 400 else 300 }

/-- Time left is counted from the first or from the last reading of the sweep. -/
theorem EventLoop.not_wait_bounded :
    ¬ ∀ (env : Env) (l : EventLoop), l.Sweeps env →
      ∀ s ∈ (l.head env).ngSession, s.live = true → l.wait env ≤ 1000 *
        (s.expiry (countSessions l.ngSession) l.maxsessions -
          min (l.now env) (env.time (l.head env).out) + 1) := by
  intro h
  obtain ⟨s, hlist, hlive, hexpiry⟩ : ∃ s,
      (EventLoop.refused.head .setBack).ngSession = [s] ∧ s.live = true ∧
        s.expiry (countSessions EventLoop.refused.ngSession) EventLoop.refused.maxsessions = 300 :=
    ⟨_, rfl, rfl, rfl⟩
  have hbound := h .setBack .refused (by decide) s
    (hlist ▸ List.mem_singleton_self s) hlive
  rw [hexpiry] at hbound
  exact absurd hbound (by decide)

end Loop

end NetGuard.Engine
