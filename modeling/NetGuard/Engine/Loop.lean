import NetGuard.Engine.Handlers

/-! # The event loop

`session.c`: the recheck of all sessions when the engine starts, the head of the loop
with its monitoring and its sweep, and one packet or one readiness event at a time. What
`epoll_wait` reports is left to the events of a run.
-/
namespace NetGuard.Engine

section Entry
variable (env : Env) (args : Arguments)

/-- `check_allowed` for one entry. All ICMP is asked about as `IPPROTO_ICMP`. -/
def checkAllowedEntry : NgSession → Trace → Option NgSession × Trace
  | .icmp s sock, out =>
    if s.stop ∨ args.observeOnly then (some (.icmp s sock), out)
    else
      let q : Query := ⟨s.version, ipprotoIcmp, s.saddr, 0, s.daddr, 0⟩
      let s := if env.isAddressAllowed out q s.uid then s else { s with stop := true }
      (some (.icmp s sock), out ++ [.upcall (.isAddressAllowed q s.uid)])
  | .udp s sock, out =>
    match s.state with
    | .active =>
      if args.observeOnly then (some (.udp s sock), out)
      else
        let q := s.query
        let s := if env.isAddressAllowed out q s.uid then s else { s with state := .finishing }
        (some (.udp s sock), out ++ [.upcall (.isAddressAllowed q s.uid)])
    | .blocked => (none, out)
    | _ => (some (.udp s sock), out)
  | .tcp s sock events, out =>
    let c := checkTcpAllowed (env.after out) args ⟨s, sock, events, []⟩
    (some c.entry, out ++ c.out)

def monitorEntry : NgSession → Trace → Option NgSession × Trace
  | .tcp s sock events, out =>
    if 0 ≤ sock then
      let c := (monitorTcpSession (env.after out) ⟨s, sock, events, []⟩).1
      (some c.entry, out ++ c.out)
    else (some (.tcp s sock events), out)
  | s, out => (some s, out)

variable (sessions maxsessions : Int)

def checkEntry : NgSession → Trace → Option NgSession × Trace
  | .icmp s sock, out =>
    let (e, del) := checkIcmpSession (env.after out) sessions maxsessions ⟨s, sock, []⟩
    (if del then none else some (.icmp e.icmp e.socket), out ++ e.out)
  | .udp s sock, out =>
    let (d, del) := checkUdpSession (env.after out) sessions maxsessions ⟨s, sock, []⟩
    (if del then none else some (.udp d.udp d.socket), out ++ d.out)
  | .tcp s sock events, out =>
    let (c, del) := checkTcpSession (env.after out) sessions maxsessions ⟨s, sock, events, []⟩
    (if del then none else some c.entry, out ++ c.out)

/-- One readiness event of the entry's socket. A UDP socket is read once per event: the
source repeats it, at most `UDP_YIELD` times, while the socket stays readable. -/
def checkSocket (ev : Events) : NgSession → NgSession × Trace
  | .icmp s sock =>
    let e := checkIcmpSocket env args ev ⟨s, sock, []⟩
    (.icmp e.icmp e.socket, e.out)
  | .udp s sock =>
    if !ev.epollErr && ev.epollIn then
      let d := checkUdpSocket env args ev ⟨s, sock, []⟩
      (.udp d.udp d.socket, d.out)
    else (.udp s sock, [])
  | .tcp s sock events =>
    let c := checkTcpSocket env args ev ⟨s, sock, events, []⟩
    (c.entry, c.out)

def clearEntry (s : NgSession) (out : Trace) : Option NgSession × Trace :=
  let sock := match s with
    | .icmp _ sock | .udp _ sock | .tcp _ sock _ => sock
  (none, if 0 ≤ sock then out ++ [.close sock] else out)

end Entry

def NgSession.live : NgSession → Bool
  | .icmp s _ => !s.stop
  | .udp s _ => s.state = .active
  | .tcp s _ _ => s.state ≠ .closing ∧ s.state ≠ .close

def countSessions (list : List NgSession) : Int := list.countP NgSession.live

def sessionMax : Int := 1024 * 40 / 100

/-- The limit for a soft `RLIMIT_NOFILE`, a product of 64 bits cast to `int`. -/
def maxSessions : Option UInt64 → Int
  | none => sessionMax
  | some soft => min (soft * 40 / 100).toUInt32.toBitVec.toInt sessionMax

structure EventLoop where
  args : Arguments
  ngSession : List NgSession
  out : Trace
  sessions : Int
  maxsessions : Int
  lastCheck : Int

def EventLoop.init (args : Arguments) : EventLoop := ⟨args, [], [], 0, sessionMax, 0⟩

inductive LoopEvent
  | start (args : Arguments) (soft : Option UInt64)
  | head
  | tun (p : Packet)
  | socket (i : Nat) (ev : Events)
  | clear

section Handle
variable (env : Env)

def EventLoop.start (args : Arguments) (soft : Option UInt64) (l : EventLoop) : EventLoop :=
  let (list, out) := Table.sweep (checkAllowedEntry env args) l.ngSession l.out
  ⟨args, list, out, 0, maxSessions soft, 0⟩

/-- The head of the loop: count and monitor the sessions, and sweep them if the last
sweep is old enough. -/
def EventLoop.head (l : EventLoop) : EventLoop :=
  let sessions := countSessions l.ngSession
  let (list, out) := Table.sweep (monitorEntry env) l.ngSession l.out
  let ms := env.ms out
  if ms - l.lastCheck > epollMinCheck then
    let (list, out) := Table.sweep (checkEntry env sessions l.maxsessions) list out
    { l with ngSession := list, out := out, sessions := sessions, lastCheck := ms }
  else { l with ngSession := list, out := out, sessions := sessions }

def EventLoop.tun (p : Packet) (l : EventLoop) : EventLoop :=
  let ctx := handleIp env l.args p l.sessions l.maxsessions ⟨l.ngSession, l.out⟩
  { l with ngSession := ctx.ngSession, out := ctx.out }

def EventLoop.socket (i : Nat) (ev : Events) (l : EventLoop) : EventLoop :=
  match l.ngSession.splitAt i with
  | (before, s :: rest) =>
    let (s, out) := checkSocket (env.after l.out) l.args ev s
    { l with ngSession := before ++ s :: rest, out := l.out ++ out }
  | (_, []) => l

def EventLoop.clear (l : EventLoop) : EventLoop :=
  let (list, out) := Table.sweep clearEntry l.ngSession l.out
  { l with ngSession := list, out := out }

def LoopEvent.handle : LoopEvent → EventLoop → EventLoop
  | .start args soft, l => l.start env args soft
  | .head, l => l.head env
  | .tun p, l => l.tun env p
  | .socket i ev, l => l.socket env i ev
  | .clear, l => l.clear

end Handle

def EventLoop.step (l : EventLoop) (e : Env × LoopEvent) : EventLoop :=
  let d := e.2.handle e.1 { l with out := [] }
  { d with out := l.out ++ d.out }

def EventLoop.run (l : EventLoop) (es : List (Env × LoopEvent)) : EventLoop :=
  es.foldl EventLoop.step l

end NetGuard.Engine
