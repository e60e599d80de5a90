import NetGuard.Service.Firewall

/-! # The two threads

`startVpn` and `stopVpn` run on the command thread, `handle_events` on a thread that each start
creates anew. They share the maps of the service, the sessions, the flag `stopping`, the pipe and
the field `tunnelThread`. One lock is taken, to write by `preparePackageRules` and to read by
`isAddressAllowed` and `isDomainBlocked`; what keeps the threads apart is that one works on the
rest only while the other is known not to. Here each thread takes one step at a time, in any
order, and the kernel answers as it likes. What is written by one thread is seen by the other at
once, `join` is not interrupted, and what `onCreate` and `onDestroy` stop on the main thread is left
out.
-/
namespace NetGuard.Service
open Engine (Arguments Events EventLoop LoopEvent NgSession Output)

section Machine

def epollEvents : Nat := 20
def tunYield : Nat := 10
def udpYield : Nat := 10

/-- An event that `epoll_wait` reports. Sessions are added at the front of their list, so that
one keeps its place from the end while a batch is handled. -/
inductive Ready
  | pipe
  | tun
  | socket (place : Nat)
  deriving DecidableEq, Repr

/-- Where a tunnel thread is: `starting` to `closing` in `jni_run`. In a batch it counts what it
has read for the first event left. One that is `caught` stays where it is for good. -/
inductive Phase
  | created
  | starting
  | opening
  | head
  | sweeping
  | polling
  | handling (count : Nat) (events : List Ready)
  | closing
  | exiting
  | leaving
  | dead
  | caught
  deriving DecidableEq, Repr

inductive TunRead
  | packet (p : Engine.Packet)
  | nothing
  | failed

/-- What a tunnel thread does next, with what the kernel answers. -/
inductive Work
  | checkAllowed (o : Surroundings) (args : Arguments) (soft : Option UInt64)
  | epollCreate (fails : Bool)
  | test
  | sweep (o : Surroundings)
  | interrupted
  | failed
  | timeout
  | ready (events : List Ready)
  | readPipe
  | readTun (o : Surroundings) (read : TunRead)
  | readSocket (o : Surroundings) (ev : Events)
  | next
  | close
  | exit
  | die

/-- Where the command thread is: in `startVpn` with what it has found, or in `stopVpn`. -/
inductive Command
  | idle
  | establish (i : Installation)
  | prepareCacheMaps (i : Installation)
  | prepareGlobalRules (i : Installation)
  | preparePackageRules (i : Installation)
  | prepareApplicationSettings (i : Installation)
  | startNative (i : Installation)
  | jniStart (i : Installation)
  | create (i : Installation)
  | start (i : Installation) (t : Nat)
  | stopNative
  | jniStop
  | write
  | find
  | isAlive (t : Nat)
  | join (t : Nat)
  | forget
  | clear
  | close

/-- What the command thread does next: a message is handled when it is idle, and a step may
throw. A reload is a stop and a start. -/
inductive Order
  | startVpn (i : Installation)
  | stopVpn
  | proceed (o : Surroundings)
  | throws

inductive Turn
  | command (order : Order)
  | tunnel (t : Nat) (w : Work)

/-- Both threads with what they share. The tunnel threads stand in the order in which they
were created, and `locked` says that the command thread still holds the lock from a start. -/
structure Tunnel where
  world : Firewall
  stopping : Bool
  pipe : Nat
  vpnInterface : Bool
  tunnelThread : Option Nat
  command : Command
  threads : List Phase
  locked : Bool

def Tunnel.init (w : Firewall) : Tunnel := ⟨w, false, 0, false, none, .idle, [], false⟩

/-- The questions that the service answers under the lock. -/
def takesLock : Output → Bool
  | .upcall (.isAddressAllowed _ _) | .upcall (.isDomainBlocked _ _) => true
  | _ => false

namespace Tunnel
variable (r : Native) (s : Tunnel)

def isUdp (place : Nat) : Bool :=
  match s.world.loop.ngSession.reverse[place]? with
  | some (.udp _ _) => true
  | _ => false

/-- What `epoll_wait` may report. -/
def reports : Ready → Bool
  | .pipe => 0 < s.pipe
  | .tun => true
  | .socket place => place < s.world.loop.ngSession.length

/-- Whether an event is read once more. -/
def reads (count : Nat) : Ready → Bool
  | .pipe => true
  | .tun => count < tunYield && !s.stopping
  | .socket place => if s.isUdp place then count < udpYield && !s.stopping else count = 0

/-- Whether an event may be left. -/
def leaves (count : Nat) : Ready → Bool
  | .pipe => false
  | .tun => true
  | .socket place => s.isUdp place || 0 < count

/-- The next phase, if the thread can do that work now. -/
def next : Phase → Work → Option Phase
  | .starting, .checkAllowed _ _ _ => some .opening
  | .opening, .epollCreate _ => some .head
  | .head, .test => some (if s.stopping then .closing else .sweeping)
  | .sweeping, .sweep _ => some .polling
  | .polling, .interrupted => some .head
  | .polling, .failed => some .closing
  | .polling, .timeout => if s.pipe = 0 then some .head else none
  | .polling, .ready events =>
    if 0 < events.length ∧ events.length ≤ epollEvents ∧ events.all s.reports then
      some (.handling 0 events)
    else none
  | .handling _ (.pipe :: rest), .readPipe => some (.handling 0 rest)
  | .handling count (.tun :: rest), .readTun _ read =>
    if s.reads count .tun then
      match read with
      | .failed => some .closing
      | _ => some (.handling (count + 1) (.tun :: rest))
    else none
  | .handling count (.socket place :: rest), .readSocket _ _ =>
    if s.reads count (.socket place) then some (.handling (count + 1) (.socket place :: rest))
    else none
  | .handling count (event :: rest), .next =>
    if s.leaves count event then some (.handling 0 rest) else none
  | .handling _ [], .next => some .head
  | .closing, .close => some .exiting
  | .exiting, .exit => some .leaving
  | .leaving, .die => some .dead
  | _, _ => none

def handle (o : Surroundings) (e : LoopEvent) : Tunnel :=
  { s with world := s.world.step r (o, .loop e) }

/-- Sessions are found by their pointers. -/
def socketEvent : Phase → Events → LoopEvent
  | .handling _ (.socket place :: _), ev => .socket (s.world.loop.ngSession.length - 1 - place) ev
  | _, ev => .socket s.world.loop.ngSession.length ev

/-- What the work does to what is shared. -/
def effect (phase : Phase) : Work → Tunnel
  | .checkAllowed o args soft => s.handle r o (.start args soft)
  | .epollCreate fails => { s with stopping := s.stopping || fails }
  | .sweep o => s.handle r o .head
  | .readPipe => { s with pipe := s.pipe - 1 }
  | .readTun o (.packet p) => s.handle r o (.tun p)
  | .readSocket o ev => s.handle r o (s.socketEvent phase ev)
  | .exit => { s with tunnelThread := none }
  | _ => s

/-- The event of the loop that the work handles. -/
def event (phase : Phase) : Work → Option (Surroundings × LoopEvent)
  | .checkAllowed o args soft => some (o, .start args soft)
  | .sweep o => some (o, .head)
  | .readTun o (.packet p) => some (o, .tun p)
  | .readSocket o ev => some (o, s.socketEvent phase ev)
  | _ => none

/-- The thread does not get past a loop over a packet that does not end, nor past a question that
takes the lock while it is held. -/
def stays : Output → Bool
  | .hang => true
  | out => s.locked && takesLock out

def catches (phase : Phase) (w : Work) : Bool :=
  (s.event phase w).any fun e => (s.world.outputs r e.1 e.2).any s.stays

/-- The calls before that were made. What the thread had begun to change is not read again: the
sessions are left as they were. -/
def stay (phase : Phase) (w : Work) : Tunnel :=
  match s.event phase w with
  | some (o, e) =>
    let out := (s.world.outputs r o e).takeWhile fun out => !s.stays out
    { s with world := { s.world with
        calls := s.world.calls ++ r.traceCalls o out
        session := s.world.session.after r o out } }
  | none => s

def work (t : Nat) (w : Work) : Option Tunnel :=
  s.threads[t]?.bind fun phase =>
    (s.next phase w).map fun phase' =>
      if s.catches r phase w then { s.stay r phase w with threads := s.threads.set t .caught }
      else { s.effect r phase w with threads := s.threads.set t phase' }

def prepare (f : Session → Session) (command : Command) : Tunnel :=
  { s with world := { s.world with session := f s.world.session }, command }

/-- One step of the command thread. The calls since the start are counted from the first map
that it makes. If `preparePackageRules` throws, the lock is not given back. -/
def order : Order → Option Tunnel
  | .startVpn i =>
    match s.command with
    | .idle => some { s with command := if s.vpnInterface then .idle else .establish i }
    | _ => none
  | .stopVpn =>
    match s.command with
    | .idle => some { s with command := .stopNative }
    | _ => none
  | .throws =>
    match s.command with
    | .establish _ | .prepareCacheMaps _ | .prepareGlobalRules _ | .prepareApplicationSettings _
    | .start _ _ => some { s with command := .idle }
    | .preparePackageRules _ => some { s with locked := true, command := .idle }
    | .write => if 0 < s.pipe then some { s with command := .find } else none
    | _ => none
  | .proceed o =>
    match s.command with
    | .idle => none
    | .establish i => some { s with vpnInterface := true, command := .prepareCacheMaps i }
    | .prepareCacheMaps i =>
      some ({ s with world := { s.world with installation := i, calls := [] } }.prepare
        Session.prepareCacheMaps (.prepareGlobalRules i))
    | .prepareGlobalRules i =>
      some (s.prepare Session.prepareGlobalRules (.preparePackageRules i))
    | .preparePackageRules i =>
      some (s.prepare (Session.preparePackageRules i) (.prepareApplicationSettings i))
    | .prepareApplicationSettings i =>
      some (s.prepare (Session.prepareApplicationSettings i) (.startNative i))
    | .startNative i =>
      some { s with command := if s.tunnelThread.isNone then .jniStart i else .idle }
    | .jniStart i => some { s with stopping := false, command := .create i }
    | .create i =>
      some { s with
        threads := s.threads ++ [.created]
        tunnelThread := some s.threads.length
        command := .start i s.threads.length }
    | .start _ t => some { s with threads := s.threads.set t .starting, command := .idle }
    | .stopNative =>
      some { s with command := if s.tunnelThread.isSome then .jniStop else .close }
    | .jniStop => some { s with stopping := true, command := .write }
    | .write => some { s with pipe := s.pipe + 1, command := .find }
    | .find =>
      some { s with command := match s.tunnelThread with
        | some t => .isAlive t
        | none => .forget }
    | .isAlive t =>
      some { s with command :=
        if s.threads[t]? = some .created ∨ s.threads[t]? = some .dead then .forget else .join t }
    | .join t => if s.threads[t]? = some .dead then some { s with command := .forget } else none
    | .forget => some { s with tunnelThread := none, command := .clear }
    | .clear => some { s.handle r o .clear with command := .close }
    | .close => some { s with vpnInterface := false, command := .idle }

def step : Turn → Option Tunnel
  | .command order => s.order r order
  | .tunnel t w => s.work r t w

def run (es : List Turn) : Option Tunnel := Run.Steps (Tunnel.step r) s es

end Tunnel

end Machine

section Phases

/-- Between `start()` and the last that the thread has to do with the others. -/
def Phase.active : Phase → Bool
  | .created | .leaving | .dead => false
  | _ => true

/-- Past the recheck of the sessions, and not caught. -/
def Phase.running : Phase → Bool
  | .created | .starting | .leaving | .dead | .caught => false
  | _ => true

/-- While the command thread is here, a tunnel thread may be at work. -/
def Command.beside : Command → Bool
  | .idle | .stopNative | .jniStop | .write | .find | .isAlive _ | .join _ => true
  | _ => false

variable {s s' : Tunnel} {phase phase' : Phase} {w : Work} {r : Native} {t : Nat}

/-- What a thread can do: it is at work, or it ends. -/
theorem Tunnel.active_of_next (h : s.next phase w = some phase') :
    phase.active = true ∨ phase = .leaving ∧ w = .die ∧ phase' = .dead := by
  cases phase with
  | created | dead | caught => exact absurd h (by simp [next])
  | leaving =>
    cases w with
    | die => exact .inr ⟨rfl, rfl, (Option.some.inj h).symm⟩
    | _ => exact absurd h (by simp [next])
  | _ => exact .inl rfl

/-- It stays at work until it leaves. -/
theorem Tunnel.next_active (h : s.next phase w = some phase') (hactive : phase.active = true) :
    phase'.active = true ∧ w ≠ .exit ∨ phase = .exiting ∧ w = .exit ∧ phase' = .leaving := by
  unfold next at h
  split at h <;> grind [Phase.active]

theorem Tunnel.next_running (h : s.next phase w = some phase') (hactive : phase'.active = true) :
    phase.running = true ∧ phase'.running = true ∨
      ∃ o args soft, phase = .starting ∧ w = .checkAllowed o args soft ∧ phase' = .opening := by
  unfold next at h
  split at h <;> grind [Phase.active, Phase.running]

section Fields
variable {o : Surroundings} {e : LoopEvent} {f : Session → Session} {c : Command}

@[simp] theorem Tunnel.handle_stopping : (s.handle r o e).stopping = s.stopping := rfl
@[simp] theorem Tunnel.handle_pipe : (s.handle r o e).pipe = s.pipe := rfl
@[simp] theorem Tunnel.handle_interface : (s.handle r o e).vpnInterface = s.vpnInterface := rfl
@[simp] theorem Tunnel.handle_thread : (s.handle r o e).tunnelThread = s.tunnelThread := rfl
@[simp] theorem Tunnel.handle_command : (s.handle r o e).command = s.command := rfl
@[simp] theorem Tunnel.handle_threads : (s.handle r o e).threads = s.threads := rfl

@[simp] theorem Tunnel.prepare_stopping : (s.prepare f c).stopping = s.stopping := rfl
@[simp] theorem Tunnel.prepare_pipe : (s.prepare f c).pipe = s.pipe := rfl
@[simp] theorem Tunnel.prepare_interface : (s.prepare f c).vpnInterface = s.vpnInterface := rfl
@[simp] theorem Tunnel.prepare_thread : (s.prepare f c).tunnelThread = s.tunnelThread := rfl
@[simp] theorem Tunnel.prepare_command : (s.prepare f c).command = c := rfl
@[simp] theorem Tunnel.prepare_threads : (s.prepare f c).threads = s.threads := rfl

end Fields

@[simp] theorem Tunnel.effect_command : (s.effect r phase w).command = s.command := by
  unfold effect
  split <;> rfl

@[simp] theorem Tunnel.effect_vpnInterface :
    (s.effect r phase w).vpnInterface = s.vpnInterface := by
  unfold effect
  split <;> rfl

theorem Tunnel.effect_tunnelThread (h : w ≠ .exit) :
    (s.effect r phase w).tunnelThread = s.tunnelThread := by
  unfold effect
  split <;> first | rfl | exact absurd rfl h

theorem Tunnel.effect_stopping (h : s.stopping = true) :
    (s.effect r phase w).stopping = true := by
  unfold effect
  split <;> simp [handle, h]

theorem Tunnel.effect_locked : (s.effect r phase w).locked = s.locked := by
  unfold effect
  split <;> rfl

theorem Tunnel.stay_locked : (s.stay r phase w).locked = s.locked := by
  unfold stay
  split <;> rfl

@[simp] theorem Tunnel.stay_command : (s.stay r phase w).command = s.command := by
  unfold stay
  split <;> rfl

@[simp] theorem Tunnel.stay_stopping : (s.stay r phase w).stopping = s.stopping := by
  unfold stay
  split <;> rfl

@[simp] theorem Tunnel.stay_pipe : (s.stay r phase w).pipe = s.pipe := by
  unfold stay
  split <;> rfl

@[simp] theorem Tunnel.stay_vpnInterface : (s.stay r phase w).vpnInterface = s.vpnInterface := by
  unfold stay
  split <;> rfl

@[simp] theorem Tunnel.stay_tunnelThread : (s.stay r phase w).tunnelThread = s.tunnelThread := by
  unfold stay
  split <;> rfl

theorem Tunnel.stays_iff {out : Output} :
    s.stays out = true ↔ out = .hang ∨ s.locked = true ∧ takesLock out = true := by
  cases out <;> simp [stays, takesLock]

theorem Tunnel.catches_iff : s.catches r phase w = true ↔
    ∃ o e out, s.event phase w = some (o, e) ∧ out ∈ s.world.outputs r o e ∧
      s.stays out = true := by
  unfold catches
  cases s.event phase w with
  | none => simp
  | some event => simp [Prod.ext_iff]

/-- A thread is caught at work. -/
theorem Tunnel.active_of_catches (hnext : s.next phase w = some phase')
    (hcatches : s.catches r phase w = true) : phase.active = true := by
  rcases active_of_next hnext with hactive | ⟨rfl, rfl, rfl⟩
  · exact hactive
  · exact absurd hcatches Bool.false_ne_true

/-- What one step of a tunnel thread does. -/
theorem Tunnel.work_cases (h : s.work r t w = some s') :
    ∃ phase phase', s.threads[t]? = some phase ∧ s.next phase w = some phase' ∧
      (s' = { s.effect r phase w with threads := s.threads.set t phase' } ∨
        phase.active = true ∧ s.catches r phase w = true ∧
          s' = { s.stay r phase w with threads := s.threads.set t .caught }) := by
  obtain ⟨phase, hphase, hnext⟩ := Option.bind_eq_some_iff.mp h
  obtain ⟨phase', hphase', hs⟩ := Option.map_eq_some_iff.mp hnext
  refine ⟨phase, phase', hphase, hphase', ?_⟩
  split at hs
  next hcatches => exact .inr ⟨active_of_catches hphase' hcatches, hcatches, hs.symm⟩
  next => exact .inl hs.symm

end Phases

section Owned
variable {s s' : Tunnel} {r : Native} {t : Nat} {w : Work} {a : Order} {phase phase' : Phase}

/-- What the command thread may rely on where it is. -/
def Command.Relies (s : Tunnel) : Command → Prop
  | .idle | .stopNative | .jniStop | .write | .find => True
  | .establish _ | .clear | .close => s.tunnelThread = none
  | .prepareCacheMaps _ | .prepareGlobalRules _ | .preparePackageRules _
  | .prepareApplicationSettings _ | .startNative _ | .jniStart _ | .create _ =>
    s.tunnelThread = none ∧ s.vpnInterface = true
  | .start _ t => s.tunnelThread = some t ∧ s.threads[t]? = some .created
  | .isAlive t =>
    (s.tunnelThread = none ∨ s.tunnelThread = some t) ∧ t < s.threads.length
  | .join t =>
    (s.tunnelThread = none ∨ s.tunnelThread = some t) ∧ t < s.threads.length ∧
      s.threads[t]? ≠ some .created
  | .forget => ∀ phase ∈ s.threads, phase.active = false

/-- A thread at work is the one that the field names, and the field names one only while the
interface is open. -/
structure Tunnel.Owned (s : Tunnel) : Prop where
  owner : ∀ t phase, s.threads[t]? = some phase → phase.active = true → s.tunnelThread = some t
  named : ∀ t, s.tunnelThread = some t → t < s.threads.length
  interface : s.tunnelThread ≠ none → s.vpnInterface = true
  relies : s.command.Relies s

theorem Tunnel.Owned.beside (h : s.Owned) (hphase : s.threads[t]? = some phase)
    (hactive : phase.active = true) : s.command.beside = true := by
  have howner := h.owner t phase hphase hactive
  have hrelies := h.relies
  cases hcommand : s.command with
  | start i t' =>
    rw [hcommand] at hrelies
    obtain ⟨hthread, hcreated⟩ := hrelies
    obtain rfl := Option.some.inj (howner.symm.trans hthread)
    rw [Option.some.inj (hphase.symm.trans hcreated)] at hactive
    exact absurd hactive Bool.false_ne_true
  | forget =>
    rw [hcommand] at hrelies
    exact absurd hactive (by simp [hrelies phase (List.mem_of_getElem? hphase)])
  | _ => grind [Command.Relies, Command.beside]

theorem Tunnel.Owned.idle (h : s.Owned) (hnone : s.tunnelThread = none) :
    ∀ phase ∈ s.threads, phase.active = false := by
  intro phase hmem
  obtain ⟨t, hphase⟩ := List.getElem?_of_mem hmem
  by_contra hactive
  have howner := h.owner t phase hphase (by simpa using hactive)
  exact absurd (hnone.symm.trans howner) (Option.some_ne_none t).symm

/-- No thread is at work if the one that the field names is not. -/
theorem Tunnel.Owned.ended (h : s.Owned) (hfield : s.tunnelThread = none ∨ s.tunnelThread = some t)
    (hphase : s.threads[t]? = some phase) (hended : phase.active = false) :
    ∀ phase ∈ s.threads, phase.active = false := by
  rcases hfield with hnone | hsome
  · exact h.idle hnone
  · intro phase' hmem
    obtain ⟨t', hphase'⟩ := List.getElem?_of_mem hmem
    by_contra hactive
    have howner := h.owner t' phase' hphase' (by simpa using hactive)
    obtain rfl := Option.some.inj (hsome.symm.trans howner)
    exact hactive (Option.some.inj (hphase.symm.trans hphase') ▸ hended)

/-- A thread that has left ends. -/
theorem Tunnel.Owned.die (h : s.Owned) (hphase : s.threads[t]? = some .leaving) :
    ({ s with threads := s.threads.set t .dead } : Tunnel).Owned where
  owner t' phase' hphase' hactive := by
    rw [List.getElem?_set] at hphase'
    split at hphase'
    · split at hphase'
      · exact absurd hactive (by simp [← Option.some.inj hphase', Phase.active])
      · exact absurd hphase' (Option.some_ne_none _).symm
    · exact h.owner t' phase' hphase' hactive
  named t' hthread := by simpa using h.named t' hthread
  interface := h.interface
  relies := by
    have hrelies := h.relies
    cases hcommand : s.command <;> rw [hcommand] at hrelies <;>
      grind [Command.Relies, Phase.active]

/-- A thread that is caught does not give anything back. -/
theorem Tunnel.Owned.stay (h : s.Owned) (hphase : s.threads[t]? = some phase)
    (hactive : phase.active = true) :
    ({ s.stay r phase w with threads := s.threads.set t .caught } : Tunnel).Owned where
  owner t' phase' hphase' hactive' := by
    rw [List.getElem?_set] at hphase'
    change (s.stay r phase w).tunnelThread = some t'
    rw [stay_tunnelThread]
    split at hphase'
    next hsame => exact hsame ▸ h.owner t phase hphase hactive
    next => exact h.owner t' phase' hphase' hactive'
  named t' hthread := by
    rw [List.length_set]
    exact h.named t' (stay_tunnelThread.symm.trans hthread)
  interface hthread := by
    have hold : s.tunnelThread ≠ none := by simpa using hthread
    simpa using h.interface hold
  relies := by
    have hbeside := h.beside hphase hactive
    have hrelies := h.relies
    cases hcommand : s.command <;> rw [hcommand] at hrelies <;>
      grind [Command.Relies, Command.beside, stay_command, stay_tunnelThread]

theorem Tunnel.Owned.work (h : s.Owned) (hwork : s.work r t w = some s') : s'.Owned := by
  obtain ⟨phase, phase', hphase, hnext, rfl | ⟨hactive, -, rfl⟩⟩ := work_cases hwork
  swap
  · exact h.stay hphase hactive
  rcases active_of_next hnext with hactive | ⟨rfl, rfl, rfl⟩
  · have howner := h.owner t phase hphase hactive
    have hbeside := h.beside hphase hactive
    have hthread : (s.effect r phase w).tunnelThread = none ∧ phase'.active = false ∨
        (s.effect r phase w).tunnelThread = some t := by
      rcases next_active hnext hactive with ⟨-, hw⟩ | ⟨-, rfl, rfl⟩
      · exact .inr ((effect_tunnelThread hw).trans howner)
      · exact .inl ⟨rfl, rfl⟩
    have hother : ∀ t' phase'', t' ≠ t → s.threads[t']? = some phase'' → phase''.active = false := by
      intro t' phase'' hne hphase''
      by_contra hactive'
      have howner' := h.owner t' phase'' hphase'' (by simpa using hactive')
      exact hne (Option.some.inj (howner'.symm.trans howner))
    have hstarted : phase' ≠ .created := by
      rcases next_active hnext hactive with ⟨hactive', -⟩ | ⟨-, -, rfl⟩
      · rintro rfl
        exact absurd hactive' Bool.false_ne_true
      · exact Phase.noConfusion
    refine ⟨?_, ?_, ?_, ?_⟩
    · intro t' phase'' hphase'' hactive'
      grind
    · intro t' hthread'
      have hlength := h.named t howner
      grind
    · intro _
      simpa using h.interface (by simp [howner])
    · have hrelies := h.relies
      cases hcommand : s.command <;> rw [hcommand] at hrelies <;>
        grind [Command.Relies, Command.beside, effect_command, next_active]
  · exact h.die hphase

theorem Tunnel.Owned.throws (h : s.Owned) (horder : s.order r .throws = some s') : s'.Owned := by
  cases hcommand : s.command with
  | write =>
    simp only [order, hcommand, Option.ite_none_right_eq_some, Option.some.injEq] at horder
    obtain ⟨-, rfl⟩ := horder
    exact ⟨h.owner, h.named, h.interface, trivial⟩
  | establish i | prepareCacheMaps i | prepareGlobalRules i | preparePackageRules i
  | prepareApplicationSettings i | start i t =>
    simp only [order, hcommand, Option.some.injEq] at horder
    subst horder
    exact ⟨h.owner, h.named, h.interface, trivial⟩
  | _ => simp [order, hcommand] at horder

/-- A new thread is not at work before it is started. -/
theorem Tunnel.Owned.create (h : s.Owned) (hnone : s.tunnelThread = none)
    (hinterface : s.vpnInterface = true) (i : Installation) :
    ({ s with threads := s.threads ++ [.created], tunnelThread := some s.threads.length,
              command := .start i s.threads.length } : Tunnel).Owned where
  owner t phase hphase hactive := by
    have hmem := List.mem_of_getElem? hphase
    rcases List.mem_append.mp hmem with hold | hnew
    · exact absurd hactive (by simp [h.idle hnone phase hold])
    · exact absurd hactive (by simp [List.mem_singleton.mp hnew, Phase.active])
  named t hthread := by
    rw [List.length_append, ← Option.some.inj hthread]
    exact Nat.lt_succ_self _
  interface _ := hinterface
  relies := ⟨rfl, by simp⟩

theorem Tunnel.Owned.start {i : Installation} (h : s.Owned) (hcommand : s.command = .start i t) :
    ({ s with threads := s.threads.set t .starting, command := .idle } : Tunnel).Owned where
  owner t' phase hphase hactive := by
    have hrelies := h.relies
    rw [hcommand] at hrelies
    rw [List.getElem?_set] at hphase
    split at hphase
    next hsame => exact hsame ▸ hrelies.1
    next => exact h.owner t' phase hphase hactive
  named t' hthread := by simpa using h.named t' hthread
  interface := h.interface
  relies := trivial

theorem Tunnel.Owned.proceed {o : Surroundings} (h : s.Owned)
    (horder : s.order r (.proceed o) = some s') : s'.Owned := by
  have hrelies := h.relies
  cases hcommand : s.command with
  | idle => simp [order, hcommand] at horder
  | create i =>
    simp only [order, hcommand, Option.some.injEq] at horder
    rw [hcommand] at hrelies
    subst horder
    exact h.create hrelies.1 hrelies.2 i
  | start i t =>
    simp only [order, hcommand, Option.some.injEq] at horder
    subst horder
    exact h.start hcommand
  | isAlive t =>
    simp only [order, hcommand, Option.some.injEq] at horder
    rw [hcommand] at hrelies
    subst horder
    refine ⟨h.owner, h.named, h.interface, ?_⟩
    by_cases hended : s.threads[t]? = some .created ∨ s.threads[t]? = some .dead
    · simp only [if_pos hended]
      rcases hended with hphase | hphase
      · exact h.ended hrelies.1 hphase rfl
      · exact h.ended hrelies.1 hphase rfl
    · simp only [if_neg hended]
      exact ⟨hrelies.1, hrelies.2, fun hcreated => hended (.inl hcreated)⟩
  | join t =>
    simp only [order, hcommand, Option.ite_none_right_eq_some, Option.some.injEq] at horder
    rw [hcommand] at hrelies
    obtain ⟨hdead, rfl⟩ := horder
    exact ⟨h.owner, h.named, h.interface, h.ended hrelies.1 hdead rfl⟩
  | forget =>
    simp only [order, hcommand, Option.some.injEq] at horder
    rw [hcommand] at hrelies
    subst horder
    refine ⟨fun t phase hphase hactive => ?_, nofun, fun h => absurd rfl h, rfl⟩
    exact absurd hactive (by simp [hrelies phase (List.mem_of_getElem? hphase)])
  | find =>
    simp only [order, hcommand, Option.some.injEq] at horder
    subst horder
    refine ⟨h.owner, h.named, h.interface, ?_⟩
    cases hthread : s.tunnelThread with
    | none => exact h.idle hthread
    | some t => exact ⟨.inr rfl, h.named t hthread⟩
  | stopNative =>
    simp only [order, hcommand, Option.some.injEq] at horder
    subst horder
    refine ⟨h.owner, h.named, h.interface, ?_⟩
    cases hthread : s.tunnelThread with
    | none => rfl
    | some t => trivial
  | prepareCacheMaps i | prepareGlobalRules i | preparePackageRules i
  | prepareApplicationSettings i | jniStart i =>
    simp only [order, hcommand, Option.some.injEq] at horder
    rw [hcommand] at hrelies
    subst horder
    exact ⟨h.owner, h.named, h.interface, hrelies⟩
  | establish i =>
    simp only [order, hcommand, Option.some.injEq] at horder
    rw [hcommand] at hrelies
    subst horder
    exact ⟨h.owner, h.named, fun _ => rfl, hrelies, rfl⟩
  | startNative i =>
    simp only [order, hcommand, Option.some.injEq] at horder
    rw [hcommand] at hrelies
    subst horder
    refine ⟨h.owner, h.named, h.interface, ?_⟩
    split
    · exact hrelies
    · trivial
  | jniStop | write =>
    simp only [order, hcommand, Option.some.injEq] at horder
    subst horder
    exact ⟨h.owner, h.named, h.interface, trivial⟩
  | clear =>
    simp only [order, hcommand, Option.some.injEq] at horder
    rw [hcommand] at hrelies
    subst horder
    exact ⟨h.owner, h.named, h.interface, hrelies⟩
  | close =>
    simp only [order, hcommand, Option.some.injEq] at horder
    rw [hcommand] at hrelies
    subst horder
    exact ⟨h.owner, h.named, fun hthread => absurd hrelies hthread, trivial⟩

theorem Tunnel.Owned.order (h : s.Owned) (horder : s.order r a = some s') : s'.Owned := by
  cases a with
  | startVpn i =>
    cases hcommand : s.command <;> simp [Tunnel.order, hcommand] at horder
    subst horder
    refine ⟨h.owner, h.named, h.interface, ?_⟩
    have hinterface := h.interface
    grind [Command.Relies]
  | stopVpn =>
    cases hcommand : s.command <;> simp [Tunnel.order, hcommand] at horder
    subst horder
    exact ⟨h.owner, h.named, h.interface, trivial⟩
  | throws => exact h.throws horder
  | proceed o => exact h.proceed horder

theorem Tunnel.order_threads (horder : s.order r a = some s') :
    s'.threads = s.threads ∨ s'.threads = s.threads ++ [.created] ∨
      ∃ i t, s.command = .start i t ∧ s'.threads = s.threads.set t .starting := by
  cases a <;> cases hcommand : s.command <;>
    simp only [Tunnel.order, hcommand, Option.ite_none_right_eq_some, Option.some.injEq,
      reduceCtorEq] at horder
  all_goals first | (subst horder; simp) | (obtain ⟨-, rfl⟩ := horder; simp)

theorem Tunnel.Owned.step {e : Turn} (h : s.Owned) (hstep : s.step r e = some s') : s'.Owned := by
  cases e with
  | command a => exact h.order hstep
  | tunnel t w => exact h.work hstep

theorem Tunnel.owned_init (w : Firewall) : (Tunnel.init w).Owned where
  owner t phase hphase := by simp [init] at hphase
  named := nofun
  interface h := absurd rfl h
  relies := trivial

theorem Tunnel.owned_run {w : Firewall} {es : List Turn} (hrun : (Tunnel.init w).run r es = some s) :
    s.Owned :=
  Run.steps_invariant (fun _ _ _ hstep h => h.step hstep) hrun (owned_init w)

end Owned

section Runs
variable {r : Native} {w : Firewall} {es : List Turn} {s : Tunnel} {t : Nat} {phase : Phase}

/-- In every interleaving a thread at work is the one that the field names, its interface is
open, and the command thread is nowhere where it would touch what the thread works on. -/
theorem Tunnel.exclusive (hrun : (Tunnel.init w).run r es = some s)
    (hphase : s.threads[t]? = some phase) (hactive : phase.active = true) :
    s.tunnelThread = some t ∧ s.vpnInterface = true ∧ s.command.beside = true := by
  have howned := owned_run hrun
  have howner := howned.owner t phase hphase hactive
  refine ⟨howner, howned.interface ?_, howned.beside hphase hactive⟩
  rw [howner]
  exact Option.some_ne_none t

end Runs

section Sample

/-- A start, a first wait of the engine, and a stop up to `join`. -/
def Tunnel.sampleTurns : List Turn :=
  [.command (.startVpn .sample)] ++ List.replicate 9 (.command (.proceed .calm)) ++
    [.tunnel 0 (.checkAllowed .calm .direct none), .tunnel 0 (.epollCreate false),
      .tunnel 0 .test, .command .stopVpn, .tunnel 0 (.sweep .calm)] ++
    List.replicate 5 (.command (.proceed .calm))

def Tunnel.sampleRun : Option Tunnel := (Tunnel.init .sample).run .sample Tunnel.sampleTurns

theorem Tunnel.exclusive_sample : ∃ s, Tunnel.sampleRun = some s ∧
    s.tunnelThread = some 0 ∧ s.vpnInterface = true ∧ s.command.beside = true := by
  have hrun : (Tunnel.init .sample).run .sample Tunnel.sampleTurns = some _ := rfl
  exact ⟨_, hrun, Tunnel.exclusive hrun rfl rfl⟩

end Sample

end NetGuard.Service
