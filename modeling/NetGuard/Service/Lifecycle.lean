import NetGuard.Library.Run

/-! # Starting and stopping the VPN

`CommandHandler` handles one message at a time, and every start can fail at each of its
calls. What a call does is given with the message. A throwable that leaves `startVpn`
ends the message; an `Exception` from `establish` on is caught before that.
-/
namespace NetGuard.Service

inductive Throwable
  | exception
  | error
  deriving DecidableEq, Repr

/-- What `startNative` does. It can throw before or after it has created the thread. -/
inductive NativeStart
  | started
  | throws (thrown : Throwable) (created : Bool)
  deriving DecidableEq, Repr

/-- How far `startVpn` gets: the configuration and the database come before the wake
lock, the listener and the builder come after it. -/
inductive Start
  | unprepared (thrown : Throwable)
  | unbuilt (thrown : Throwable)
  | establishThrows (thrown : Throwable)
  | establishNull
  | established (native : NativeStart)
  deriving DecidableEq, Repr

inductive Action
  | start
  | reload
  | stop
  | pushStats
  deriving DecidableEq, Repr

/-- A message with the results of the calls that its handling makes: whether the
interface closes without an exception, and how the start goes. -/
structure Message where
  action : Action
  closes : Bool
  start : Start
  deriving DecidableEq, Repr

/-- `running` is the persisted flag. The thread is there with whether it was started, and
the instance of the wake lock with its count. -/
structure Vpn where
  running : Bool
  vpnInterface : Bool
  tunnelThread : Option Bool
  wakeLock : Option Nat
  deriving DecidableEq, Repr

namespace Vpn

section WakeLock
variable (s : Vpn)

def holds : Nat := s.wakeLock.getD 0

def isHeld : Bool := s.holds ≠ 0

def acquire : Vpn := { s with wakeLock := some (s.holds + 1) }

def release : Vpn :=
  if s.isHeld then { s with wakeLock := some (s.holds - 1) }
  else { s with wakeLock := some s.holds }

def releaseLock : Vpn := { s with wakeLock := none }

end WakeLock

def setIsRunning (isRunning : Bool) (s : Vpn) : Vpn := { s with running := isRunning }

def startNative (native : NativeStart) (s : Vpn) : Vpn × Option Throwable :=
  match native with
  | .started =>
    (if s.tunnelThread.isNone then { s with tunnelThread := some true } else s, none)
  | .throws thrown created =>
    (if created && s.tunnelThread.isNone then { s with tunnelThread := some false } else s,
      some thrown)

def startVpn (start : Start) (s : Vpn) : Vpn × Option Throwable :=
  if s.vpnInterface then (s, none)
  else
    match start with
    | .unprepared thrown => (s, some thrown)
    | .unbuilt thrown => (s.acquire, some thrown)
    | .establishThrows .exception => (s.acquire.setIsRunning false, none)
    | .establishThrows .error => (s.acquire, some .error)
    | .establishNull => (s.acquire.setIsRunning false, none)
    | .established native =>
      let s := { s.acquire with vpnInterface := true }.setIsRunning true
      match s.startNative native with
      | (s, none) => (s, none)
      | (s, some .exception) => (s.setIsRunning false, none)
      | (s, some .error) => (s, some .error)

def stopNative (s : Vpn) : Vpn := { s with tunnelThread := none }

def stopVpn (closes : Bool) (s : Vpn) : Vpn :=
  let s := s.stopNative
  let s :=
    if s.vpnInterface then
      { (if closes then s.setIsRunning false else s) with vpnInterface := false }
    else s
  s.releaseLock.setIsRunning false

def reloadVpn (m : Message) (s : Vpn) : Vpn × Option Throwable :=
  (if s.running then s.stopVpn m.closes else s).startVpn m.start

def handleIntent (m : Message) (s : Vpn) : Vpn × Option Throwable :=
  match m.action with
  | .start => if s.running then s.reloadVpn m else s.startVpn m.start
  | .reload => s.reloadVpn m
  | .stop => (s.stopVpn m.closes, none)
  | .pushStats => (s, none)

/-- What `handleIntent` throws is caught, and one hold of the lock is released after it
in either case. -/
def handleMessage (s : Vpn) (m : Message) : Vpn := (s.handleIntent m).1.release

/-- The service as it is created. The flag may be left from a process that was killed. -/
def create (running : Bool) : Vpn := ⟨running, false, none, none⟩

def IsUp (s : Vpn) : Prop := s.vpnInterface = true ∧ s.tunnelThread = some true

instance (s : Vpn) : Decidable s.IsUp := inferInstanceAs (Decidable (_ ∧ _))

end Vpn

namespace Message

def IsStart (m : Message) : Prop := m.action = .start ∨ m.action = .reload

theorem stop_or_pushStats {m : Message} (h : ¬ m.IsStart) :
    m.action = .stop ∨ m.action = .pushStats := by
  cases haction : m.action with
  | start => exact (h (Or.inl haction)).elim
  | reload => exact (h (Or.inr haction)).elim
  | stop => exact Or.inl rfl
  | pushStats => exact Or.inr rfl

/-- A start that gets its interface and then fails in `startNative`. -/
def FailsInNative (m : Message) : Prop :=
  m.IsStart ∧ ∃ thrown created, m.start = .established (.throws thrown created)

end Message

namespace Vpn

variable {s : Vpn} {m : Message} {start : Start}

section Steps

@[simp] theorem release_running : s.release.running = s.running := by
  unfold release
  split <;> rfl

@[simp] theorem release_vpnInterface : s.release.vpnInterface = s.vpnInterface := by
  unfold release
  split <;> rfl

@[simp] theorem release_tunnelThread : s.release.tunnelThread = s.tunnelThread := by
  unfold release
  split <;> rfl

theorem release_holds : s.release.holds = s.holds - 1 := by
  unfold release
  split
  next => rfl
  next hfree =>
    have hzero : s.holds = 0 := by simpa [isHeld] using hfree
    rw [hzero]
    rfl

theorem isUp_release : s.release.IsUp ↔ s.IsUp := by
  simp [IsUp]

theorem stopVpn_eq (closes : Bool) : s.stopVpn closes = create false := by
  obtain ⟨running, vpnInterface, tunnelThread, wakeLock⟩ := s
  cases vpnInterface <;> cases closes <;> rfl

theorem handleIntent_start (hm : m.IsStart) :
    s.handleIntent m = (if s.running then create false else s).startVpn m.start := by
  have hreload : s.reloadVpn m = (if s.running then create false else s).startVpn m.start := by
    rw [reloadVpn, stopVpn_eq]
  rcases hm with haction | haction
  · simp only [handleIntent, haction, hreload]
    cases s.running <;> rfl
  · simp only [handleIntent, haction, hreload]

theorem startVpn_of_interface (h : s.vpnInterface = true) : s.startVpn start = (s, none) :=
  if_pos h

/-- Nothing of the VPN is there. -/
structure Down (s : Vpn) : Prop where
  running : s.running = false
  vpnInterface : s.vpnInterface = false
  tunnelThread : s.tunnelThread = none

theorem down_create : (create false).Down := ⟨rfl, rfl, rfl⟩

theorem Down.release (h : s.Down) : s.release.Down where
  running := release_running.trans h.running
  vpnInterface := release_vpnInterface.trans h.vpnInterface
  tunnelThread := release_tunnelThread.trans h.tunnelThread

theorem Down.not_isUp (h : s.Down) : ¬ s.IsUp := by
  rintro ⟨hinterface, -⟩
  rw [h.vpnInterface] at hinterface
  exact absurd hinterface (by decide)

theorem Down.startVpn_cases (h : s.Down) (start : Start) :
    (start = .established .started ∧ (s.startVpn start).1.running = true ∧
        (s.startVpn start).1.IsUp) ∨
      (∃ thrown created, start = .established (.throws thrown created) ∧
        (s.startVpn start).1.vpnInterface = true ∧ ¬ (s.startVpn start).1.IsUp) ∨
      ((∀ native, start ≠ .established native) ∧ (s.startVpn start).1.Down) := by
  obtain ⟨hrunning, hinterface, hthread⟩ := h
  unfold startVpn
  rw [if_neg (by simp [hinterface])]
  cases start with
  | unprepared thrown => exact Or.inr (Or.inr ⟨nofun, hrunning, hinterface, hthread⟩)
  | unbuilt thrown => exact Or.inr (Or.inr ⟨nofun, hrunning, hinterface, hthread⟩)
  | establishThrows thrown =>
    apply Or.inr
    apply Or.inr
    cases thrown with
    | exception => exact ⟨nofun, rfl, hinterface, hthread⟩
    | error => exact ⟨nofun, hrunning, hinterface, hthread⟩
  | establishNull => exact Or.inr (Or.inr ⟨nofun, rfl, hinterface, hthread⟩)
  | established native =>
    cases native with
    | started => simp [acquire, setIsRunning, startNative, hthread, IsUp]
    | throws thrown created =>
      refine Or.inr (Or.inl ⟨thrown, created, rfl, ?_⟩)
      cases thrown <;> cases created <;>
        simp [acquire, setIsRunning, startNative, hthread, IsUp]

theorem startVpn_holds (start : Start) :
    (s.startVpn start).1.holds = s.holds ∨ (s.startVpn start).1.holds = s.holds + 1 := by
  unfold startVpn
  split
  · exact Or.inl rfl
  · cases start with
    | unprepared thrown => exact Or.inl rfl
    | unbuilt thrown => exact Or.inr rfl
    | establishThrows thrown => cases thrown <;> exact Or.inr rfl
    | establishNull => exact Or.inr rfl
    | established native =>
      apply Or.inr
      cases native with
      | started =>
        simp only [startNative]
        split <;> rfl
      | throws thrown created =>
        cases thrown <;> simp only [startNative] <;> split <;> rfl

end Steps

section Flag

/-- The flag says whether the VPN is up; and where it is not, a start of which nothing
fails starts the engine. -/
structure Consistent (s : Vpn) : Prop where
  flag : s.running = true ↔ s.IsUp
  fresh : ¬ s.IsUp → ∀ closes,
    (s.handleMessage ⟨.start, closes, .established .started⟩).tunnelThread = some true

/-- A state from which every start gets past the first line of `startVpn`. -/
structure Sound (s : Vpn) : Prop where
  off : s.running = false → s.vpnInterface = false
  idle : s.vpnInterface = false → s.tunnelThread = none

theorem sound_create (running : Bool) : (create running).Sound :=
  ⟨fun _ => rfl, fun _ => rfl⟩

theorem sound_of_up (h : s.IsUp) (hrunning : s.running = true) : s.Sound := by
  constructor
  · intro hoff
    rw [hrunning] at hoff
    exact absurd hoff (by decide)
  · intro hidle
    rw [h.1] at hidle
    exact absurd hidle (by decide)

theorem Down.sound (h : s.Down) : s.Sound :=
  ⟨fun _ => h.vpnInterface, fun _ => h.tunnelThread⟩

theorem consistent_of_up (h : s.IsUp) (hrunning : s.running = true) : s.Consistent :=
  ⟨iff_of_true hrunning h, fun hnot => (hnot h).elim⟩

theorem Down.consistent (h : s.Down) : s.Consistent := by
  constructor
  · apply iff_of_false
    · simp [h.running]
    · exact h.not_isUp
  · intro _ closes
    have hstart := handleIntent_start (s := s) (m := ⟨.start, closes, .established .started⟩)
      (Or.inl rfl)
    rw [h.running] at hstart
    rw [handleMessage, release_tunnelThread, hstart]
    rcases h.startVpn_cases (.established .started) with
      ⟨-, -, hup⟩ | ⟨_, _, hthrows, -⟩ | ⟨hnot, -⟩
    · exact hup.2
    · exact absurd (Start.established.inj hthrows) (by simp)
    · exact (hnot .started rfl).elim

/-- With an interface whose engine was not started, the flag is wrong or it bars the way. -/
theorem not_consistent (hinterface : s.vpnInterface = true) (hup : ¬ s.IsUp) :
    ¬ s.Consistent := by
  rintro ⟨hflag, hfresh⟩
  have hrunning : s.running = false := by
    rw [← Bool.not_eq_true]
    intro h
    exact hup (hflag.mp h)
  have hthread := hfresh hup true
  rw [handleMessage, release_tunnelThread, handleIntent_start (Or.inl rfl), hrunning,
    if_neg Bool.false_ne_true, startVpn_of_interface hinterface] at hthread
  exact hup ⟨hinterface, hthread⟩

theorem Sound.start_from (h : s.Sound) (hm : m.IsStart) :
    ∃ d : Vpn, d.Down ∧ s.handleIntent m = d.startVpn m.start := by
  cases hrunning : s.running with
  | true =>
    refine ⟨create false, down_create, ?_⟩
    rw [handleIntent_start hm, hrunning]
    rfl
  | false =>
    refine ⟨s, ⟨hrunning, h.off hrunning, h.idle (h.off hrunning)⟩, ?_⟩
    rw [handleIntent_start hm, hrunning]
    rfl

theorem handleMessage_stop (hm : m.action = .stop) :
    s.handleMessage m = (create false).release := by
  simp only [handleMessage, handleIntent, hm, stopVpn_eq]

/-- A start leaves the VPN up, or broken between its interface and its engine, or down. -/
theorem Sound.handleMessage_start (h : s.Sound) (hm : m.IsStart) :
    (¬ m.FailsInNative ∧ (s.handleMessage m).IsUp ∧ (s.handleMessage m).running = true) ∨
      (m.FailsInNative ∧ (s.handleMessage m).vpnInterface = true ∧ ¬ (s.handleMessage m).IsUp) ∨
      (¬ m.FailsInNative ∧ (s.handleMessage m).Down) := by
  obtain ⟨d, hdown, hintent⟩ := h.start_from hm
  have hstate : s.handleMessage m = (d.startVpn m.start).1.release := by
    rw [handleMessage, hintent]
  rw [hstate, isUp_release, release_vpnInterface, release_running]
  rcases hdown.startVpn_cases m.start with
    ⟨hstarted, hrunning, hup⟩ | ⟨thrown, created, hthrows, hbroken⟩ | ⟨hnot, hdown'⟩
  · refine Or.inl ⟨?_, hup, hrunning⟩
    rintro ⟨-, thrown, created, hthrows⟩
    rw [hstarted] at hthrows
    exact absurd (Start.established.inj hthrows) (by simp)
  · exact Or.inr (Or.inl ⟨⟨hm, thrown, created, hthrows⟩, hbroken⟩)
  · refine Or.inr (Or.inr ⟨?_, hdown'.release⟩)
    rintro ⟨-, thrown, created, hthrows⟩
    exact hnot _ hthrows

theorem handleMessage_consistent_iff (h : s.Sound) (hm : m.action ≠ .pushStats) :
    ((s.handleMessage m).Consistent ↔ ¬ m.FailsInNative) ∧
      ((s.handleMessage m).Consistent → (s.handleMessage m).Sound) := by
  by_cases hstart : m.IsStart
  · rcases h.handleMessage_start hstart with
      ⟨hnot, hup, hrunning⟩ | ⟨hfails, hinterface, hup⟩ | ⟨hnot, hdown⟩
    · exact ⟨iff_of_true (consistent_of_up hup hrunning) hnot, fun _ => sound_of_up hup hrunning⟩
    · have hbroken := not_consistent hinterface hup
      exact ⟨iff_of_false hbroken (not_not_intro hfails), fun h => (hbroken h).elim⟩
    · exact ⟨iff_of_true hdown.consistent hnot, fun _ => hdown.sound⟩
  · have hstop : m.action = .stop := (Message.stop_or_pushStats hstart).resolve_right hm
    rw [handleMessage_stop hstop]
    refine ⟨iff_of_true down_create.release.consistent ?_, fun _ => down_create.release.sound⟩
    intro hfails
    exact hstart hfails.1

/-- After every START, RELOAD and STOP the flag says whether the VPN is up and a later
start is not barred, exactly if no start fails between its interface and its engine. -/
theorem handleMessage_consistent_run_iff (running : Bool) (messages : List Message)
    (hcommands : ∀ m ∈ messages, m.action ≠ .pushStats) :
    (∀ pre m post, messages = pre ++ m :: post →
      ((pre.foldl handleMessage (create running)).handleMessage m).Consistent) ↔
    ∀ m ∈ messages, ¬ m.FailsInNative := by
  rw [← Run.along_iff_forall handleMessage (fun s m => (handleMessage s m).Consistent),
    Run.Along.congr (D := fun _ m => ¬ m.FailsInNative) (I := Sound)
      (fun s m hm hs => (handleMessage_consistent_iff hs hm).1)
      (fun s m hm hs => (handleMessage_consistent_iff hs hm).2) hcommands (sound_create running),
    Run.along_iff_forall]
  constructor
  · intro h m hmem
    obtain ⟨pre, post, heq⟩ := List.append_of_mem hmem
    exact h pre m post heq
  · intro h pre m post heq
    exact h m (by simp [heq])

theorem handleMessage_consistent_run_sample :
    (((create false).handleMessage ⟨.start, true, .established .started⟩).handleMessage
      ⟨.stop, true, .establishNull⟩).Consistent := by
  refine (handleMessage_consistent_run_iff false
    [⟨.start, true, .established .started⟩, ⟨.stop, true, .establishNull⟩] (by decide)).mpr
      ?_ [_] _ [] rfl
  intro m hm hfails
  obtain ⟨-, thrown, created, hthrows⟩ := hfails
  simp only [List.mem_cons, List.not_mem_nil, or_false] at hm
  rcases hm with rfl | rfl
  · exact absurd (Start.established.inj hthrows) (by simp)
  · exact absurd hthrows (by simp)

/-- After an `Exception` in `startNative` a start does nothing; after an `Error` the flag
is true without an engine. -/
theorem not_handleMessage_consistent :
    (((create false).handleMessage
        ⟨.start, true, .established (.throws .exception false)⟩).running = false ∧
      (((create false).handleMessage
        ⟨.start, true, .established (.throws .exception false)⟩).handleMessage
          ⟨.start, true, .established .started⟩).tunnelThread = none) ∧
    (((create false).handleMessage
        ⟨.start, true, .established (.throws .error true)⟩).running = true ∧
      ¬ ((create false).handleMessage
        ⟨.start, true, .established (.throws .error true)⟩).IsUp) := by
  decide

end Flag

section Lock

/-- The two conditions on which a start does more than to return. -/
def Attempts (s : Vpn) : Prop := s.running = true ∨ s.vpnInterface = false

/-- A message by which the VPN does not come up from `s`. -/
def KeepsDown (s : Vpn) (m : Message) : Prop :=
  m.IsStart → s.Attempts → m.start ≠ .established .started

/-- The state between messages in a run in which the VPN was never up. -/
structure Free (s : Vpn) : Prop where
  holds : s.holds = 0
  down : ¬ s.IsUp
  idle : s.vpnInterface = false → s.tunnelThread = none

theorem free_create (running : Bool) : (create running).Free :=
  ⟨rfl, fun h => absurd h.1 Bool.false_ne_true, fun _ => rfl⟩

/-- The hold that a start takes is the one that the end of its message releases. -/
theorem handleMessage_holds (h : s.holds = 0) (m : Message) : (s.handleMessage m).holds = 0 := by
  have hstart (t : Vpn) (ht : t.holds = 0) : (t.startVpn m.start).1.release.holds = 0 := by
    rw [release_holds]
    rcases startVpn_holds (s := t) m.start with hholds | hholds <;> omega
  have hready : (if s.running then create false else s).holds = 0 := by
    split
    · rfl
    · exact h
  by_cases hm : m.IsStart
  · rw [handleMessage, handleIntent_start hm]
    exact hstart _ hready
  · rcases Message.stop_or_pushStats hm with hstop | hpush
    · rw [handleMessage_stop hstop]
      rfl
    · simp only [handleMessage, handleIntent, hpush]
      rw [release_holds, h]

theorem Down.startVpn_up_iff (h : s.Down) (start : Start) :
    (¬ (s.startVpn start).1.IsUp ↔ start ≠ .established .started) ∧
      ((s.startVpn start).1.vpnInterface = false → (s.startVpn start).1.tunnelThread = none) := by
  rcases h.startVpn_cases start with
    ⟨hstarted, -, hup⟩ | ⟨thrown, created, hthrows, hinterface, hup⟩ | ⟨hnot, hdown⟩
  · refine ⟨iff_of_false (not_not_intro hup) (not_not_intro hstarted), ?_⟩
    intro hnone
    rw [hup.1] at hnone
    exact absurd hnone (by decide)
  · refine ⟨iff_of_true hup (by simp [hthrows]), ?_⟩
    intro hnone
    rw [hinterface] at hnone
    exact absurd hnone (by decide)
  · exact ⟨iff_of_true hdown.not_isUp (hnot _), fun _ => hdown.tunnelThread⟩

theorem handleMessage_cases (h : s.Free) (m : Message) :
    (¬ (s.handleMessage m).IsUp ↔ s.KeepsDown m) ∧
      ((s.handleMessage m).vpnInterface = false → (s.handleMessage m).tunnelThread = none) := by
  rw [handleMessage, isUp_release, release_vpnInterface, release_tunnelThread]
  by_cases hstart : m.IsStart
  · rw [handleIntent_start hstart]
    cases hrunning : s.running with
    | true =>
      obtain ⟨hup, hidle⟩ := down_create.startVpn_up_iff m.start
      refine ⟨hup.trans ?_, hidle⟩
      simp [KeepsDown, hstart, Attempts, hrunning]
    | false =>
      cases hinterface : s.vpnInterface with
      | false =>
        have hdown : s.Down := ⟨hrunning, hinterface, h.idle hinterface⟩
        obtain ⟨hup, hidle⟩ := hdown.startVpn_up_iff m.start
        refine ⟨hup.trans ?_, hidle⟩
        simp [KeepsDown, hstart, Attempts, hinterface]
      | true =>
        rw [if_neg Bool.false_ne_true, startVpn_of_interface hinterface]
        refine ⟨iff_of_true h.down ?_, h.idle⟩
        intro _ hattempts
        simp [Attempts, hrunning, hinterface] at hattempts
  · have hkeeps : s.KeepsDown m := fun hm => (hstart hm).elim
    rcases Message.stop_or_pushStats hstart with hstop | hpush
    · simp only [handleIntent, hstop, stopVpn_eq]
      exact ⟨iff_of_true down_create.not_isUp hkeeps, fun _ => rfl⟩
    · simp only [handleIntent, hpush]
      exact ⟨iff_of_true h.down hkeeps, h.idle⟩

/-- After every message the wake lock is held if and only if the VPN is up, exactly if no
message ever brings the VPN up: the lock is free after each message. -/
theorem handleMessage_held_run_iff (running : Bool) (messages : List Message) :
    (∀ pre m post, messages = pre ++ m :: post →
      (((pre.foldl handleMessage (create running)).handleMessage m).isHeld = true ↔
        ((pre.foldl handleMessage (create running)).handleMessage m).IsUp)) ↔
    ∀ pre m post, messages = pre ++ m :: post →
      (pre.foldl handleMessage (create running)).KeepsDown m := by
  have hfree (s : Vpn) (m : Message) (h : s.Free) : ¬ (s.handleMessage m).isHeld = true := by
    simp [isHeld, handleMessage_holds h.holds]
  refine (Run.along_iff_forall handleMessage
    fun s m => ((s.handleMessage m).isHeld = true ↔ (s.handleMessage m).IsUp)).symm.trans
      (Iff.trans ?_ (Run.along_iff_forall handleMessage KeepsDown))
  apply Run.Along.congr (I := Free) (P := fun _ => True)
  · intro s m _ h
    rw [iff_false_left (hfree s m h)]
    exact (handleMessage_cases h m).1
  · intro s m _ h hheld
    obtain ⟨-, hidle⟩ := handleMessage_cases h m
    exact ⟨handleMessage_holds h.holds m, (iff_false_left (hfree s m h)).mp hheld, hidle⟩
  · exact fun _ _ => trivial
  · exact free_create running

/-- One START whose calls all succeed: the VPN is up and the lock is free. -/
theorem not_handleMessage_held :
    ((create false).handleMessage ⟨.start, true, .established .started⟩).IsUp ∧
      ((create false).handleMessage ⟨.start, true, .established .started⟩).isHeld = false := by
  decide

end Lock

end Vpn

end NetGuard.Service
