import NetGuard.Service.Tunnel

/-! # A stop ends the thread

`jni_stop` sets the flag and then writes to the pipe, so that a thread that has read the flag
before still finds something when it polls. From there on each step that it takes leaves it fewer.
-/
namespace NetGuard.Service
open Engine (Arguments)

section Woken
variable {s s' : Tunnel} {r : Native} {t : Nat} {w : Work} {a : Order} {phase phase' : Phase}

/-- The flag is set and no thread has been seen to end. -/
def Command.stops : Command → Bool
  | .write | .find | .isAlive _ | .join _ => true
  | _ => false

/-- So is the wakeup. -/
def Command.woke : Command → Bool
  | .find | .isAlive _ | .join _ => true
  | _ => false

/-- A stop is not lost on a thread that is about to wait. -/
structure Tunnel.Woken (s : Tunnel) : Prop where
  flagged : s.command.stops = true → s.stopping = true
  pending : s.command.woke = true → ∀ t : Nat,
    s.threads[t]? = some .sweeping ∨ s.threads[t]? = some .polling → 0 < s.pipe

theorem Command.stops_of_woke {c : Command} (h : c.woke = true) : c.stops = true := by
  cases c <;> first | rfl | exact absurd h Bool.false_ne_true

theorem Tunnel.effect_pipe (h : w ≠ .readPipe) : (s.effect r phase w).pipe = s.pipe := by
  unfold effect
  split <;> first | rfl | exact absurd rfl h

/-- Where `epoll_wait` is ahead, the thread was about to wait before, or it has read the flag. -/
theorem Tunnel.next_waits (h : s.next phase w = some phase') (hstop : s.stopping = true)
    (hwaits : phase' = .sweeping ∨ phase' = .polling) : phase = .sweeping ∧ w ≠ .readPipe := by
  unfold next at h
  split at h <;> grind

/-- A thread that is caught does not wait in `epoll_wait`. -/
theorem Tunnel.Woken.stay (h : s.Woken) :
    ({ s.stay r phase w with threads := s.threads.set t .caught } : Tunnel).Woken := by
  refine ⟨fun hstops => ?_, fun hwoke t' hwaits => ?_⟩
  · rw [show (s.stay r phase w).command = s.command from stay_command] at hstops
    exact stay_stopping.trans (h.flagged hstops)
  · rw [show (s.stay r phase w).command = s.command from stay_command] at hwoke
    have hold : s.threads[t']? = some .sweeping ∨ s.threads[t']? = some .polling := by grind
    exact stay_pipe.symm ▸ h.pending hwoke t' hold

theorem Tunnel.Woken.work (h : s.Woken) (howned : s.Owned) (hwork : s.work r t w = some s') :
    s'.Woken := by
  obtain ⟨phase, phase', hphase, hnext, rfl | ⟨hactive, -, rfl⟩⟩ := work_cases hwork
  swap
  · exact h.stay
  refine ⟨fun hstops => ?_, fun hwoke t' hwaits => ?_⟩
  · rw [show (s.effect r phase w).command = s.command from effect_command] at hstops
    exact effect_stopping (h.flagged hstops)
  · rw [show (s.effect r phase w).command = s.command from effect_command] at hwoke
    have hstop := h.flagged (Command.stops_of_woke hwoke)
    by_cases hsame : t' = t
    · subst hsame
      have hwaits' : phase' = .sweeping ∨ phase' = .polling := by grind
      obtain ⟨rfl, hw⟩ := next_waits hnext hstop hwaits'
      rw [show ({ s.effect r .sweeping w with threads := s.threads.set t' phase' } : Tunnel).pipe =
        (s.effect r .sweeping w).pipe from rfl, effect_pipe hw]
      exact h.pending hwoke t' (.inl hphase)
    · have hold : s.threads[t']? = some .sweeping ∨ s.threads[t']? = some .polling := by grind
      rcases active_of_next hnext with hactive | ⟨rfl, rfl, rfl⟩
      · have howner := howned.owner t phase hphase hactive
        have howner' : s.tunnelThread = some t' := by
          rcases hold with hold | hold
          · exact howned.owner t' _ hold rfl
          · exact howned.owner t' _ hold rfl
        exact absurd (Option.some.inj (howner'.symm.trans howner)) hsame
      · exact h.pending hwoke t' hold

theorem Tunnel.Woken.proceed {o : Surroundings} (h : s.Woken)
    (horder : s.order r (.proceed o) = some s') : s'.Woken := by
  cases hcommand : s.command with
  | idle => simp [Tunnel.order, hcommand] at horder
  | jniStop =>
    simp only [Tunnel.order, hcommand, Option.some.injEq] at horder
    subst horder
    exact ⟨fun _ => rfl, fun hwoke => absurd hwoke Bool.false_ne_true⟩
  | write =>
    simp only [Tunnel.order, hcommand, Option.some.injEq] at horder
    subst horder
    exact ⟨fun _ => h.flagged (by rw [hcommand]; rfl), fun _ _ _ => Nat.succ_pos _⟩
  | find | isAlive t =>
    simp only [Tunnel.order, hcommand, Option.some.injEq] at horder
    subst horder
    exact ⟨fun _ => h.flagged (by rw [hcommand]; rfl), fun _ => h.pending (by rw [hcommand]; rfl)⟩
  | join t =>
    simp only [Tunnel.order, hcommand, Option.ite_none_right_eq_some, Option.some.injEq] at horder
    obtain ⟨-, rfl⟩ := horder
    exact ⟨fun h => absurd h Bool.false_ne_true, fun h => absurd h Bool.false_ne_true⟩
  | startNative i | stopNative =>
    simp only [Tunnel.order, hcommand, Option.some.injEq] at horder
    subst horder
    constructor <;> (dsimp only; split <;> exact fun h => absurd h Bool.false_ne_true)
  | _ =>
    simp only [Tunnel.order, hcommand, Option.some.injEq] at horder
    subst horder
    exact ⟨fun h => absurd h Bool.false_ne_true, fun h => absurd h Bool.false_ne_true⟩

theorem Tunnel.Woken.order (h : s.Woken) (horder : s.order r a = some s') : s'.Woken := by
  cases a with
  | startVpn i =>
    cases hcommand : s.command <;> simp [Tunnel.order, hcommand] at horder
    subst horder
    constructor <;> (dsimp only; split <;> exact fun h => absurd h Bool.false_ne_true)
  | stopVpn =>
    cases hcommand : s.command <;> simp [Tunnel.order, hcommand] at horder
    subst horder
    exact ⟨fun h => absurd h Bool.false_ne_true, fun h => absurd h Bool.false_ne_true⟩
  | throws =>
    cases hcommand : s.command <;>
      simp only [Tunnel.order, hcommand, Option.ite_none_right_eq_some, Option.some.injEq,
        reduceCtorEq] at horder
    case write =>
      obtain ⟨hpipe, rfl⟩ := horder
      exact ⟨fun _ => h.flagged (by rw [hcommand]; rfl), fun _ _ _ => hpipe⟩
    all_goals
      subst horder
      exact ⟨fun h => absurd h Bool.false_ne_true, fun h => absurd h Bool.false_ne_true⟩
  | proceed o => exact h.proceed horder

theorem Tunnel.Woken.step {e : Turn} (h : s.Woken) (howned : s.Owned)
    (hstep : s.step r e = some s') : s'.Woken := by
  cases e with
  | command a => exact h.order hstep
  | tunnel t w => exact h.work howned hstep

theorem Tunnel.woken_run {w : Firewall} {es : List Turn} (hrun : (Tunnel.init w).run r es = some s) :
    s.Owned ∧ s.Woken :=
  Run.steps_invariant (P := fun s : Tunnel => s.Owned ∧ s.Woken)
    (fun _ _ _ hstep h => ⟨h.1.step hstep, h.2.step h.1 hstep⟩) hrun
    ⟨owned_init w, nofun, nofun⟩

end Woken

section Ended
variable {s s' : Tunnel} {r : Native} {t : Nat} {w : Work} {a : Order} {phase phase' : Phase}

/-- How many steps a thread has left once the flag is set. -/
def Phase.rank : Phase → Nat
  | .starting => 6
  | .opening => 5
  | .head => 4
  | .sweeping => 2 * epollEvents + 8
  | .polling => 2 * epollEvents + 7
  | .handling count events => 2 * events.length + if count = 0 then 6 else 5
  | .closing => 3
  | .exiting => 2
  | .leaving => 1
  | .created | .dead | .caught => 0

def stopBound : Nat := 2 * epollEvents + 8

theorem Tunnel.next_rank (h : s.next phase w = some phase')
    (hstop : phase.active = true → s.stopping = true) : phase'.rank < phase.rank := by
  unfold next at h
  split at h <;> grind [Phase.rank, Phase.active, reads, leaves, epollEvents]

/-- Batches are bounded. -/
def Tunnel.Bounded (s : Tunnel) : Prop := ∀ phase ∈ s.threads, phase.rank ≤ stopBound

theorem Tunnel.next_bounded (h : s.next phase w = some phase') (hle : phase.rank ≤ stopBound) :
    phase'.rank ≤ stopBound := by
  unfold next at h
  split at h <;> grind [Phase.rank, stopBound, epollEvents]

theorem Tunnel.Bounded.step {e : Turn} (h : s.Bounded) (hstep : s.step r e = some s') :
    s'.Bounded := by
  intro phase hmem
  cases e with
  | command a =>
    rcases order_threads hstep with hsame | hnew | ⟨i, t, -, hstart⟩
    · exact h phase (hsame ▸ hmem)
    · rw [hnew] at hmem
      rcases List.mem_append.mp hmem with hold | hcreated
      · exact h phase hold
      · exact List.mem_singleton.mp hcreated ▸ Nat.zero_le _
    · rw [hstart] at hmem
      rcases List.mem_or_eq_of_mem_set hmem with hold | rfl
      · exact h phase hold
      · decide
  | tunnel t w =>
    obtain ⟨old, new, hphase, hnext, rfl | ⟨-, -, rfl⟩⟩ := work_cases hstep
    · rcases List.mem_or_eq_of_mem_set hmem with hold | rfl
      · exact h phase hold
      · exact next_bounded hnext (h old (List.mem_of_getElem? hphase))
    · rcases List.mem_or_eq_of_mem_set hmem with hold | rfl
      · exact h phase hold
      · exact Nat.zero_le _

theorem Tunnel.bounded_run {w : Firewall} {es : List Turn}
    (hrun : (Tunnel.init w).run r es = some s) : s.Bounded :=
  Run.steps_invariant (fun _ _ _ hstep h => h.step hstep) hrun (by simp [Bounded, init])

/-- The thread was started, and it is not at work unless it has been told to stop. -/
def Tunnel.Told (t : Nat) (s : Tunnel) : Prop :=
  ∃ phase, s.threads[t]? = some phase ∧ phase ≠ .created ∧
    (phase.active = true → s.command.stops = true)

def Tunnel.rank (t : Nat) (s : Tunnel) : Nat := s.threads[t]?.elim 0 Phase.rank

def Turn.isOf (t : Nat) : Turn → Bool
  | .command _ => false
  | .tunnel t' _ => t' = t

/-- The command thread does not touch a thread that was started. -/
theorem Tunnel.Owned.frame (h : s.Owned) (horder : s.order r a = some s')
    (hphase : s.threads[t]? = some phase) (hstarted : phase ≠ .created) :
    s'.threads[t]? = some phase := by
  rcases order_threads horder with hsame | hnew | ⟨i, t', hcommand, hstart⟩
  · rwa [hsame]
  · rw [hnew, List.getElem?_append_left (List.getElem?_eq_some_iff.mp hphase).1]
    exact hphase
  · have hrelies := h.relies
    rw [hcommand] at hrelies
    have hne : t' ≠ t := by
      rintro rfl
      exact hstarted (Option.some.inj (hphase.symm.trans hrelies.2))
    rwa [hstart, List.getElem?_set_ne hne]

theorem Tunnel.order_stops (horder : s.order r a = some s') (hstops : s.command.stops = true) :
    s'.command.stops = true ∨ s'.command = .forget := by
  cases a <;> cases hcommand : s.command <;>
    simp only [Tunnel.order, hcommand, Option.ite_none_right_eq_some, Option.some.injEq,
      reduceCtorEq] at horder
  all_goals grind [Command.stops]

theorem Tunnel.Told.order (h : s.Told t) (howned : s.Owned) (horder : s.order r a = some s') :
    s'.Told t := by
  obtain ⟨phase, hphase, hstarted, hstops⟩ := h
  have hphase' := howned.frame horder hphase hstarted
  refine ⟨phase, hphase', hstarted, fun hactive => ?_⟩
  rcases order_stops horder (hstops hactive) with hstops' | hforget
  · exact hstops'
  · have hrelies := (howned.order horder).relies
    rw [hforget] at hrelies
    exact absurd hactive (by simp [hrelies phase (List.mem_of_getElem? hphase')])

theorem Tunnel.Told.work {t' : Nat} (h : s.Told t) (hwork : s.work r t' w = some s') :
    s'.Told t := by
  obtain ⟨phase, hphase, hstarted, hstops⟩ := h
  obtain ⟨old, new, hfrom, hnext, rfl | ⟨hactive, -, rfl⟩⟩ := work_cases hwork
  swap
  · have hcommand : (s.stay r old w).command = s.command := stay_command
    by_cases hsame : t' = t
    · subst hsame
      obtain rfl := Option.some.inj (hphase.symm.trans hfrom)
      have hlength := (List.getElem?_eq_some_iff.mp hphase).1
      exact ⟨.caught, by simp [hlength], Phase.noConfusion, fun _ => hcommand ▸ hstops hactive⟩
    · exact ⟨phase, by simpa [List.getElem?_set_ne hsame] using hphase, hstarted,
        fun hactive => hcommand ▸ hstops hactive⟩
  have hcommand : (s.effect r old w).command = s.command := effect_command
  by_cases hsame : t' = t
  · subst hsame
    obtain rfl := Option.some.inj (hphase.symm.trans hfrom)
    have hlength := (List.getElem?_eq_some_iff.mp hphase).1
    refine ⟨new, by simp [hlength], ?_⟩
    rcases active_of_next hnext with hactive | ⟨-, -, rfl⟩
    · rcases next_active hnext hactive with ⟨hactive', -⟩ | ⟨-, -, rfl⟩
      · refine ⟨?_, fun _ => hcommand ▸ hstops hactive⟩
        rintro rfl
        exact absurd hactive' Bool.false_ne_true
      · exact ⟨Phase.noConfusion, fun hactive' => absurd hactive' Bool.false_ne_true⟩
    · exact ⟨Phase.noConfusion, fun hactive' => absurd hactive' Bool.false_ne_true⟩
  · exact ⟨phase, by simpa [List.getElem?_set_ne hsame] using hphase, hstarted,
      fun hactive => hcommand ▸ hstops hactive⟩

/-- What carries a thread from the stop to its end. -/
structure Tunnel.Ending (t : Nat) (s : Tunnel) : Prop where
  owned : s.Owned
  woken : s.Woken
  told : s.Told t

theorem Tunnel.Ending.step {e : Turn} (h : s.Ending t) (hstep : s.step r e = some s') :
    s'.Ending t := by
  refine ⟨h.owned.step hstep, h.woken.step h.owned hstep, ?_⟩
  cases e with
  | command a => exact h.told.order h.owned hstep
  | tunnel t' w => exact h.told.work hstep

theorem Tunnel.Ending.rank_le {e : Turn} (h : s.Ending t) (hstep : s.step r e = some s') :
    s'.rank t + (if e.isOf t then 1 else 0) ≤ s.rank t := by
  obtain ⟨phase, hphase, hstarted, hstops⟩ := h.told
  cases e with
  | command a =>
    rw [rank, rank, hphase, h.owned.frame hstep hphase hstarted]
    exact Nat.le_refl _
  | tunnel t' w =>
    obtain ⟨old, new, hfrom, hnext, hs'⟩ := work_cases hstep
    have hthreads : s'.threads = s.threads.set t' new ∨ s'.threads = s.threads.set t' .caught := by
      rcases hs' with rfl | ⟨-, -, rfl⟩
      · exact .inl rfl
      · exact .inr rfl
    by_cases hsame : t' = t
    · subst hsame
      obtain rfl := Option.some.inj (hphase.symm.trans hfrom)
      have hlength := (List.getElem?_eq_some_iff.mp hphase).1
      have hlower := next_rank hnext fun hactive => h.woken.flagged (hstops hactive)
      have hset : ∀ phase', (s.threads.set t' phase')[t']? = some phase' := by simp [hlength]
      rcases hthreads with hnew | hcaught
      · simp only [rank, hphase, hnew, hset, Turn.isOf, Option.elim_some, decide_true, if_true]
        exact hlower
      · simp only [rank, hphase, hcaught, hset, Turn.isOf, Option.elim_some, decide_true, if_true]
        exact (Nat.zero_le new.rank).trans_lt hlower
    · rcases hthreads with hnew | hcaught
      · simp [rank, hnew, Turn.isOf, hsame, List.getElem?_set_ne hsame]
      · simp [rank, hcaught, Turn.isOf, hsame, List.getElem?_set_ne hsame]

/-- Its next step, without the timeout of `epoll_wait`. -/
theorem Tunnel.Ending.goes_on (h : s.Ending t) (hwoke : s.command.woke = true)
    (hphase : s.threads[t]? = some phase) (hdead : phase ≠ .dead) (hfree : phase ≠ .caught)
    (o : Surroundings) (args : Arguments) : ∃ w s', w ≠ .timeout ∧ s.work r t w = some s' := by
  have hgo : ∀ w phase', w ≠ .timeout → s.next phase w = some phase' →
      ∃ w s', w ≠ .timeout ∧ s.work r t w = some s' := by
    intro w phase' hw hnext
    exact ⟨w, _, hw, by rw [Tunnel.work, hphase, Option.bind_some, hnext, Option.map_some]⟩
  obtain ⟨phase', hphase', hstarted, hstops⟩ := h.told
  obtain rfl := Option.some.inj (hphase.symm.trans hphase')
  cases phase with
  | created => exact absurd rfl hstarted
  | dead => exact absurd rfl hdead
  | caught => exact absurd rfl hfree
  | starting => exact hgo (.checkAllowed o args none) _ Work.noConfusion rfl
  | opening => exact hgo (.epollCreate false) _ Work.noConfusion rfl
  | head => exact hgo .test _ Work.noConfusion rfl
  | sweeping => exact hgo (.sweep o) _ Work.noConfusion rfl
  | polling =>
    have hpending := h.woken.pending hwoke t (.inr hphase)
    exact hgo (.ready [.pipe]) (.handling 0 [.pipe]) Work.noConfusion
      (by simp [next, reports, hpending, epollEvents])
  | handling count events =>
    cases events with
    | nil => exact hgo .next _ Work.noConfusion rfl
    | cons event rest =>
      cases event with
      | pipe => exact hgo .readPipe _ Work.noConfusion rfl
      | tun => exact hgo .next _ Work.noConfusion rfl
      | socket place =>
        by_cases hleaves : s.leaves count (.socket place) = true
        · exact hgo .next (.handling 0 rest) Work.noConfusion (by simp [next, hleaves])
        · have hreads : s.reads count (.socket place) = true := by grind [leaves, reads]
          exact hgo (.readSocket o ⟨true, false, false⟩)
            (.handling (count + 1) (.socket place :: rest)) Work.noConfusion
            (by simp only [next, if_pos hreads])
  | closing => exact hgo .close _ Work.noConfusion rfl
  | exiting => exact hgo .exit _ Work.noConfusion rfl
  | leaving => exact hgo .die _ Work.noConfusion rfl

end Ended

section Caught
variable {s s' : Tunnel} {r : Native} {w : Firewall} {es : List Turn} {t : Nat} {e : Turn}

/-- Some start has thrown while it held the lock. -/
def Tunnel.ThrewIn (r : Native) (w : Firewall) (es : List Turn) : Prop :=
  ∃ pre post s i, es = pre ++ .command .throws :: post ∧ (Tunnel.init w).run r pre = some s ∧
    s.command = .preparePackageRules i

/-- At some step the thread came to a loop over a packet that does not end, or after such a start
to a question that takes the lock. -/
def Tunnel.CaughtIn (r : Native) (w : Firewall) (es : List Turn) (t : Nat) : Prop :=
  ∃ pre work post s phase o e out, es = pre ++ .tunnel t work :: post ∧
    (Tunnel.init w).run r pre = some s ∧ s.threads[t]? = some phase ∧
    s.event phase work = some (o, e) ∧ out ∈ s.world.outputs r o e ∧
    (out = .hang ∨ takesLock out = true ∧ ThrewIn r w pre)

/-- Only a start that throws leaves the lock held. -/
theorem Tunnel.step_locked (hstep : s.step r e = some s') (hnot : ¬ s.locked = true)
    (hlocked : s'.locked = true) : e = .command .throws ∧ ∃ i, s.command = .preparePackageRules i := by
  cases e with
  | command a =>
    cases a <;> cases hcommand : s.command <;>
      simp only [Tunnel.step, Tunnel.order, hcommand, Option.ite_none_right_eq_some,
        Option.some.injEq, reduceCtorEq] at hstep
    all_goals grind [prepare, handle]
  | tunnel t work =>
    obtain ⟨phase, phase', -, -, rfl | ⟨-, -, rfl⟩⟩ := work_cases hstep
    · exact absurd (effect_locked.symm.trans hlocked) hnot
    · exact absurd (stay_locked.symm.trans hlocked) hnot

theorem Tunnel.threw_run (hrun : (Tunnel.init w).run r es = some s) (hlocked : s.locked = true) :
    ThrewIn r w es := by
  obtain ⟨pre, e, post, s₀, s₁, rfl, hpre, hstep, hnot, hlocked'⟩ :=
    Run.steps_turn (P := fun s : Tunnel => s.locked = true) hrun Bool.false_ne_true hlocked
  obtain ⟨rfl, i, hcommand⟩ := step_locked hstep hnot hlocked'
  exact ⟨pre, post, s₀, i, rfl, hpre, hcommand⟩

/-- A thread is caught by a step of its own. -/
theorem Tunnel.step_caught (hstep : s.step r e = some s')
    (hnot : ¬ s.threads[t]? = some .caught) (hcaught : s'.threads[t]? = some .caught) :
    ∃ work phase, e = .tunnel t work ∧ s.threads[t]? = some phase ∧
      s.catches r phase work = true := by
  cases e with
  | command a =>
    rcases order_threads hstep with hsame | hnew | ⟨i, t', -, hstart⟩
    · exact absurd (hsame ▸ hcaught) hnot
    · grind
    · grind
  | tunnel t' work =>
    obtain ⟨phase, phase', hphase, hnext, rfl | ⟨-, hcatches, rfl⟩⟩ := work_cases hstep
    · have hfree : phase' ≠ .caught := by
        rintro rfl
        unfold next at hnext
        split at hnext <;> grind
      grind
    · have hsame : t' = t := by grind
      subst hsame
      exact ⟨work, phase, rfl, hphase, hcatches⟩

theorem Tunnel.caught_run (hrun : (Tunnel.init w).run r es = some s)
    (hcaught : s.threads[t]? = some .caught) : CaughtIn r w es t := by
  have hinit : ¬ (Tunnel.init w).threads[t]? = some .caught := by simp [init]
  obtain ⟨pre, e, post, s₀, s₁, rfl, hpre, hstep, hnot, hcaught'⟩ :=
    Run.steps_turn (P := fun s : Tunnel => s.threads[t]? = some .caught) hrun hinit hcaught
  obtain ⟨work, phase, rfl, hphase, hcatches⟩ := step_caught hstep hnot hcaught'
  obtain ⟨o, e, out, hevent, hout, hstays⟩ := catches_iff.mp hcatches
  refine ⟨pre, work, post, s₀, phase, o, e, out, rfl, hpre, hphase, hevent, hout, ?_⟩
  rcases stays_iff.mp hstays with hhang | ⟨hlocked, htakes⟩
  · exact .inl hhang
  · exact .inr ⟨htakes, threw_run hpre hlocked⟩

/-- Whoever joins a thread that is caught waits for good. -/
structure Tunnel.Stuck (t : Nat) (s : Tunnel) : Prop where
  caught : s.threads[t]? = some .caught
  join : s.command = .join t

theorem Tunnel.Stuck.step (h : s.Stuck t) (hstep : s.step r e = some s') : s'.Stuck t := by
  cases e with
  | command a =>
    have hcommand := h.join
    cases a <;> simp [Tunnel.step, Tunnel.order, hcommand, h.caught] at hstep
  | tunnel t' work =>
    obtain ⟨phase, phase', hphase, hnext, hs'⟩ := work_cases hstep
    have hne : t' ≠ t := by
      rintro rfl
      obtain rfl := Option.some.inj (h.caught.symm.trans hphase)
      exact absurd hnext (by simp [next])
    rcases hs' with rfl | ⟨-, -, rfl⟩
    · exact ⟨by simpa [List.getElem?_set_ne hne] using h.caught, effect_command.trans h.join⟩
    · exact ⟨by simpa [List.getElem?_set_ne hne] using h.caught, stay_command.trans h.join⟩

end Caught

section Runs
variable {r : Native} {w : Firewall} {es : List Turn} {s : Tunnel} {t : Nat}

/-- How it goes on with a thread that the command thread waits for in `join`. -/
structure Tunnel.Stops (r : Native) (w : Firewall) (es : List Turn) (t : Nat) (s : Tunnel) :
    Prop where
  wakes : s.threads[t]? = some .polling → 0 < s.pipe
  goes_on : s.threads[t]? ≠ some .dead → s.threads[t]? ≠ some .caught →
    ∀ (_ : Surroundings) (_ : Arguments), ∃ w s', w ≠ .timeout ∧ s.work r t w = some s'
  bounded : ∀ es' s', s.run r es' = some s' → es'.countP (Turn.isOf t) ≤ stopBound
  joined : s.threads[t]? = some .dead → ∀ o, ∃ s', s.order r (.proceed o) = some s'
  stuck : s.threads[t]? = some .caught → ∀ es' s', s.run r es' = some s' → s'.Stuck t
  cause : s.threads[t]? = some .caught → CaughtIn r w es t

/-- Wherever the thread is when the command thread waits for it: `epoll_wait` finds the wakeup, some
step other than the timeout can be taken, no more than a bounded number of them will be, and then
the command thread goes on, unless the thread is caught on the way. -/
theorem Tunnel.stops (hrun : (Tunnel.init w).run r es = some s) (hjoin : s.command = .join t) :
    s.Stops r w es t := by
  obtain ⟨howned, hwoken⟩ := woken_run hrun
  have hrelies := howned.relies
  rw [hjoin] at hrelies
  obtain ⟨-, hlength, hstarted⟩ := hrelies
  have hphase : s.threads[t]? = some s.threads[t] := List.getElem?_eq_getElem hlength
  have hending : s.Ending t :=
    ⟨howned, hwoken, s.threads[t], hphase, fun h => hstarted (h ▸ hphase),
      fun _ => by rw [hjoin]; rfl⟩
  refine ⟨fun hpolling => ?_, fun hdead hfree o args => ?_, fun es' s' hrun' => ?_,
    fun hdead o => ?_, fun hcaught es' s' hrun' => ?_, caught_run hrun⟩
  · exact hwoken.pending (by rw [hjoin]; rfl) t (.inr hpolling)
  · exact hending.goes_on (by rw [hjoin]; rfl) hphase (fun h => hdead (h ▸ hphase))
      (fun h => hfree (h ▸ hphase)) o args
  · have hcount := Run.steps_countdown (fun _ _ _ hstep h => h.step hstep)
      (fun _ _ _ hstep h => h.rank_le hstep) hrun' hending
    have hbound := bounded_run hrun s.threads[t] (List.getElem_mem hlength)
    rw [rank, rank, hphase, Option.elim_some] at hcount
    exact (Nat.le_add_left _ _).trans (hcount.trans hbound)
  · simp [order, hjoin, hdead]
  · exact Run.steps_invariant (P := Stuck t) (fun _ _ _ hstep h => h.step hstep) hrun'
      ⟨hcaught, hjoin⟩

theorem Tunnel.stops_sample : ∃ s, Tunnel.sampleRun = some s ∧
    s.Stops .sample .sample Tunnel.sampleTurns 0 := by
  have hrun : (Tunnel.init .sample).run .sample Tunnel.sampleTurns = some _ := rfl
  exact ⟨_, hrun, Tunnel.stops hrun rfl⟩

/-- A SYN with an option of length 0 is read before the stop. -/
def Tunnel.caughtTurns : List Turn :=
  [.command (.startVpn .sample)] ++ List.replicate 9 (.command (.proceed .calm)) ++
    [.tunnel 0 (.checkAllowed .calm .direct none), .tunnel 0 (.epollCreate false),
      .tunnel 0 .test, .tunnel 0 (.sweep .calm), .tunnel 0 (.ready [.tun]),
      .tunnel 0 (.readTun .calm (.packet (.sample 6 [156, 64, 0, 80, 0, 0, 0, 100, 0, 0, 0, 0,
        0x60, 2, 3, 232, 0, 0, 0, 0, 2, 0, 5, 180]))), .command .stopVpn] ++
    List.replicate 5 (.command (.proceed .calm))

example : ((Tunnel.init .sample).run .sample Tunnel.caughtTurns).map Tunnel.threads =
    some [.caught] := by
  decide +kernel

end Runs

end NetGuard.Service
