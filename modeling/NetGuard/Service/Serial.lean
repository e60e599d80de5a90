import NetGuard.Service.Tunnel

/-! # Threads as a sequence of events

Since no thread is at work while the maps are made or the sessions are cleared, what the threads
do together is a run of the sequential machine: a start, and events of the loop one by one.
-/
namespace NetGuard.Service
open Engine (Arguments LoopEvent)

section Serial
variable {s s' : Tunnel} {r : Native} {t : Nat} {w : Work} {a : Order} {phase phase' : Phase}
  {i : Installation} {world : Firewall}

/-- The maps are those that `f` has made from some earlier ones. -/
def Firewall.Staged (f : Session → Session) (i : Installation) (world : Firewall) : Prop :=
  ∃ w : Firewall, world = { w with installation := i, calls := [], session := f w.session }

/-- What `handle_events` handles, once the sessions have been rechecked. -/
def Handled : LoopEvent → Bool
  | .head | .tun _ | .socket _ _ => true
  | .start _ _ | .clear => false

/-- A start of the sequential machine and then what `handle_events` handles. -/
def Firewall.Serial (r : Native) (world : Firewall) : Prop :=
  ∃ (w : Firewall) (o : Surroundings) (i : Installation) (args : Arguments) (soft : Option UInt64)
    (es : List (Surroundings × LoopEvent)), (∀ e ∈ es, Handled e.2 = true) ∧
    world = (w.step r (o, .start i args soft)).run r (es.map fun e => (e.1, .loop e.2))

theorem Firewall.Staged.serial (h : world.Staged (Session.startNative i) i) (o : Surroundings)
    (args : Arguments) (soft : Option UInt64) :
    (world.step r (o, .loop (.start args soft))).Serial r := by
  obtain ⟨w, rfl⟩ := h
  exact ⟨w, o, i, args, soft, [], nofun, rfl⟩

theorem Firewall.Serial.loop (h : world.Serial r) (o : Surroundings) {e : LoopEvent}
    (he : Handled e = true) : (world.step r (o, .loop e)).Serial r := by
  obtain ⟨w, o', i, args, soft, es, hes, rfl⟩ := h
  refine ⟨w, o', i, args, soft, es ++ [(o, e)], ?_, by simp [Firewall.run]⟩
  rw [List.forall_mem_append, List.forall_mem_singleton]
  exact ⟨hes, he⟩

/-- How far the maps are where the command thread is. -/
def Command.Stage (world : Firewall) : Command → Prop
  | .prepareGlobalRules i => world.Staged Session.prepareCacheMaps i
  | .preparePackageRules i =>
    world.Staged (fun s => Session.prepareGlobalRules (Session.prepareCacheMaps s)) i
  | .prepareApplicationSettings i =>
    world.Staged (fun s => Session.preparePackageRules i
      (Session.prepareGlobalRules (Session.prepareCacheMaps s))) i
  | .startNative i | .jniStart i | .create i | .start i _ =>
    world.Staged (Session.startNative i) i
  | _ => True

structure Tunnel.Serial (r : Native) (s : Tunnel) : Prop where
  stage : s.command.Stage s.world
  starting : ∀ t : Nat, s.threads[t]? = some Phase.starting →
    ∃ i, s.world.Staged (Session.startNative i) i
  running : ∀ (t : Nat) phase, s.threads[t]? = some phase → phase.running = true → s.world.Serial r

theorem Command.stage_of_beside {c : Command} (h : c.beside = true) (world : Firewall) :
    c.Stage world := by
  cases c <;> trivial

theorem Tunnel.effect_world (hw : ∀ o args soft, w ≠ .checkAllowed o args soft) :
    (s.effect r phase w).world = s.world ∨ ∃ o e, Handled e = true ∧
      (s.effect r phase w).world = s.world.step r (o, .loop e) := by
  cases w with
  | checkAllowed o args soft => exact absurd rfl (hw o args soft)
  | sweep o => exact .inr ⟨o, .head, rfl, rfl⟩
  | readTun o read =>
    cases read with
    | packet p => exact .inr ⟨o, .tun p, rfl, rfl⟩
    | _ => exact .inl rfl
  | readSocket o ev =>
    refine .inr ⟨o, s.socketEvent phase ev, ?_, rfl⟩
    unfold socketEvent
    split <;> rfl
  | _ => exact .inl rfl

theorem Tunnel.next_checkAllowed {o : Surroundings} {args : Arguments} {soft : Option UInt64}
    (h : s.next phase (.checkAllowed o args soft) = some phase') : phase = .starting := by
  cases phase <;> first | rfl | simp [next] at h

theorem Phase.active_of_running (h : phase.running = true) : phase.active = true := by
  cases phase <;> first | rfl | exact absurd h Bool.false_ne_true

/-- While no thread is at work there is nothing to say of any. -/
theorem Tunnel.Serial.of_idle (hstage : s.command.Stage s.world)
    (hidle : ∀ phase ∈ s.threads, phase.active = false) : s.Serial r where
  stage := hstage
  starting t hphase := absurd (hidle _ (List.mem_of_getElem? hphase)) Bool.noConfusion
  running t phase hphase hrunning := by
    have hactive := Phase.active_of_running hrunning
    exact absurd (hactive.symm.trans (hidle _ (List.mem_of_getElem? hphase))) Bool.noConfusion

/-- A step of the one thread at work. -/
theorem Tunnel.Serial.active (h : s.Serial r) (howned : s.Owned)
    (hphase : s.threads[t]? = some phase) (hnext : s.next phase w = some phase')
    (hactive : phase.active = true) :
    ({ s.effect r phase w with threads := s.threads.set t phase' } : Tunnel).Serial r := by
  have hother : ∀ t' phase'', t' ≠ t → (s.threads.set t phase')[t']? = some phase'' →
      phase''.active = false := by
    intro t' phase'' hne hphase''
    rw [List.getElem?_set_ne (Ne.symm hne)] at hphase''
    by_contra hactive'
    have howner := howned.owner t phase hphase hactive
    have howner' := howned.owner t' phase'' hphase'' (by simpa using hactive')
    exact hne (Option.some.inj (howner'.symm.trans howner))
  have hsame : ∀ phase'', (s.threads.set t phase')[t]? = some phase'' → phase'' = phase' := by
    intro phase'' hphase''
    have hlength := (List.getElem?_eq_some_iff.mp hphase).1
    rw [List.getElem?_set_self hlength] at hphase''
    exact (Option.some.inj hphase'').symm
  refine ⟨?_, ?_, ?_⟩
  · exact Command.stage_of_beside (effect_command.symm ▸ howned.beside hphase hactive) _
  · intro t' hphase'
    by_cases hne : t' = t
    · subst hne
      obtain rfl := hsame _ hphase'
      rcases next_running hnext rfl with ⟨-, hrunning⟩ | ⟨_, _, _, -, -, hopening⟩
      · exact absurd hrunning Bool.false_ne_true
      · exact absurd hopening Phase.noConfusion
    · exact absurd (hother t' _ hne hphase') Bool.noConfusion
  · intro t' phase'' hphase'' hrunning
    have hactive' := Phase.active_of_running hrunning
    by_cases hne : t' = t
    · subst hne
      obtain rfl := hsame _ hphase''
      rcases next_running hnext hactive' with ⟨hrunning', -⟩ | ⟨o, args, soft, rfl, rfl, -⟩
      · have hserial := h.running t' phase hphase hrunning'
        have hw : ∀ o args soft, w ≠ .checkAllowed o args soft := by
          rintro o args soft rfl
          rw [next_checkAllowed hnext] at hrunning'
          exact absurd hrunning' Bool.false_ne_true
        change (s.effect r phase w).world.Serial r
        rcases effect_world hw with hworld | ⟨o, e, he, hworld⟩
        · rwa [hworld]
        · rw [hworld]
          exact hserial.loop o he
      · obtain ⟨i, hstaged⟩ := h.starting t' hphase
        exact hstaged.serial o args soft
    · exact absurd (hactive'.symm.trans (hother t' phase'' hne hphase'')) Bool.noConfusion

/-- A thread that is caught works on nothing. -/
theorem Tunnel.Owned.serial_stay (howned : s.Owned) (hphase : s.threads[t]? = some phase)
    (hactive : phase.active = true) :
    ({ s.stay r phase w with threads := s.threads.set t .caught } : Tunnel).Serial r := by
  have hidle : ∀ (t' : Nat) (phase' : Phase), (s.threads.set t .caught)[t']? = some phase' →
      phase'.active = false ∨ phase' = .caught := by
    intro t' phase' hphase'
    rw [List.getElem?_set] at hphase'
    split at hphase'
    next => exact .inr (by grind)
    next hne =>
      refine .inl (Bool.eq_false_iff.mpr fun hactive' => hne ?_)
      have howner := howned.owner t phase hphase hactive
      exact Option.some.inj (howner.symm.trans (howned.owner t' phase' hphase' hactive'))
  refine ⟨?_, fun t' hphase' => ?_, fun t' phase' hphase' hrunning => ?_⟩
  · exact Command.stage_of_beside (stay_command.symm ▸ howned.beside hphase hactive) _
  · rcases hidle t' _ hphase' with hinactive | hcaught
    · exact absurd hinactive Bool.noConfusion
    · exact absurd hcaught Phase.noConfusion
  · rcases hidle t' phase' hphase' with hinactive | rfl
    · exact absurd ((Phase.active_of_running hrunning).symm.trans hinactive) Bool.noConfusion
    · exact absurd hrunning Bool.false_ne_true

theorem Tunnel.Serial.work (h : s.Serial r) (howned : s.Owned) (hwork : s.work r t w = some s') :
    s'.Serial r := by
  obtain ⟨phase, phase', hphase, hnext, rfl | ⟨hactive, -, rfl⟩⟩ := work_cases hwork
  swap
  · exact howned.serial_stay hphase hactive
  rcases active_of_next hnext with hactive | ⟨rfl, rfl, rfl⟩
  · exact h.active howned hphase hnext hactive
  · refine ⟨h.stage, fun t' hphase' => ?_, fun t' phase' hphase' hrunning => ?_⟩
    · rw [List.getElem?_set] at hphase'
      exact h.starting t' (by grind)
    · rw [List.getElem?_set] at hphase'
      exact h.running t' phase' (by grind [Phase.running]) hrunning

theorem Tunnel.order_stage (h : s.command.Stage s.world) (horder : s.order r a = some s') :
    s'.command.Stage s'.world := by
  cases a with
  | startVpn i =>
    cases hcommand : s.command <;> simp [Tunnel.order, hcommand] at horder
    subst horder
    split <;> trivial
  | stopVpn =>
    cases hcommand : s.command <;> simp [Tunnel.order, hcommand] at horder
    subst horder
    trivial
  | throws =>
    cases hcommand : s.command <;>
      simp only [Tunnel.order, hcommand, Option.ite_none_right_eq_some, Option.some.injEq,
        reduceCtorEq] at horder
    case write => exact horder.2 ▸ trivial
    all_goals exact horder ▸ trivial
  | proceed o =>
    cases hcommand : s.command <;> rw [hcommand] at h <;>
      simp only [Tunnel.order, hcommand, Option.ite_none_right_eq_some, Option.some.injEq,
        reduceCtorEq] at horder
    case prepareCacheMaps i => exact horder ▸ ⟨s.world, rfl⟩
    case prepareGlobalRules i | preparePackageRules i =>
      obtain ⟨w, hw⟩ := h
      exact horder ▸ ⟨w, by rw [prepare, hw]⟩
    case prepareApplicationSettings i =>
      obtain ⟨w, hw⟩ := h
      refine horder ▸ ⟨w, ?_⟩
      rw [prepare, hw]
      rfl
    case startNative i =>
      subst horder
      dsimp only
      split
      · exact h
      · trivial
    case jniStart i | create i => exact horder ▸ h
    case stopNative =>
      subst horder
      dsimp only
      split <;> trivial
    case isAlive t =>
      subst horder
      dsimp only
      split <;> trivial
    case find =>
      subst horder
      dsimp only
      split <;> trivial
    case join t => exact horder.2 ▸ trivial
    all_goals exact horder ▸ trivial

/-- The command thread changes the maps and the sessions only while no thread is named. -/
theorem Tunnel.Owned.order_world (h : s.Owned) (horder : s.order r a = some s') :
    s'.world = s.world ∨ s'.tunnelThread = none := by
  have hrelies := h.relies
  cases a <;> cases hcommand : s.command <;> rw [hcommand] at hrelies <;>
    simp only [Tunnel.order, hcommand, Option.ite_none_right_eq_some, Option.some.injEq,
      reduceCtorEq] at horder
  all_goals grind [prepare, handle, Command.Relies]

theorem Tunnel.Serial.order (h : s.Serial r) (howned : s.Owned) (horder : s.order r a = some s') :
    s'.Serial r := by
  have hstage := order_stage h.stage horder
  rcases howned.order_world horder with hworld | hnone
  · refine ⟨hstage, fun t hphase => ?_, fun t phase hphase hrunning => ?_⟩
    · rw [hworld]
      rcases order_threads horder with hsame | hnew | ⟨i, t', hcommand, hstart⟩
      · exact h.starting t (hsame ▸ hphase)
      · exact h.starting t (by grind)
      · have hstaged := h.stage
        rw [hcommand] at hstaged
        exact ⟨i, hstaged⟩
    · rw [hworld]
      rcases order_threads horder with hsame | hnew | ⟨i, t', hcommand, hstart⟩
      · exact h.running t phase (hsame ▸ hphase) hrunning
      · exact h.running t phase (by grind [Phase.running]) hrunning
      · rw [hstart, List.getElem?_set] at hphase
        exact h.running t phase (by grind [Phase.running]) hrunning
  · exact .of_idle hstage ((howned.order horder).idle hnone)

theorem Tunnel.Serial.step {e : Turn} (h : s.Serial r) (howned : s.Owned)
    (hstep : s.step r e = some s') : s'.Serial r := by
  cases e with
  | command a => exact h.order howned hstep
  | tunnel t w => exact h.work howned hstep

theorem Tunnel.serial_run {w : Firewall} {es : List Turn}
    (hrun : (Tunnel.init w).run r es = some s) : s.Serial r := by
  have hinit : (Tunnel.init w).Serial r := .of_idle trivial (by simp [init])
  exact (Run.steps_invariant (P := fun s : Tunnel => s.Owned ∧ s.Serial r)
    (fun _ _ _ hstep h => ⟨h.1.step hstep, h.2.step h.1 hstep⟩) hrun
    ⟨owned_init w, hinit⟩).2

end Serial

section Runs
variable {r : Native} {w : Firewall} {es : List Turn} {s : Tunnel} {t : Nat} {phase : Phase}

/-- In every interleaving a thread that has rechecked the sessions, unless it is caught, works on
what a start and then events of the loop make of some state, one after the other. -/
theorem Tunnel.serializes (hrun : (Tunnel.init w).run r es = some s)
    (hphase : s.threads[t]? = some phase) (hrunning : phase.running = true) :
    s.world.Serial r :=
  (serial_run hrun).running t phase hphase hrunning

theorem Tunnel.serializes_sample :
    ∃ s, Tunnel.sampleRun = some s ∧ s.world.Serial .sample := by
  have hrun : (Tunnel.init .sample).run .sample Tunnel.sampleTurns = some _ := rfl
  exact ⟨_, hrun, Tunnel.serializes (t := 0) hrun rfl rfl⟩

end Runs

end NetGuard.Service
