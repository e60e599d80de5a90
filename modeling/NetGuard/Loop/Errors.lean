import NetGuard.Loop.Limit

/-! # Errors of sockets

An error of a socket is over when the session that has the socket is: the next sweep closes
it. The loop reads a UDP socket only when its event has no error, so that an active UDP
session never sees one.
-/
namespace NetGuard.Engine

def NgSession.activeUdp : NgSession → Bool
  | .udp s _ => s.state = .active
  | _ => false

section Error
variable {env : Env} {args : Arguments} {ev : Events} {l : EventLoop} {i : Nat} {s : NgSession}

/-- After an error the entry is live only if it is the one kind that is not told. -/
theorem checkSocket_error (herr : ev.epollErr = true) :
    (checkSocket env args ev s).1.live = s.activeUdp := by
  cases s with
  | icmp s sock => simp [checkSocket, checkIcmpSocket, herr, NgSession.live, NgSession.activeUdp]
  | udp s sock => simp [checkSocket, herr, NgSession.live, NgSession.activeUdp]
  | tcp s sock events =>
    have hover : (checkTcpSocket env args ev ⟨s, sock, events, []⟩).tcp.state.Over := by
      simp only [checkTcpSocket, herr, if_true]
      exact writeRst_over ..
    exact Bool.eq_false_iff.mpr fun hlive => NgSession.live_tcp.mp hlive hover

theorem checkSocket_activeUdp (herr : ev.epollErr = true) (hudp : s.activeUdp = true) :
    checkSocket env args ev s = (s, []) := by
  cases s with
  | udp s sock => simp [checkSocket, herr]
  | icmp s sock => exact absurd hudp Bool.false_ne_true
  | tcp s sock events => exact absurd hudp Bool.false_ne_true

theorem EventLoop.step_socket (env : Env) (l : EventLoop) (ev : Events)
    (hs : l.ngSession[i]? = some s) : l.step (env, .socket i ev) =
      { l with
        ngSession := l.ngSession.set i (checkSocket (env.after []) l.args ev s).1
        out := l.out ++ (checkSocket (env.after []) l.args ev s).2 } := by
  obtain ⟨hi, hget⟩ := List.getElem?_eq_some_iff.mp hs
  have hdrop : l.ngSession.drop i = s :: l.ngSession.drop (i + 1) := by
    rw [List.drop_eq_getElem_cons hi, hget]
  simp only [step, LoopEvent.handle, EventLoop.socket, List.splitAt_eq, hdrop,
    List.set_eq_take_append_cons_drop, if_pos hi, List.nil_append]

/-- A socket that reports an error is done with it unless its session is UDP and active. -/
theorem EventLoop.error_consumed_iff (env : Env) (l : EventLoop) {i : Nat} {ev : Events}
    {s : NgSession} (herr : ev.epollErr = true) (hs : l.ngSession[i]? = some s) :
    (∃ t, (l.step (env, .socket i ev)).ngSession[i]? = some t ∧ t.live = false) ↔
      s.activeUdp = false := by
  have hi := (List.getElem?_eq_some_iff.mp hs).1
  rw [l.step_socket env ev hs, List.getElem?_set_self hi]
  simp [checkSocket_error herr]

theorem EventLoop.error_consumed_sample :
    ∃ t, (((EventLoop.init .direct).run [(.calm, .tun .sampleSyn)]).step
      (.calm, .socket 0 ⟨true, false, true⟩)).ngSession[0]? = some t ∧ t.live = false :=
  (error_consumed_iff .calm _ rfl (by with_unfolding_all rfl)).mpr rfl

/-- The error of an active UDP session leaves all as it is, however often it is reported. -/
theorem EventLoop.step_error (env : Env) (l : EventLoop) {i : Nat} {ev : Events} {s : NgSession}
    (herr : ev.epollErr = true) (hs : l.ngSession[i]? = some s) (hudp : s.activeUdp = true) :
    l.step (env, .socket i ev) = l := by
  obtain ⟨hi, hget⟩ := List.getElem?_eq_some_iff.mp hs
  rw [l.step_socket env ev hs, checkSocket_activeUdp herr hudp, List.append_nil, ← hget,
    List.set_getElem_self]

theorem EventLoop.run_error (l : EventLoop) {i : Nat} {s : NgSession}
    (hs : l.ngSession[i]? = some s) (hudp : s.activeUdp = true) (es : List (Env × LoopEvent))
    (herr : ∀ e ∈ es, ∃ ev, e.2 = .socket i ev ∧ ev.epollErr = true) : l.run es = l := by
  induction es with
  | nil => rfl
  | cons e es ih =>
    obtain ⟨env, event⟩ := e
    obtain ⟨ev, rfl, hev⟩ := herr _ List.mem_cons_self
    rw [run, List.foldl_cons, l.step_error env hev hs hudp]
    exact ih fun e he => herr e (List.mem_cons_of_mem _ he)

/-- A UDP session whose socket has data and an error. -/
theorem EventLoop.not_error_consumed :
    ¬ ∀ (args : Arguments) (es : List (Env × LoopEvent)) (env : Env) (i : Nat) (ev : Events)
      (s : NgSession), ev.epollErr = true →
      ((EventLoop.init args).run es).ngSession[i]? = some s →
      ∃ t, (((EventLoop.init args).run es).step (env, .socket i ev)).ngSession[i]? = some t ∧
        t.live = false := by
  intro h
  obtain ⟨t, ht, hlive⟩ := h .direct [(.calm, .tun .sampleDatagram)] .calm 0 ⟨true, false, true⟩ _
    rfl rfl
  obtain rfl := Option.some.inj ht
  exact absurd hlive (by decide)

end Error

end NetGuard.Engine
