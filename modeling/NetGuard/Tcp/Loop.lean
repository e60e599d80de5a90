import NetGuard.Loop.Entry
import NetGuard.Loop.Packet
import NetGuard.Tcp.States

/-! # TCP sessions in the event loop

A property of TCP sessions that a SYN establishes and that every call on a session keeps
holds of every TCP entry the loop ever has. In particular each entry is a reachable session,
and with the same settings throughout it is a run of its own events from its SYN on.
-/
namespace NetGuard.Engine

structure TcpInvariant (args : Arguments) (P : Conn → Prop) : Prop where
  opened : ∀ {syn : Syn} {c : Conn}, syn.Opens args c → P { c with out := [] }
  handled : ∀ {c : Conn} (env : Env) (e : TcpEvent), c.out = [] → P c →
    P { e.handle env args c with out := [] }

def NgSession.Tcp (P : Conn → Prop) : NgSession → Prop
  | .tcp s sock events => P ⟨s, sock, events, []⟩
  | _ => True

def AllTcp (P : Conn → Prop) (list : List NgSession) : Prop := ∀ s ∈ list, s.Tcp P

section Handlers
variable {env : Env} {args : Arguments} {p : Packet} {version : IpVersion} {payload : Nat}
  {uid : Int} {allowed : Bool} {h : IpHdr} {ctx ctx' : Context} {P : Conn → Prop}

theorem Later.tcp (hP : TcpInvariant args P) {s t : NgSession} (h : Later args t s)
    (hs : s.Tcp P) : t.Tcp P := by
  refine Run.chain_invariant (P := NgSession.Tcp P) ?_ h hs
  rintro x y ⟨os, htouched⟩ hx
  cases htouched with
  | icmp => trivial
  | udp => trivial
  | tcp cur sock events env e => exact hP.handled env e rfl hx

theorem AllTcp.replace {before rest : List NgSession} {s t : NgSession}
    (hall : AllTcp P (before ++ s :: rest)) (ht : t.Tcp P) : AllTcp P (before ++ t :: rest) := by
  intro a ha
  rcases List.mem_append.mp ha with ha | ha
  · exact hall a (List.mem_append_left _ ha)
  · rcases List.mem_cons.mp ha with rfl | ha
    · exact ht
    · exact hall a (List.mem_append_right _ (List.mem_cons_of_mem _ ha))

theorem AllTcp.cons {list : List NgSession} {t : NgSession} (hall : AllTcp P list)
    (ht : t.Tcp P) : AllTcp P (t :: list) := by
  intro a ha
  rcases List.mem_cons.mp ha with rfl | ha
  · exact ht
  · exact hall a ha

theorem TcpHandled.tcp (hP : TcpInvariant args P)
    (hhandled : TcpHandled env args p version payload uid allowed ctx ctx')
    (hall : AllTcp P ctx.ngSession) : AllTcp P ctx'.ngSession := by
  cases hhandled with
  | urgent => exact hall
  | @found before rest s sock events c hurg hlist hflow hc =>
    rw [hlist] at hall
    have hs : NgSession.Tcp P (.tcp s sock events) := hall _ (by simp)
    have hsegment := hP.handled (env.after ctx.out)
      (.segment (p.tcphdr payload) (p.payloadFrom (p.tcpData payload)) uid allowed) rfl hs
    simp only [TcpEvent.handle, hurg, Bool.false_eq_true, if_false, ← hc] at hsegment
    exact hall.replace hsegment
  | endless => exact hall
  | @syn mss ws opened out hurg hnone hsyn hoptions hopened =>
    cases opened with
    | none => exact hall
    | some c =>
      have hopens : Syn.Opens args ⟨p.flow payload version, p.tcphdr payload,
          p.payloadFrom (p.tcpData payload), mss, ws, uid, allowed⟩ c :=
        ⟨env.after ctx.out, out, hopened⟩
      exact hall.cons (hP.opened hopens)
  | unknown => exact hall

theorem UdpHandled.tcp (hhandled : UdpHandled env args p version payload uid ctx ctx')
    (hall : AllTcp P ctx.ngSession) : AllTcp P ctx'.ngSession := by
  cases hhandled with
  | ignored => exact hall
  | found hlist =>
    rw [hlist] at hall
    exact hall.replace trivial
  | refused => exact hall
  | opened => exact hall.cons trivial

theorem IcmpHandled.tcp (hhandled : IcmpHandled env args p version payload uid ctx ctx')
    (hall : AllTcp P ctx.ngSession) : AllTcp P ctx'.ngSession := by
  cases hhandled with
  | ignored => exact hall
  | found hecho hlist =>
    rw [hlist] at hall
    exact hall.replace trivial
  | refused => exact hall
  | opened => exact hall.cons trivial

theorem handlePacket_tcp (hP : TcpInvariant args P) (hall : AllTcp P ctx.ngSession) :
    AllTcp P (handlePacket env args p h ctx).ngSession := by
  have hjudged : AllTcp P (judgePacket env p h ctx).2.2.2.ngSession := by
    rwa [(judgePacket_asks env p h ctx).ngSession]
  have hhandled : PacketHandled env args p h _ _ _ (handlePacket env args p h ctx) :=
    handlePacket_handled
  generalize handlePacket env args p h ctx = ctx' at hhandled
  cases hhandled with
  | icmp hthrough hicmp hhandled => exact hhandled.tcp hjudged
  | udp hthrough hudp hhandled => exact hhandled.tcp hjudged
  | tcp htcp hhandled => exact hhandled.tcp hP hjudged
  | blocked => exact hjudged.cons trivial
  | other => exact hjudged

end Handlers

section Loop
variable {P : Conn → Prop}

theorem EventLoop.step_tcp (l : EventLoop) (e : Env × LoopEvent)
    (hP : TcpInvariant (l.step e).args P) (hall : AllTcp P l.ngSession) :
    AllTcp P (l.step e).ngSession := by
  by_cases htun : ∃ p, e.2 = .tun p
  · obtain ⟨env, event⟩ := e
    obtain ⟨p, rfl⟩ := htun
    apply handleIp_sessions (P := AllTcp P) hall
    intro h hjudged
    exact handlePacket_tcp hP hall
  · exact Table.forall_later (fun _ _ => Later.tcp hP) (l.step_later e (not_exists.mp htun)) hall

theorem Conn.Reachable.invariant_tcp (args : Arguments) :
    TcpInvariant args (fun c => ∃ past, Conn.Reachable { c with out := past }) where
  opened {syn c} hopens := ⟨c.out, .opened hopens⟩
  handled := by
    rintro c env e hout ⟨past, hreachable⟩
    obtain ⟨s, sock, events, out⟩ := c
    obtain rfl : out = [] := hout
    exact ⟨_, hreachable.step args (env, e)⟩

/-- Every TCP entry the loop ever has is a reachable session. -/
theorem EventLoop.tcp_reachable (args : Arguments) (es : List (Env × LoopEvent)) :
    AllTcp (fun c => ∃ past, Conn.Reachable { c with out := past })
      ((EventLoop.init args).run es).ngSession := by
  have hinit : AllTcp (fun c => ∃ past, Conn.Reachable { c with out := past })
      (EventLoop.init args).ngSession := fun s hs => absurd hs List.not_mem_nil
  refine Run.invariant (P := fun l : EventLoop => AllTcp _ l.ngSession) ?_ es hinit
  intro l e hall
  exact l.step_tcp e (Conn.Reachable.invariant_tcp _) hall

end Loop

section Settings
variable {args : Arguments}

/-- A TCP entry that is a run of a session from its SYN on. -/
def NgSession.IsRun (args : Arguments) : NgSession → Prop
  | .tcp s sock events => ∃ syn c es, Syn.Opens args syn c ∧
      (c.run args es).tcp = s ∧ (c.run args es).socket = sock ∧ (c.run args es).events = events
  | _ => True

def Runs (args : Arguments) (list : List NgSession) : Prop := ∀ s ∈ list, s.IsRun args

theorem NgSession.isRun_invariant (args : Arguments) :
    TcpInvariant args (fun c => c.entry.IsRun args) where
  opened {syn c} hopens := ⟨syn, c, [], hopens, rfl, rfl, rfl⟩
  handled := by
    rintro ⟨cur, sock, events, out⟩ env e hout ⟨syn, c, es, hopens, htcp, hsock, hevents⟩
    obtain rfl : out = [] := hout
    have hnow : { c.run args es with out := [] } = (⟨cur, sock, events, []⟩ : Conn) := by
      simp only [htcp, hsock, hevents]
    have hstep : c.run args (es ++ [(env, e)]) = (c.run args es).step args (env, e) := by
      simp [Conn.run, List.foldl_append]
    refine ⟨syn, c, es ++ [(env, e)], hopens, ?_, ?_, ?_⟩
    all_goals
      rw [hstep]
      simp only [Conn.step, hnow]

theorem runs_iff {list : List NgSession} :
    Runs args list ↔ AllTcp (fun c => c.entry.IsRun args) list := by
  have hentry (s : NgSession) : s.IsRun args ↔ s.Tcp (fun c => c.entry.IsRun args) := by
    cases s <;> rfl
  exact forall₂_congr fun s _ => hentry s

def EventLoop.SameSettings (l : EventLoop) (e : Env × LoopEvent) : Prop :=
  ∀ args soft, e.2 = .start args soft → args = l.args

theorem EventLoop.step_args (l : EventLoop) (e : Env × LoopEvent) (hsame : l.SameSettings e) :
    (l.step e).args = l.args := by
  obtain ⟨env, event⟩ := e
  simp only [EventLoop.step]
  cases event with
  | start args soft => exact hsame args soft rfl
  | head =>
    simp only [LoopEvent.handle, EventLoop.head]
    split <;> rfl
  | tun p => rfl
  | socket i ev =>
    simp only [LoopEvent.handle, EventLoop.socket]
    split <;> rfl
  | clear => rfl

/-- Every TCP entry the loop ever has is a run of a session from its SYN on. -/
theorem EventLoop.tcp_isRun (args : Arguments) {es : List (Env × LoopEvent)}
    (hrun : Run.Along EventLoop.step EventLoop.SameSettings (.init args) es) :
    Runs args ((EventLoop.init args).run es).ngSession := by
  have hinit : (EventLoop.init args).args = args ∧ Runs args (EventLoop.init args).ngSession :=
    ⟨rfl, fun s hs => absurd hs List.not_mem_nil⟩
  refine (hrun.invariant (P := fun l => l.args = args ∧ Runs args l.ngSession) ?_ hinit).2
  rintro l e hsame ⟨rfl, hruns⟩
  have hargs := l.step_args e hsame
  refine ⟨hargs, runs_iff.mpr (l.step_tcp e ?_ (runs_iff.mp hruns))⟩
  rw [hargs]
  exact NgSession.isRun_invariant l.args

end Settings

end NetGuard.Engine
