import NetGuard.Loop.Calls

/-! # Descriptors are used while they are open

The descriptors that were obtained and not closed suffice for the socket fields of all
entries. Each call of an entry is on its socket field, and so on an open descriptor.
-/
namespace NetGuard.Engine
open Relation (ReflTransGen)

section Covered
open Run (Timed)

/-- Every call of the trace is on a descriptor that is open at that point. -/
def Trace.UsesOpen (out : Trace) : Prop :=
  Timed (fun pre o => ∀ n ≥ 0, o.target = some n → Trace.IsOpen n pre) out

/-- The descriptors that were obtained and not closed suffice for the socket field and for
`k n` more holders of each descriptor `n`. -/
structure Covers (k : Int → Nat) (s : Int × Trace) : Prop where
  counted : ∀ n ≥ 0, s.2.countP (Output.releases n) + (k n + if s.1 = n then 1 else 0) ≤
    s.2.countP (Output.acquires n)
  uses : s.2.UsesOpen

variable {k : Int → Nat} {s t : Int × Trace} {sock : Int} {out : Trace}

theorem Covers.isOpen (h : Covers k (sock, out)) (hsock : 0 ≤ sock) : Trace.IsOpen sock out := by
  have hcounted := h.counted sock hsock
  simp only [if_true] at hcounted
  unfold Trace.IsOpen
  omega

theorem SocketCall.covers (h : SocketCall s t) (hs : Covers k s) : Covers k t := by
  cases h with
  | @on sock out o ho =>
    refine ⟨?_, hs.uses.snoc ?_⟩
    · intro n hn
      obtain ⟨hacquires, hreleases⟩ := ho.idle n hn
      simpa [List.countP_append, hacquires, hreleases] using hs.counted n hn
    · intro n hn htarget
      obtain rfl := ho.target n htarget
      exact hs.isOpen hn
  | close sock out =>
    refine ⟨?_, hs.uses.snoc ?_⟩
    · intro n hn
      have hcounted := hs.counted n hn
      have hne : ¬ (-1 : Int) = n := by omega
      simp only [List.countP_append, List.countP_singleton, Output.releases, Output.acquires,
        decide_eq_true_eq, hne, if_false, Bool.false_eq_true] at hcounted ⊢
      omega
    · intro n hn htarget
      obtain rfl : sock = n := by simpa [Output.target] using htarget
      exact hs.isOpen hn

theorem SocketCalls.covers (h : SocketCalls s t) (hs : Covers k s) : Covers k t :=
  Run.chain_invariant (P := Covers k) (fun _ _ => SocketCall.covers) h hs

theorem Covers.mono {k' : Int → Nat} {sock' : Int} (h : Covers k (sock, out))
    (hle : ∀ n ≥ 0, k' n + (if sock' = n then 1 else 0) ≤ k n + if sock = n then 1 else 0) :
    Covers k' (sock', out) := by
  refine ⟨fun n hn => ?_, h.uses⟩
  have hcounted := h.counted n hn
  have hless := hle n hn
  dsimp only at hcounted ⊢
  omega

theorem Covers.obtain (h : Covers k (-1, out)) (sock : Int) :
    Covers k (sock, out ++ [.socket sock]) := by
  refine ⟨?_, h.uses.snoc (by simp [Output.target])⟩
  intro n hn
  have hcounted := h.counted n hn
  have hne : ¬ (-1 : Int) = n := by omega
  simp only [List.countP_append, List.countP_singleton, Output.releases, Output.acquires,
    decide_eq_true_eq, hne, if_false, Bool.false_eq_true] at hcounted ⊢
  omega

variable {list before rest : List NgSession} {a : NgSession} {os past : Trace}

/-- What the entries hold is open. -/
def Sheltered (list : List NgSession) (out : Trace) : Prop :=
  Covers (fun n => holders n list) (-1, out)

theorem sheltered_middle :
    Sheltered (before ++ a :: rest) out ↔
      Covers (fun n => holders n (before ++ rest)) (a.descriptor, out) := by
  have hholders (n : Int) : holders n (before ++ a :: rest) =
      holders n (before ++ rest) + if a.descriptor = n then 1 else 0 := by
    simp only [holders, List.countP_append, List.countP_cons, decide_eq_true_eq]
    omega
  constructor <;> intro h <;> refine h.mono fun n hn => ?_ <;>
    simp only [hholders, show ¬ (-1 : Int) = n by omega, if_false] <;> omega

theorem Sheltered.asides (h : Sheltered list out) (hos : ∀ o ∈ os, o.On (-1)) :
    Sheltered list (out ++ os) := (SocketCalls.asides hos).covers h

theorem Sheltered.pass {r : Option NgSession × Trace} (h : Sheltered (before ++ a :: rest) out)
    (hr : a.Drives out r) : Sheltered (before ++ (r.1.toList ++ rest)) r.2 := by
  obtain ⟨sock, hcalls, hkept⟩ := hr
  have hcovers := hcalls.covers (sheltered_middle.mp h)
  obtain ⟨_ | t, out'⟩ := r
  · refine hcovers.mono fun n hn => ?_
    simp only [Option.toList_none, List.nil_append]
    split <;> split <;> omega
  · obtain rfl := hkept t rfl
    exact sheltered_middle.mpr hcovers

theorem Sheltered.replace {t : NgSession} {out' : Trace} (h : Sheltered (before ++ a :: rest) out)
    (hcalls : SocketCalls (a.descriptor, out) (t.descriptor, out')) :
    Sheltered (before ++ t :: rest) out' :=
  h.pass (NgSession.drives_kept hcalls)

theorem Sheltered.replaceHead {t : NgSession} {out' : Trace} (h : Sheltered (a :: list) out)
    (hcalls : SocketCalls (a.descriptor, out) (t.descriptor, out')) : Sheltered (t :: list) out' := by
  have hlisted : Sheltered ([] ++ a :: list) out := h
  exact hlisted.replace hcalls

theorem Sheltered.sweep {f : NgSession → Trace → Option NgSession × Trace}
    (hf : ∀ (s : NgSession) out, s.Drives out (f s out)) (h : Sheltered list (past ++ out)) :
    Sheltered (Table.sweep f list out).1 (past ++ (Table.sweep f list out).2) := by
  refine Table.sweep_invariant (I := fun list out => Sheltered list (past ++ out)) ?_ [] list out h
  intro before s rest out hlist
  obtain ⟨sock, hcalls, hkept⟩ := hf s out
  exact hlist.pass (r := ((f s out).1, past ++ (f s out).2)) ⟨sock, hcalls.after past, hkept⟩

/-- A new entry with the descriptor that a chain of calls from `socket()` on leaves it. -/
theorem Sheltered.opened (h : Sheltered list out) {fd : Int}
    (hcalls : SocketCalls (fd, out ++ [.socket fd]) (sock, out ++ os)) (ha : a.descriptor = sock) :
    Sheltered (a :: list) (out ++ os) := by
  have hcovers : Covers _ (sock, out ++ os) := hcalls.covers (Covers.obtain h fd)
  rw [← ha] at hcovers
  have hlisted : Sheltered ([] ++ a :: list) (out ++ os) := sheltered_middle.mpr hcovers
  exact hlisted

end Covered

section Openers
variable {env : Env} {args : Arguments} {list : List NgSession} {past out : Trace}

/-- The calls of an opener are on the descriptor that `socket()` gave. -/
def Env.Opens (env : Env) (r : Int × Trace) : Prop :=
  ∃ os, r.2 = .socket (env.socket []) :: os ∧ (∀ o ∈ os, o.On (env.socket [])) ∧
    (r.1 = env.socket [] ∨ r.1 < 0)

theorem openUdpSocket_opens (env : Env) (args : Arguments) :
    env.Opens (openUdpSocket env args []) := by
  rw [openUdpSocket_eq]
  split
  · exact ⟨[], rfl, by simp, .inr (Int.negSucc_lt_zero 0)⟩
  · exact ⟨[], rfl, by simp, .inl rfl⟩

theorem openTcpSocket_opens (env : Env) (args : Arguments) (cur : TcpSession) :
    env.Opens (openTcpSocket env args cur []) := by
  have hnonBlocking (ok : Bool) : (Output.nonBlocking (env.socket []) ok).On (env.socket []) :=
    Output.on_self rfl fun _ h => by cases h
  have hconnect (daddr : Address) (dest : UInt16) (ok : Bool) :
      (Output.connect (env.socket []) daddr dest ok).On (env.socket []) :=
    Output.on_self rfl fun _ h => by cases h
  have hfailed : (-1 : Int) < 0 := Int.negSucc_lt_zero 0
  simp only [openTcpSocket_eq, List.nil_append, List.cons_append]
  generalize env.nonBlocking _ = nonBlocking
  generalize env.connect _ = connected
  have hcalls : ∀ o ∈ [Output.nonBlocking (env.socket []) nonBlocking, if args.proxy
        then .connect (env.socket []) args.socks5Addr (UInt16.ofNat args.socks5Port.toNat) connected
        else .connect (env.socket []) cur.daddr cur.dest connected], o.On (env.socket []) := by
    split <;> simp [hnonBlocking, hconnect]
  split
  · exact ⟨[], rfl, by simp, .inr hfailed⟩
  split
  · exact ⟨[_], rfl, by simp [hnonBlocking], .inr hfailed⟩
  split
  · exact ⟨_, rfl, hcalls, .inr hfailed⟩
  · exact ⟨_, rfl, hcalls, .inl rfl⟩

variable {r : Int × Trace} {a : NgSession}

theorem Env.Opens.refuse (h : env.Opens r) (hlist : Sheltered list out) :
    Sheltered list (out ++ r.2) := by
  obtain ⟨os, hout, hos, -⟩ := h
  have hobtained : Covers _ (env.socket [], out ++ [.socket (env.socket [])]) := hlist.obtain _
  have hcovers := (SocketCalls.asides hos).covers hobtained
  rw [hout]
  refine Covers.mono (by simpa using hcovers) fun n hn => ?_
  simp only [show ¬ (-1 : Int) = n by omega, if_false]
  omega

theorem Env.Opens.open (h : env.Opens r) (hsock : 0 ≤ r.1) (hlist : Sheltered list out)
    (ha : a.descriptor = r.1) : Sheltered (a :: list) (out ++ r.2) := by
  obtain ⟨os, hout, hos, hr⟩ := h
  have hfd : r.1 = env.socket [] := hr.resolve_right (Int.not_lt.mpr hsock)
  have hcalls : SocketCalls (env.socket [], out ++ [.socket (env.socket [])])
      (env.socket [], out ++ [.socket (env.socket [])] ++ os) := SocketCalls.asides hos
  rw [List.append_assoc] at hcalls
  rw [hout]
  exact hlist.opened hcalls (ha.trans hfd)

end Openers

section Handlers
variable {env : Env} {args : Arguments} {p : Packet} {h : IpHdr} {version : IpVersion}
  {payload : Nat} {uid : Int} {ctx ctx' : Context} {past : Trace}

theorem IcmpHandled.sheltered (hhandled : IcmpHandled env args p version payload uid ctx ctx')
    (hctx : Sheltered ctx.ngSession (past ++ ctx.out)) :
    Sheltered ctx'.ngSession (past ++ ctx'.out) := by
  have hsent (e : Echo) : e.Drives (sendRequest (env.after ctx.out) (p.daddr version)
      (p.icmpMessage version payload) e) := sendRequest_drives _ _ e
  cases hhandled with
  | ignored => exact hctx
  | @found before rest s s' sock e hecho hlist hends hstop hs' he =>
    have hcalls := (hsent ⟨s', sock, []⟩).after (past ++ ctx.out)
    rw [← he, List.append_nil] at hcalls
    rw [hlist] at hctx
    rw [← List.append_assoc]
    exact hctx.replace (t := .icmp e.icmp e.socket) hcalls
  | @refused out hecho hnone hopened =>
    obtain ⟨-, rfl⟩ := newIcmpSession_none hopened
    rw [← List.append_assoc]
    exact (openUdpSocket_opens (env.after ctx.out) args).refuse hctx
  | @opened e₀ e out hecho hnone hopened he =>
    obtain ⟨hsock, he₀⟩ := newIcmpSession_some hopened
    have hopen : Sheltered (.icmp e₀.icmp e₀.socket :: ctx.ngSession) (past ++ ctx.out ++
        (openIcmpSocket (env.after ctx.out) args []).2) :=
      (openUdpSocket_opens (env.after ctx.out) args).open hsock hctx (by rw [he₀]; rfl)
    have hcalls : SocketCalls (e₀.socket, (openIcmpSocket (env.after ctx.out) args []).2)
        (e.socket, e.out) := by
      rw [he]
      refine ReflTransGen.trans (.single ?_) (hsent e₀)
      rw [he₀]
      exact .on _ (Output.on_self rfl fun _ h => by cases h)
    rw [← List.append_assoc]
    exact hopen.replaceHead (t := .icmp e.icmp e.socket) (hcalls.after (past ++ ctx.out))

theorem UdpHandled.sheltered (hhandled : UdpHandled env args p version payload uid ctx ctx')
    (hctx : Sheltered ctx.ngSession (past ++ ctx.out)) :
    Sheltered ctx'.ngSession (past ++ ctx'.out) := by
  have hsent (d : Datagram) : d.Drives (forwardDatagram (env.after ctx.out)
      (p.flow payload version) (p.udpData payload) d) := forwardDatagram_drives _ _ d
  cases hhandled with
  | ignored => exact hctx
  | @found before rest s s' sock d hlist hflow hstate hs' hd =>
    have hcalls := (hsent ⟨s', sock, []⟩).after (past ++ ctx.out)
    rw [← hd, List.append_nil] at hcalls
    rw [hlist] at hctx
    rw [← List.append_assoc]
    exact hctx.replace (t := .udp d.udp d.socket) hcalls
  | @refused out hnone hopened =>
    obtain ⟨-, rfl⟩ := newUdpSession_none hopened
    rw [← List.append_assoc]
    exact (openUdpSocket_opens (env.after ctx.out) args).refuse hctx
  | @opened d₀ d out hnone hopened hd =>
    obtain ⟨hsock, hd₀⟩ := newUdpSession_some hopened
    have hopen : Sheltered (.udp d₀.udp d₀.socket :: ctx.ngSession) (past ++ ctx.out ++
        (openUdpSocket (env.after ctx.out) args []).2) :=
      (openUdpSocket_opens (env.after ctx.out) args).open hsock hctx (by rw [hd₀]; rfl)
    have hcalls : SocketCalls (d₀.socket, (openUdpSocket (env.after ctx.out) args []).2)
        (d.socket, d.out) := by
      rw [hd]
      refine ReflTransGen.trans (.single ?_) (hsent d₀)
      rw [hd₀]
      exact .on _ (Output.on_self rfl fun _ h => by cases h)
    rw [← List.append_assoc]
    exact hopen.replaceHead (t := .udp d.udp d.socket) (hcalls.after (past ++ ctx.out))

theorem TcpHandled.sheltered {allowed : Bool}
    (hhandled : TcpHandled env args p version payload uid allowed ctx ctx')
    (hctx : Sheltered ctx.ngSession (past ++ ctx.out)) :
    Sheltered ctx'.ngSession (past ++ ctx'.out) := by
  cases hhandled with
  | urgent => exact hctx
  | @found before rest s sock events c hurg hlist hflow hc =>
    have hsegment : Conn.Drives ⟨s, sock, events, []⟩ c := hc ▸ handleSegment_drives _ _ _ _ _
    have hcalls := hsegment.after (past ++ ctx.out)
    rw [List.append_nil] at hcalls
    rw [hlist] at hctx
    rw [← List.append_assoc]
    exact hctx.replace (t := c.entry) hcalls
  | endless =>
    rw [Context.emit, ← List.append_assoc]
    refine hctx.asides ?_
    intro o ho
    obtain rfl := List.mem_singleton.mp ho
    exact ⟨by simp [Output.target], fun _ _ => ⟨rfl, rfl⟩⟩
  | @syn mss ws opened out hurg hnone hsyn hoptions hopened =>
    cases opened with
    | none =>
      obtain ⟨-, rfl⟩ := newTcpSession_none hopened
      rw [← List.append_assoc]
      exact (openTcpSocket_opens (env.after ctx.out) args _).refuse hctx
    | some c =>
      obtain ⟨hsock, window, ok, d, hd, hc, rfl⟩ := newTcpSession_some hopened
      have hopen : Sheltered (d.entry :: ctx.ngSession) (past ++ ctx.out ++ _) :=
        (openTcpSocket_opens (env.after ctx.out) args _).open hsock hctx (by rw [hd]; rfl)
      have hdriven : d.Drives c := by
        rw [hc]
        split
        · exact .refl d
        · exact writeRst_drives _ d
      have hcalls : SocketCalls (d.socket, (openTcpSocket (env.after ctx.out) args (synSession
          (env.after ctx.out) (p.flow payload version) (p.tcphdr payload)
          (p.payloadFrom (p.tcpData payload)) mss ws uid []) []).2) (c.socket, c.out) := by
        refine ReflTransGen.trans ?_ hdriven
        rw [hd]
        refine SocketCalls.asides ?_
        intro o ho
        rcases List.mem_cons.mp ho with rfl | ho
        · exact Output.on_self rfl fun _ h => by cases h
        · obtain rfl := List.mem_singleton.mp ho
          exact Output.on_self rfl fun _ h => by cases h
      rw [← List.append_assoc]
      exact hopen.replaceHead (t := c.entry) (hcalls.after (past ++ ctx.out))
  | unknown =>
    rw [← List.append_assoc, writeRst_eq]
    refine hctx.asides ?_
    simpa using Output.on_tun _ _ _

theorem Context.Asks.sheltered (hasks : ctx.Asks ctx')
    (hctx : Sheltered ctx.ngSession (past ++ ctx.out)) :
    Sheltered ctx'.ngSession (past ++ ctx'.out) := by
  obtain ⟨us, rfl, hus⟩ := hasks
  rw [← List.append_assoc]
  refine hctx.asides ?_
  intro o ho
  have hupcall := hus o ho
  cases o with
  | upcall u => exact Output.on_upcall _ u
  | _ => exact absurd hupcall Bool.false_ne_true

theorem handlePacket_sheltered (hctx : Sheltered ctx.ngSession (past ++ ctx.out)) :
    Sheltered (handlePacket env args p h ctx).ngSession
      (past ++ (handlePacket env args p h ctx).out) := by
  have hjudged := (judgePacket_asks env p h ctx).sheltered hctx
  have hhandled : PacketHandled env args p h _ _ _ (handlePacket env args p h ctx) :=
    handlePacket_handled
  generalize handlePacket env args p h ctx = ctx' at hhandled
  cases hhandled with
  | icmp hthrough hicmp hhandled => exact hhandled.sheltered hjudged
  | udp hthrough hudp hhandled => exact hhandled.sheltered hjudged
  | tcp htcp hhandled => exact hhandled.sheltered hjudged
  | blocked =>
    refine Covers.mono hjudged fun n hn => ?_
    simp [blockUdp, holders, NgSession.descriptor, show ¬ (-1 : Int) = n by omega]
  | other => exact hjudged

end Handlers

section Loop
open Run (Timed)

theorem EventLoop.step_sheltered (l : EventLoop) (e : Env × LoopEvent)
    (h : Sheltered l.ngSession l.out) : Sheltered (l.step e).ngSession (l.step e).out := by
  have hstart : Sheltered l.ngSession (l.out ++ []) := by simpa using h
  obtain ⟨env, event⟩ := e
  simp only [EventLoop.step]
  cases event with
  | start args soft => exact hstart.sweep fun _ _ => checkAllowedEntry_drives env args
  | head =>
    have hmonitored := hstart.sweep fun _ _ => monitorEntry_drives env
    simp only [LoopEvent.handle, EventLoop.head]
    split
    · exact hmonitored.sweep fun _ _ => checkEntry_drives env _ _
    · exact hmonitored
  | tun p =>
    have hhandled : IpHandled env l.args p l.sessions l.maxsessions ⟨l.ngSession, []⟩ _ :=
      handleIp_handled
    simp only [LoopEvent.handle, EventLoop.tun]
    generalize handleIp env l.args p l.sessions l.maxsessions ⟨l.ngSession, []⟩ = ctx' at hhandled
    cases hhandled with
    | dropped => exact hstart
    | endless =>
      refine h.asides ?_
      intro o ho
      obtain rfl := List.mem_singleton.mp ho
      exact ⟨by simp [Output.target], fun _ _ => ⟨rfl, rfl⟩⟩
    | @handled h ctx' hjudged hlogged =>
      have hctx : Sheltered (Context.mk l.ngSession []).ngSession
          (l.out ++ (Context.mk l.ngSession []).out) := hstart
      exact hlogged.sheltered (handlePacket_sheltered hctx)
  | socket i ev =>
    simp only [LoopEvent.handle, EventLoop.socket]
    split
    next before s rest heq =>
      rw [Table.eq_append_of_splitAt heq] at h
      have hcalls := (checkSocket_drives (env.after []) l.args ev).after (s := (s.descriptor, [])) l.out
      rw [List.append_nil] at hcalls
      exact h.replace hcalls
    next => exact hstart
  | clear => exact hstart.sweep fun _ _ => clearEntry_drives

theorem EventLoop.init_sheltered (args : Arguments) :
    Sheltered (EventLoop.init args).ngSession (EventLoop.init args).out := by
  refine ⟨fun n hn => ?_, Timed.of_forall (by simp [EventLoop.init])⟩
  simp [EventLoop.init, holders, show ¬ (-1 : Int) = n by omega]

/-- In every run every call is on a descriptor that is open at that point: obtained from
`socket()` more often than closed. Nothing is used after it was closed. -/
theorem EventLoop.uses_open (args : Arguments) (es : List (Env × LoopEvent)) :
    Timed (fun pre o => ∀ n ≥ 0, o.target = some n → Trace.IsOpen n pre)
      ((EventLoop.init args).run es).out := by
  exact (Run.invariant (P := fun l : EventLoop => Sheltered l.ngSession l.out)
    EventLoop.step_sheltered es (EventLoop.init_sheltered args)).uses

end Loop

end NetGuard.Engine
