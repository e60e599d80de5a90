import NetGuard.Loop.Creators
import NetGuard.Tun.Receiver

/-! # Sizes in the event loop

The addresses of a session are as long as its version says, from the packet that creates it on,
and what is written to the tun is built from such sessions. A UDP session reads no more than an
IP packet takes.
-/
namespace NetGuard.Engine
open Relation (ReflTransGen)

section Fit

def SessionKey.ends : SessionKey → Endpoints
  | .icmp ends => ends
  | .udp flow | .tcp flow => flow.toEndpoints

theorem TunPacket.ends_key (packet : TunPacket) : packet.key.ends = packet.ends := by
  cases packet <;> rfl

/-- The longest datagram behind the IP and UDP headers. -/
def maxDatagram : IpVersion → Nat
  | .v4 => 65535 - 20 - 8
  | .v6 => 65535 - 40 - 8

def NgSession.MssFits : NgSession → Prop
  | .udp s _ => s.mss.toNat ≤ maxDatagram s.version
  | _ => True

structure NgSession.Fit (s : NgSession) : Prop where
  sized : s.key.ends.Sized
  mss : s.MssFits
  dialing : s.Tcp Conn.Dialing

def Output.Sized : Output → Prop
  | .tun packet _ => packet.ends.Sized
  | _ => True

theorem Output.For.sized {key : SessionKey} {o : Output} (h : o.For key) (hkey : key.ends.Sized) :
    o.Sized := by
  cases o with
  | tun packet written =>
    have hsame : packet.key = key := h
    rw [Output.Sized, ← TunPacket.ends_key, hsame]
    exact hkey
  | _ => trivial

/-- The list and what was written so far. -/
structure Sizes (list : List NgSession) (out : Trace) : Prop where
  list : ∀ s ∈ list, s.Fit
  out : ∀ o ∈ out, o.Sized

variable {list : List NgSession} {out os : Trace}

theorem Sizes.wrote (h : Sizes list out) (hos : ∀ o ∈ os, o.Sized) : Sizes list (out ++ os) :=
  ⟨h.list, fun o ho => (List.mem_append.mp ho).elim (h.out o) (hos o)⟩

theorem Sizes.cons (h : Sizes list out) {t : NgSession} (ht : t.Fit) : Sizes (t :: list) out :=
  ⟨List.forall_mem_cons.mpr ⟨ht, h.list⟩, h.out⟩

theorem Sizes.replace {before rest : List NgSession} {s t : NgSession}
    (h : Sizes (before ++ s :: rest) out) (ht : t.Fit) : Sizes (before ++ t :: rest) out := by
  refine ⟨?_, h.out⟩
  intro a ha
  have hlist := h.list a
  rw [List.mem_append, List.mem_cons] at ha hlist
  rcases ha with ha | rfl | ha
  · exact hlist (.inl ha)
  · exact ht
  · exact hlist (.inr (.inr ha))

end Fit

section Calls
variable {args : Arguments} {s t : NgSession} {os out : Trace}

theorem DatagramMoves.mss {d d' : Datagram} (h : DatagramMoves d d') : d'.udp.mss = d.udp.mss := by
  refine Run.chain_invariant (P := fun x : Datagram => x.udp.mss = d.udp.mss) ?_ h rfl
  intro x y hmove hx
  cases hmove <;> exact hx

theorem DatagramMoves.mssFits {d d' : Datagram} (h : DatagramMoves d d')
    (hd : d.udp.mss.toNat ≤ maxDatagram d.udp.version) :
    d'.udp.mss.toNat ≤ maxDatagram d'.udp.version := by
  rwa [h.mss, h.toFlow]

theorem Touched.fit (h : Touched args s os t) (hs : s.Fit) : t.Fit ∧ ∀ o ∈ os, o.Sized := by
  obtain ⟨hkey, hout, hdialing⟩ := h.for hs.dialing
  refine ⟨⟨hkey ▸ hs.sized, ?_, hdialing⟩, fun o ho => (hout o ho).sized hs.sized⟩
  cases h with
  | icmp => trivial
  | udp hmoves => exact hmoves.mssFits hs.mss
  | tcp => trivial

theorem Swept.fit {r : Option NgSession × Trace} (h : Swept args s out r) (hs : s.Fit) :
    (∀ t ∈ r.1, t.Fit) ∧ ∃ os, r.2 = out ++ os ∧ ∀ o ∈ os, o.Sized := by
  obtain ⟨-, os, hout, hos⟩ := h.for hs.dialing
  refine ⟨?_, os, hout, fun o ho => (hos o ho).sized hs.sized⟩
  cases h with
  | untouched =>
    rintro _ ⟨⟩
    exact hs
  | kept htouched =>
    rintro _ ⟨⟩
    exact (htouched.fit hs).1
  | dropped => simp
  | cleared => simp [clearEntry_eq]

theorem sweep_sizes (args : Arguments) {f : NgSession → Trace → Option NgSession × Trace}
    (hf : ∀ s out, Swept args s out (f s out)) {list : List NgSession} (h : Sizes list out) :
    Sizes (Table.sweep f list out).1 (Table.sweep f list out).2 := by
  refine Table.sweep_invariant (I := Sizes) ?_ [] list out h
  intro before s rest out hsizes
  obtain ⟨hkept, os, hout, hos⟩ := (hf s out).fit (hsizes.list s (by simp))
  rw [hout]
  apply Sizes.wrote _ hos
  cases hs : (f s out).1 with
  | none =>
    refine ⟨?_, hsizes.out⟩
    intro a ha
    apply hsizes.list a
    rw [List.mem_append, List.mem_cons]
    exact (List.mem_append.mp ha).imp_right .inr
  | some t => exact hsizes.replace (hkept t hs)

end Calls

section Handlers
variable {env : Env} {args : Arguments} {p : Packet} {h : IpHdr} {uid : Int} {allowed : Bool}
  {ctx ctx' : Context}

theorem IpHdr.key_sized (h : IpHdr) (p : Packet) : (h.key p).ends.Sized := by
  rw [IpHdr.key]
  split
  · exact p.flow_sized h.version h.payload
  · split
    · exact p.flow_sized h.version h.payload
    · exact p.flow_sized h.version h.payload

/-- Each entry is labelled with its own key. -/
theorem Sizes.createdBy {list : List NgSession} {out : Trace} (hsizes : Sizes list out) :
    CreatedBy list (list.map NgSession.key) := by
  rw [CreatedBy, List.forall₂_map_right_iff, List.forall₂_same]
  exact fun s hs => ⟨rfl, (hsizes.list s hs).dialing⟩

/-- A handler that writes for its packet and touches no UDP entry. -/
theorem Files.sizes {key : SessionKey} (hkey : key.ends.Sized)
    (hsizes : Sizes ctx.ngSession ctx.out)
    (hfiles : Files key (ctx.ngSession.map NgSession.key) ctx ctx')
    (hmss : ∀ s ∈ ctx'.ngSession, s.MssFits) : Sizes ctx'.ngSession ctx'.out := by
  obtain ⟨hcreated, os, hout, hos⟩ := hfiles
  rw [hout]
  apply Sizes.wrote _ fun o ho => (hos o ho).sized hkey
  refine ⟨?_, hsizes.out⟩
  intro s hs
  have hold (hmem : s.key ∈ ctx.ngSession.map NgSession.key) : s.key.ends.Sized := by
    obtain ⟨a, ha, hsame⟩ := List.mem_map.mp hmem
    exact hsame ▸ (hsizes.list a ha).sized
  rcases hcreated with ⟨-, hcreated⟩ | ⟨-, hcreated⟩
  · exact ⟨hold (hcreated.key_mem hs), hmss s hs, hcreated.dialing s hs⟩
  · refine ⟨?_, hmss s hs, hcreated.dialing s hs⟩
    rcases List.mem_cons.mp (hcreated.key_mem hs) with hnew | hmem
    · exact hnew ▸ hkey
    · exact hold hmem

theorem mssFits_replace {before rest : List NgSession} {s t : NgSession}
    (hall : ∀ a ∈ before ++ s :: rest, a.MssFits) (ht : t.MssFits) :
    ∀ a ∈ before ++ t :: rest, a.MssFits := by
  intro a ha
  have hold := hall a
  rw [List.mem_append, List.mem_cons] at ha hold
  rcases ha with ha | rfl | ha
  · exact hold (.inl ha)
  · exact ht
  · exact hold (.inr (.inr ha))

theorem IcmpHandled.sizes (hhandled : IcmpHandled env args p h.version h.payload uid ctx ctx')
    (hicmp : h.isIcmp = true) (hsizes : Sizes ctx.ngSession ctx.out) :
    Sizes ctx'.ngSession ctx'.out := by
  have hmss : ∀ s ∈ ctx.ngSession, s.MssFits := fun s hs => (hsizes.list s hs).mss
  refine Files.sizes (h.key_sized p) hsizes (hhandled.files hicmp hsizes.createdBy) ?_
  cases hhandled with
  | ignored => exact hmss
  | found hecho hlist =>
    rw [hlist] at hmss
    exact mssFits_replace hmss trivial
  | refused => exact hmss
  | opened => exact List.forall_mem_cons.mpr ⟨trivial, hmss⟩

theorem TcpHandled.sizes
    (hhandled : TcpHandled env args p h.version h.payload uid allowed ctx ctx')
    (htcp : h.protocol = ipprotoTcp) (hsizes : Sizes ctx.ngSession ctx.out) :
    Sizes ctx'.ngSession ctx'.out := by
  have hmss : ∀ s ∈ ctx.ngSession, s.MssFits := fun s hs => (hsizes.list s hs).mss
  refine Files.sizes (h.key_sized p) hsizes (hhandled.files htcp hsizes.createdBy) ?_
  cases hhandled with
  | urgent => exact hmss
  | found hurg hlist =>
    rw [hlist] at hmss
    exact mssFits_replace hmss trivial
  | endless => exact hmss
  | @syn mss ws opened =>
    cases opened with
    | none => exact hmss
    | some c => exact List.forall_mem_cons.mpr ⟨trivial, hmss⟩
  | unknown => exact hmss

/-- The address of the DHCP server is as long as the part of the address it overwrites. -/
theorem Flow.answered_sized (flow : Flow) (hflow : flow.toEndpoints.Sized) :
    flow.answered.toEndpoints.Sized := by
  refine ⟨?_, hflow.daddr⟩
  have hlong : 4 ≤ flow.saddr.length := by
    rw [hflow.saddr]
    split <;> decide
  calc (dhcpServer ++ flow.saddr.drop 4).length = flow.saddr.length := by
        rw [List.length_append, List.length_drop]
        exact Nat.add_sub_cancel' hlong
    _ = if flow.version = .v4 then 4 else 16 := hflow.saddr

theorem Forwarded.fit {flow : Flow} {data : List UInt8} {d d' : Datagram}
    (hforwarded : Forwarded flow data d d') (hd : NgSession.Fit (.udp d.udp d.socket))
    (hout : ∀ o ∈ d.out, o.Sized) :
    NgSession.Fit (.udp d'.udp d'.socket) ∧ ∀ o ∈ d'.out, o.Sized := by
  cases hforwarded with
  | answered hanswers written =>
    have hsized := Flow.answered_sized d.udp.toFlow hd.sized
    refine ⟨⟨hsized, hd.mss, trivial⟩, ?_⟩
    intro o ho
    rcases List.mem_append.mp ho with ho | ho
    · exact hout o ho
    · rw [List.mem_singleton.mp ho]
      exact hsized
  | ignored => exact ⟨hd, hout⟩
  | sent htakes hmoves ok hsent =>
    have hflow := hmoves.toFlow
    refine ⟨⟨?_, hmoves.mssFits hd.mss, trivial⟩, ?_⟩
    · rw [NgSession.key, hflow]
      exact hd.sized
    · rw [hsent]
      intro o ho
      rcases List.mem_append.mp ho with ho | ho
      · exact hout o ho
      · rw [List.mem_singleton.mp ho]
        trivial

theorem udpSession_mssFits (flow : Flow) (uid : Int) (out : Trace) (sock : Int) :
    NgSession.MssFits (.udp (udpSession env flow uid out) sock) := by
  simp only [NgSession.MssFits, udpSession]
  cases flow.version <;> decide

theorem UdpHandled.sizes (hhandled : UdpHandled env args p h.version h.payload uid ctx ctx')
    (hsizes : Sizes ctx.ngSession ctx.out) : Sizes ctx'.ngSession ctx'.out := by
  have hsent (d : Datagram) := (forwardDatagram_forwarded (env.after ctx.out)
    (p.flow h.payload h.version) (p.udpData h.payload) d).fit
  have hopening : ∀ o ∈ (openUdpSocket (env.after ctx.out) args []).2, o.Sized := fun o ho =>
    (openUdpSocket_for (.udp (p.flow h.payload h.version)) _ _ o ho).sized
      (p.flow_sized h.version h.payload)
  cases hhandled with
  | ignored => exact hsizes
  | @found before rest s s' sock d hlist hflow hstate hs' hd hfirst =>
    have hs : NgSession.Fit (.udp s sock) := hsizes.list _ (by simp [hlist])
    have hnow : NgSession.Fit (.udp s' sock) := by
      rw [hs']
      split
      · exact ⟨hs.sized, hs.mss, trivial⟩
      · exact hs
    obtain ⟨hfit, hout⟩ := hsent ⟨s', sock, []⟩ hnow (by simp)
    rw [← hd] at hfit hout
    rw [hlist] at hsizes
    exact (hsizes.replace hfit).wrote hout
  | refused hnone hopened =>
    obtain ⟨-, rfl⟩ := newUdpSession_none hopened
    exact hsizes.wrote hopening
  | @opened d₀ d out hnone hopened hd =>
    obtain ⟨hsock, hd₀⟩ := newUdpSession_some hopened
    have hnew : NgSession.Fit (.udp d₀.udp d₀.socket) := by
      rw [hd₀]
      exact ⟨p.flow_sized h.version h.payload, udpSession_mssFits .., trivial⟩
    have hwatched : ∀ o ∈ d₀.out, o.Sized := by
      rw [hd₀]
      intro o ho
      rcases List.mem_append.mp ho with ho | ho
      · exact hopening o ho
      · rw [List.mem_singleton.mp ho]
        trivial
    obtain ⟨hfit, hout⟩ := hsent d₀ hnew hwatched
    rw [← hd] at hfit hout
    exact (hsizes.cons hfit).wrote hout

theorem Context.Asks.sizes (hasks : ctx.Asks ctx') (hsizes : Sizes ctx.ngSession ctx.out) :
    Sizes ctx'.ngSession ctx'.out := by
  obtain ⟨us, rfl, hus⟩ := hasks
  apply hsizes.wrote
  intro o ho
  have hupcall := hus o ho
  cases o with
  | tun packet written => exact absurd hupcall Bool.false_ne_true
  | _ => trivial

theorem handlePacket_sizes (hsizes : Sizes ctx.ngSession ctx.out) :
    Sizes (handlePacket env args p h ctx).ngSession (handlePacket env args p h ctx).out := by
  have hjudged := (judgePacket_asks env p h ctx).sizes hsizes
  have hhandled : PacketHandled env args p h _ _ _ (handlePacket env args p h ctx) :=
    handlePacket_handled
  generalize handlePacket env args p h ctx = ctx' at hhandled
  cases hhandled with
  | icmp hthrough hicmp hhandled => exact hhandled.sizes hicmp hjudged
  | udp hthrough hudp hhandled => exact hhandled.sizes hjudged
  | tcp htcp hhandled => exact hhandled.sizes htcp hjudged
  | blocked => exact hjudged.cons ⟨p.flow_sized h.version h.payload, Nat.zero_le _, trivial⟩
  | other => exact hjudged

theorem handleIp_sizes {sessions maxsessions : Int} (hsizes : Sizes ctx.ngSession ctx.out) :
    Sizes (handleIp env args p sessions maxsessions ctx).ngSession
      (handleIp env args p sessions maxsessions ctx).out := by
  have hhandled : IpHandled env args p sessions maxsessions ctx _ := handleIp_handled
  generalize handleIp env args p sessions maxsessions ctx = ctx' at hhandled
  cases hhandled with
  | dropped => exact hsizes
  | endless => exact hsizes.wrote (by simp [Output.Sized])
  | handled hjudged hlogged => exact hlogged.sizes (handlePacket_sizes hsizes)

end Handlers

section Loop

theorem EventLoop.step_sizes (l : EventLoop) (e : Env × LoopEvent)
    (hsizes : Sizes l.ngSession l.out) : Sizes (l.step e).ngSession (l.step e).out := by
  obtain ⟨env, event⟩ := e
  have hnow : Sizes l.ngSession [] := ⟨hsizes.list, by simp⟩
  have hstep : Sizes (LoopEvent.handle env event { l with out := [] }).ngSession
      (LoopEvent.handle env event { l with out := [] }).out := by
    cases event with
    | start args soft => exact sweep_sizes args (checkAllowedEntry_swept env args) hnow
    | head =>
      have hmonitored := sweep_sizes l.args (monitorEntry_swept env l.args) hnow
      simp only [LoopEvent.handle, EventLoop.head]
      split
      · exact sweep_sizes l.args (fun s out => checkEntry_swept env l.args s out _ _) hmonitored
      · exact hmonitored
    | tun p => exact handleIp_sizes hnow
    | socket i ev =>
      simp only [LoopEvent.handle, EventLoop.socket]
      split
      next before s rest heq =>
        have hlist := Table.eq_append_of_splitAt heq
        have hs : s.Fit := hnow.list s (hlist ▸ List.mem_append_right _ List.mem_cons_self)
        obtain ⟨hfit, hout⟩ := (checkSocket_touched (env.after []) l.args s ev).fit hs
        rw [hlist] at hnow
        exact (hnow.replace hfit).wrote hout
      next => exact hnow
    | clear => exact sweep_sizes l.args (fun _ _ => .cleared) hnow
  refine ⟨hstep.list, ?_⟩
  intro o ho
  rcases List.mem_append.mp ho with ho | ho
  · exact hsizes.out o ho
  · exact hstep.out o ho

/-- In every run the sessions fit, and what was written to the tun was built from such. -/
theorem EventLoop.run_sizes (args : Arguments) (es : List (Env × LoopEvent)) :
    Sizes ((EventLoop.init args).run es).ngSession ((EventLoop.init args).run es).out :=
  Run.invariant (P := fun l : EventLoop => Sizes l.ngSession l.out)
    (fun l e h => l.step_sizes e h) es ⟨by simp [EventLoop.init], by simp [EventLoop.init]⟩

end Loop

end NetGuard.Engine
