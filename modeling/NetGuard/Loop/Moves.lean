import NetGuard.Engine.Handlers
import NetGuard.Library.Run

/-! # The moves of ICMP and UDP sessions

Every call on an ICMP or a UDP session is a chain of the moves below, as it is for TCP. Only
the answer to a DHCP request is none of them: it changes the address of its session.
-/
namespace NetGuard.Engine
open Relation (ReflTransGen)

/-- Calls that touch neither the tun nor a descriptor. -/
def Output.aside : Output → Bool
  | .recv _ _ | .sendto _ _ _ _ _ | .upcall _ => true
  | _ => false

section Icmp
variable {env : Env} {args : Arguments} {e : Echo}

def Echo.answer (e : Echo) (buffer : List UInt8) (written : Bool) : Echo :=
  (e.emit (.recv e.socket buffer)).emit (.tun (.icmp e.icmp
    (rewriteIcmp (replyChecksum e.icmp buffer.length) e.icmp.id buffer)) written)

inductive EchoMove : Echo → Echo → Prop
  | tidy (e : Echo) (uid time : Int) (stop : Bool) (hstop : e.icmp.stop = true → stop = true) :
      EchoMove e { e with icmp.uid := uid, icmp.time := time, icmp.stop := stop }
  | aside (e : Echo) (o : Output) (ho : o.aside = true) : EchoMove e (e.emit o)
  | answer (e : Echo) (buffer : List UInt8) (written : Bool) : EchoMove e (e.answer buffer written)
  | close (e : Echo) : EchoMove e { e.emit (.close e.socket) with socket := -1 }

abbrev EchoMoves : Echo → Echo → Prop := ReflTransGen EchoMove

theorem EchoMoves.ends {e' : Echo} (h : EchoMoves e e') :
    e'.icmp.toEndpoints = e.icmp.toEndpoints := by
  refine Run.chain_invariant (P := fun x : Echo => x.icmp.toEndpoints = e.icmp.toEndpoints) ?_ h rfl
  intro x y hmove hx
  cases hmove <;> exact hx

theorem EchoMoves.asides {os : List Output} (hos : ∀ o ∈ os, ∃ u, o = .upcall u) :
    EchoMoves e { e with out := e.out ++ os } := by
  induction os generalizing e with
  | nil => simpa using ReflTransGen.refl
  | cons o os ih =>
    obtain ⟨u, rfl⟩ := hos o List.mem_cons_self
    have hrest := ih (e := e.emit (.upcall u)) (fun o ho => hos o (List.mem_cons_of_mem _ ho))
    refine .head (.aside e (.upcall u) rfl) ?_
    simpa [Echo.emit] using hrest

theorem EchoMoves.checkIcmpSession (env : Env) (sessions maxsessions : Int) (e : Echo) :
    EchoMoves e (checkIcmpSession env sessions maxsessions e).1 := by
  simp only [Engine.checkIcmpSession]
  split
  · exact .single (.close e)
  · exact .refl

theorem EchoMoves.stamped (e : Echo) (time : Int) : EchoMoves e { e with icmp.time := time } :=
  .single (.tidy e e.icmp.uid time e.icmp.stop id)

theorem EchoMoves.stopped (e : Echo) : EchoMoves e { e with icmp.stop := true } :=
  .single (.tidy e e.icmp.uid e.icmp.time true (fun _ => rfl))

theorem EchoMoves.readReply (buffer : List UInt8) :
    EchoMoves e (readReply env args buffer (e.emit (.recv e.socket buffer))) := by
  let answered := e.answer buffer (env.tunWrite (e.emit (.recv e.socket buffer)).out)
  let read := if env.tunWrite (e.emit (.recv e.socket buffer)).out
    then answered else { answered with icmp.stop := true }
  have hread : EchoMoves e read := by
    refine .head (.answer e buffer (env.tunWrite (e.emit (.recv e.socket buffer)).out)) ?_
    simp only [read]
    split
    · exact .refl
    · exact EchoMoves.stopped answered
  obtain ⟨os, hlog, hos⟩ := logIncoming_upcalls env args read.icmp.query buffer.length
    read.icmp.uid read.out
  have hlogged := EchoMoves.asides (e := read) hos
  rw [← hlog] at hlogged
  exact hread.trans hlogged

theorem EchoMoves.checkIcmpSocket (env : Env) (args : Arguments) (ev : Events) (e : Echo) :
    EchoMoves e (checkIcmpSocket env args ev e) := by
  unfold Engine.checkIcmpSocket
  split
  · exact (EchoMoves.stamped e (env.time e.out)).trans (EchoMoves.stopped { e with
      icmp.time := env.time e.out })
  split
  · apply (EchoMoves.stamped e (env.time e.out)).trans
    dsimp only
    split
    · exact EchoMoves.readReply _
    · exact .head (.aside _ (.recv e.socket []) rfl) (EchoMoves.stopped _)
    · exact .head (.aside _ (.recv e.socket []) rfl) (EchoMoves.stopped _)
    · exact .single (.aside _ (.recv e.socket []) rfl)
  · exact .refl

theorem EchoMoves.sendRequest (env : Env) (daddr : Address) (message : List UInt8) (e : Echo) :
    EchoMoves e (sendRequest env daddr message e) := by
  unfold Engine.sendRequest
  apply (EchoMoves.stamped e (env.time e.out)).trans
  dsimp only
  split
  · exact .single (.aside _ _ rfl)
  · exact .single (.aside _ _ rfl)
  · exact .head (.aside _ (.sendto e.socket daddr 0 message false) rfl) (EchoMoves.stopped _)

end Icmp

section Udp
variable {env : Env} {args : Arguments} {d : Datagram}

inductive DatagramMove : Datagram → Datagram → Prop
  | tidy (d : Datagram) (uid time : Int) (sent received : UInt64) (state : UdpState)
      (hstate : state = d.udp.state ∨ state = .finishing) :
      DatagramMove d { d with udp := { d.udp with uid, time, sent, received, state } }
  | aside (d : Datagram) (o : Output) (ho : o.aside = true) : DatagramMove d (d.emit o)
  | answer (d : Datagram) (data : List UInt8) (written : Bool) :
      DatagramMove d (d.emit (.tun (.udp d.udp data) written))
  | close (d : Datagram) (time : Int) (hstate : d.udp.state = .finishing) :
      DatagramMove d { d.emit (.close d.socket) with
        socket := -1
        udp.time := time
        udp.state := .closed }

abbrev DatagramMoves : Datagram → Datagram → Prop := ReflTransGen DatagramMove

theorem DatagramMoves.toFlow {d' : Datagram} (h : DatagramMoves d d') :
    d'.udp.toFlow = d.udp.toFlow := by
  refine Run.chain_invariant (P := fun x : Datagram => x.udp.toFlow = d.udp.toFlow) ?_ h rfl
  intro x y hmove hx
  cases hmove <;> exact hx

theorem DatagramMoves.asides {os : List Output} (hos : ∀ o ∈ os, ∃ u, o = .upcall u) :
    DatagramMoves d { d with out := d.out ++ os } := by
  induction os generalizing d with
  | nil => simpa using ReflTransGen.refl
  | cons o os ih =>
    obtain ⟨u, rfl⟩ := hos o List.mem_cons_self
    have hrest := ih (d := d.emit (.upcall u)) (fun o ho => hos o (List.mem_cons_of_mem _ ho))
    refine .head (.aside d (.upcall u) rfl) ?_
    simpa [Datagram.emit] using hrest

theorem DatagramMoves.stamped (d : Datagram) (time : Int) :
    DatagramMoves d { d with udp.time := time } :=
  .single (.tidy d d.udp.uid time d.udp.sent d.udp.received d.udp.state (.inl rfl))

theorem DatagramMoves.finished (d : Datagram) :
    DatagramMoves d { d with udp.state := .finishing } :=
  .single (.tidy d d.udp.uid d.udp.time d.udp.sent d.udp.received .finishing (.inr rfl))

theorem DatagramMoves.checkUdpSession (env : Env) (sessions maxsessions : Int) (d : Datagram) :
    DatagramMoves d (checkUdpSession env sessions maxsessions d).1 := by
  let idle : Datagram :=
    if d.udp.state = .active ∧ d.udp.time + getUdpTimeout d.udp sessions maxsessions <
      env.time d.out then { d with udp.state := .finishing } else d
  let closed : Datagram :=
    if idle.udp.state = .finishing then
      { idle.emit (.close idle.socket) with
        socket := -1
        udp.time := env.time (idle.emit (.close idle.socket)).out
        udp.state := .closed }
    else idle
  let cleared : Datagram :=
    if closed.udp.state = .closed then { closed with udp.sent := 0, udp.received := 0 } else closed
  have hidle : DatagramMoves d idle := by
    simp only [idle]
    split
    · exact .finished d
    · exact .refl
  have hclosed : DatagramMoves idle closed := by
    simp only [closed]
    split
    next hstate => exact .single (.close idle _ hstate)
    next => exact .refl
  have hcleared : DatagramMoves closed cleared := by
    simp only [cleared]
    split
    · exact .single (.tidy closed closed.udp.uid closed.udp.time 0 0 closed.udp.state (.inl rfl))
    · exact .refl
  exact (hidle.trans hclosed).trans hcleared

theorem DatagramMoves.readDatagram (env : Env) (args : Arguments) (buffer : List UInt8)
    (d : Datagram) : DatagramMoves d (readDatagram env args buffer d) := by
  let counted : Datagram :=
    { d with udp.received := d.udp.received + UInt64.ofNat buffer.length }
  let inspected := if counted.udp.dest = 53
    then counted.emit (.upcall (.dnsResponse buffer counted.udp.uid)) else counted
  let written := env.tunWrite inspected.out
  let answered := inspected.emit (.tun (.udp inspected.udp buffer) written)
  let ended : Datagram := if !written || answered.udp.dest == 53
    then { answered with udp.state := .finishing } else answered
  have hcounted : DatagramMoves d counted :=
    .single (.tidy d d.udp.uid d.udp.time d.udp.sent _ d.udp.state (.inl rfl))
  have hinspected : DatagramMoves counted inspected := by
    simp only [inspected]
    split
    · exact .single (.aside counted _ rfl)
    · exact .refl
  have hended : DatagramMoves answered ended := by
    simp only [ended]
    split
    · exact .finished answered
    · exact .refl
  have hanswered : DatagramMoves d ended :=
    (hcounted.trans hinspected).trans (.head (.answer inspected buffer written) hended)
  obtain ⟨os, hlog, hos⟩ := logIncoming_upcalls env args ended.udp.query buffer.length
    ended.udp.uid ended.out
  have hlogged := DatagramMoves.asides (d := ended) hos
  rw [← hlog] at hlogged
  exact hanswered.trans hlogged

theorem DatagramMoves.checkUdpSocket (env : Env) (args : Arguments) (ev : Events) (d : Datagram) :
    DatagramMoves d (checkUdpSocket env args ev d) := by
  unfold Engine.checkUdpSocket
  split
  · exact (DatagramMoves.stamped d (env.time d.out)).trans (DatagramMoves.finished { d with
      udp.time := env.time d.out })
  split
  · apply (DatagramMoves.stamped d (env.time d.out)).trans
    dsimp only
    split
    next bytes _ _ => exact .head (.aside _ (.recv d.socket bytes) rfl) (DatagramMoves.readDatagram ..)
    · exact .head (.aside _ (.recv d.socket []) rfl) (DatagramMoves.finished _)
    · exact .head (.aside _ (.recv d.socket []) rfl) (DatagramMoves.finished _)
    · exact .single (.aside _ (.recv d.socket []) rfl)
  · exact .refl

end Udp

section Dhcp

/-- The flow of an entry once `check_dhcp` has answered on it. -/
def Flow.answered (flow : Flow) : Flow := { flow with saddr := dhcpServer ++ flow.saddr.drop 4 }

def takesDhcp (flow : Flow) (data : List UInt8) : Bool :=
  (flow.source = 68 || flow.dest = 67) && isDhcp data

def answersDhcp (flow : Flow) (data : List UInt8) : Bool :=
  takesDhcp flow data && data.getD 0 0 = 1

def Datagram.answerDhcp (d : Datagram) (data : List UInt8) (written : Bool) : Datagram :=
  let d := { d with udp.saddr := dhcpServer ++ d.udp.saddr.drop 4 }
  d.emit (.tun (.udp d.udp (dhcpResponse data)) written)

/-- What becomes of a datagram of the app: DHCP is answered or ignored, the rest is sent. -/
inductive Forwarded (flow : Flow) (data : List UInt8) (d : Datagram) : Datagram → Prop
  | answered (hanswers : answersDhcp flow data = true) (written : Bool) :
      Forwarded flow data d (d.answerDhcp data written)
  | ignored (htakes : takesDhcp flow data = true) (hanswers : answersDhcp flow data = false) :
      Forwarded flow data d d
  | sent {d' : Datagram} (htakes : takesDhcp flow data = false) (hmoves : DatagramMoves d d')
      (ok : Bool) (hout : d'.out = d.out ++ [.sendto d.socket d.udp.daddr d.udp.dest data ok]) :
      Forwarded flow data d d'

variable {flow : Flow} {data : List UInt8} {d d' : Datagram}

theorem checkDhcp_skips {env : Env} (hnot : takesDhcp flow data = false) :
    (if flow.source = 68 ∨ flow.dest = 67 then checkDhcp env data d else (d, false)) =
      (d, false) := by
  split
  next hports =>
    have hdata : isDhcp data = false := by simpa [takesDhcp, hports] using hnot
    simp [checkDhcp, hdata]
  next => rfl

theorem forwardDatagram_forwarded (env : Env) (flow : Flow) (data : List UInt8) (d : Datagram) :
    Forwarded flow data d (forwardDatagram env flow data d) := by
  by_cases htakes : takesDhcp flow data = true
  · obtain ⟨hports, hdata⟩ : (flow.source = 68 ∨ flow.dest = 67) ∧ isDhcp data = true := by
      simpa [takesDhcp] using htakes
    simp only [forwardDatagram, hports, if_true, checkDhcp, hdata, Bool.not_true,
      Bool.false_eq_true, if_false]
    by_cases hopcode : data.getD 0 0 = 1
    · rw [if_pos hopcode]
      exact .answered (by simp only [answersDhcp, htakes, hopcode, decide_true, Bool.and_self]) _
    · rw [if_neg hopcode]
      exact .ignored htakes (by simp only [answersDhcp, hopcode, decide_false, Bool.and_false])
  · have hnot : takesDhcp flow data = false := by simpa using htakes
    simp only [forwardDatagram, checkDhcp_skips hnot, Bool.false_eq_true, if_false]
    let stamped : Datagram := { d with udp.time := env.time d.out }
    have hsent (ok : Bool) : DatagramMoves d
        (stamped.emit (.sendto d.socket d.udp.daddr d.udp.dest data ok)) :=
      (DatagramMoves.stamped d (env.time d.out)).tail (.aside _ _ rfl)
    split
    · exact .sent hnot ((hsent true).tail (.tidy _ d.udp.uid (env.time d.out) _ d.udp.received
        d.udp.state (.inl rfl))) true rfl
    · exact .sent hnot (hsent false) false rfl
    · exact .sent hnot ((hsent false).trans (DatagramMoves.finished _)) false rfl

theorem Forwarded.toFlow (h : Forwarded flow data d d') :
    d'.udp.toFlow = if answersDhcp flow data then d.udp.toFlow.answered else d.udp.toFlow := by
  cases h with
  | answered hanswers =>
    rw [if_pos hanswers]
    rfl
  | ignored htakes hanswers => rw [hanswers, if_neg Bool.false_ne_true]
  | sent htakes hmoves =>
    have hanswers : answersDhcp flow data = false := by simp [answersDhcp, htakes]
    rw [hanswers, if_neg Bool.false_ne_true, hmoves.toFlow]

theorem Forwarded.sendto (h : Forwarded flow data d d') (hnot : takesDhcp flow data = false) :
    ∃ ok, .sendto d.socket d.udp.daddr d.udp.dest data ok ∈ d'.out := by
  cases h with
  | answered hanswers => simp [answersDhcp, hnot] at hanswers
  | ignored htakes =>
    rw [hnot] at htakes
    exact absurd htakes Bool.false_ne_true
  | sent htakes hmoves ok hout => exact ⟨ok, by simp [hout]⟩

end Dhcp

end NetGuard.Engine
