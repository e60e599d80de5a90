import NetGuard.Engine.Loop
import NetGuard.Loop.Moves
import NetGuard.Tcp.Event

/-! # What the loop does to an entry

Apart from the packets of the tun, an event of the loop keeps the entries in their order,
drops some and lets time pass for the others: ICMP and UDP entries make their moves, and a
TCP entry goes through events of its session.
-/
namespace NetGuard.Engine
open Relation (ReflTransGen)

/-- One call on an entry, with the outputs it made. -/
inductive Touched (args : Arguments) : NgSession → Trace → NgSession → Prop
  | icmp {s : IcmpSession} {sock : Int} {e : Echo} (hmoves : EchoMoves ⟨s, sock, []⟩ e) :
      Touched args (.icmp s sock) e.out (.icmp e.icmp e.socket)
  | udp {s : UdpSession} {sock : Int} {d : Datagram} (hmoves : DatagramMoves ⟨s, sock, []⟩ d) :
      Touched args (.udp s sock) d.out (.udp d.udp d.socket)
  | tcp (s : TcpSession) (sock : Int) (events : Events) (env : Env) (e : TcpEvent) :
      Touched args (.tcp s sock events) (e.handle env args ⟨s, sock, events, []⟩).out
        (e.handle env args ⟨s, sock, events, []⟩).entry

/-- The first entry is the second one some calls later. -/
def Later (args : Arguments) (t s : NgSession) : Prop :=
  ReflTransGen (fun s t => ∃ os, Touched args s os t) s t

instance (args : Arguments) : Std.Refl (Later args) := ⟨fun _ => .refl⟩

instance (args : Arguments) : IsTrans NgSession (Later args) :=
  ⟨fun _ _ _ hlate hearly => ReflTransGen.trans hearly hlate⟩

def NgSession.descriptor : NgSession → Int
  | .icmp _ sock | .udp _ sock | .tcp _ sock _ => sock

theorem clearEntry_eq (s : NgSession) (out : Trace) : clearEntry s out =
    (none, if 0 ≤ s.descriptor then out ++ [.close s.descriptor] else out) := by
  cases s <;> rfl

/-- The entry has no socket any more when it is dropped. -/
def NgSession.Released : NgSession → Prop
  | .icmp _ sock => sock = -1
  | .udp s _ => s.state = .closed ∨ s.state = .blocked
  | .tcp s _ _ => s.state = .close

/-- What a loop over the entries makes of one of them: it is touched or left alone, and then
kept or dropped; `clear` closes its socket and drops it. -/
inductive Swept (args : Arguments) (s : NgSession) (out : Trace) : Option NgSession × Trace → Prop
  | untouched : Swept args s out (some s, out)
  | kept {os : Trace} {t : NgSession} (htouched : Touched args s os t) :
      Swept args s out (some t, out ++ os)
  | dropped {os : Trace} {t : NgSession} (htouched : Touched args s os t) (hover : t.Released) :
      Swept args s out (none, out ++ os)
  | cleared : Swept args s out (clearEntry s out)

theorem Swept.later {args : Arguments} {s t : NgSession} {out out' : Trace}
    (h : Swept args s out (some t, out')) : Later args t s := by
  cases h with
  | untouched => exact .refl
  | kept htouched => exact .single ⟨_, htouched⟩

section Calls
variable (env : Env) (args : Arguments) (s : NgSession) (out : Trace)

theorem checkAllowedEntry_swept : Swept args s out (checkAllowedEntry env args s out) := by
  cases s with
  | icmp s sock =>
    simp only [checkAllowedEntry]
    split
    · exact .untouched
    · let q : Query := ⟨s.version, ipprotoIcmp, s.saddr, 0, s.daddr, 0⟩
      let asked : Echo := Echo.emit ⟨s, sock, []⟩ (.upcall (.isAddressAllowed q s.uid))
      have hasked : EchoMoves ⟨s, sock, []⟩ asked := .single (.aside _ _ rfl)
      cases env.isAddressAllowed out q s.uid with
      | true => exact .kept (.icmp hasked)
      | false => exact .kept (.icmp (hasked.trans (EchoMoves.stopped asked)))
  | udp s sock =>
    simp only [checkAllowedEntry]
    split
    · split
      · exact .untouched
      · let asked : Datagram :=
          Datagram.emit ⟨s, sock, []⟩ (.upcall (.isAddressAllowed s.query s.uid))
        have hasked : DatagramMoves ⟨s, sock, []⟩ asked := .single (.aside _ _ rfl)
        cases env.isAddressAllowed out s.query s.uid with
        | true => exact .kept (.udp hasked)
        | false => exact .kept (.udp (hasked.trans (DatagramMoves.finished asked)))
    next hstate =>
      have huntouched : Touched args (.udp s sock) [] (.udp s sock) := .udp (d := ⟨s, sock, []⟩) .refl
      have hdropped : Swept args (.udp s sock) out _ := .dropped huntouched (.inr hstate)
      simpa using hdropped
    · exact .untouched
  | tcp s sock events => exact .kept (.tcp s sock events (env.after out) .recheck)

theorem monitorEntry_swept : Swept args s out (monitorEntry env s out) := by
  cases s with
  | icmp s sock => exact .untouched
  | udp s sock => exact .untouched
  | tcp s sock events =>
    have hmonitor : Touched args (.tcp s sock events) _ _ :=
      .tcp s sock events (env.after out) .monitor
    simp only [TcpEvent.handle] at hmonitor
    simp only [monitorEntry]
    split
    next hsock =>
      rw [if_pos hsock] at hmonitor
      exact .kept hmonitor
    next => exact .untouched

theorem checkIcmpSession_releases (sessions maxsessions : Int) (e : Echo)
    (h : (checkIcmpSession env sessions maxsessions e).2 = true) :
    (checkIcmpSession env sessions maxsessions e).1.socket = -1 := by
  simp only [checkIcmpSession] at h ⊢
  split at h
  next hover => rw [if_pos hover]
  next => exact absurd h Bool.false_ne_true

theorem checkUdpSession_releases (sessions maxsessions : Int) (d : Datagram)
    (h : (checkUdpSession env sessions maxsessions d).2 = true) :
    (checkUdpSession env sessions maxsessions d).1.udp.state = .closed ∨
      (checkUdpSession env sessions maxsessions d).1.udp.state = .blocked := by
  simp only [checkUdpSession, decide_eq_true_eq] at h ⊢
  exact h.1

theorem checkTcpSession_releases (sessions maxsessions : Int) (c : Conn)
    (h : (checkTcpSession env sessions maxsessions c).2 = true) :
    (checkTcpSession env sessions maxsessions c).1.tcp.state = .close := by
  simp only [checkTcpSession, decide_eq_true_eq] at h ⊢
  exact h.1

theorem checkEntry_swept (sessions maxsessions : Int) :
    Swept args s out (checkEntry env sessions maxsessions s out) := by
  cases s with
  | icmp s sock =>
    have hmoves := EchoMoves.checkIcmpSession (env.after out) sessions maxsessions ⟨s, sock, []⟩
    have hreleases := checkIcmpSession_releases (env.after out) sessions maxsessions ⟨s, sock, []⟩
    simp only [checkEntry]
    generalize checkIcmpSession (env.after out) sessions maxsessions ⟨s, sock, []⟩ = r
      at hmoves hreleases
    obtain ⟨e, _ | _⟩ := r
    · exact .kept (.icmp hmoves)
    · exact .dropped (.icmp hmoves) (hreleases rfl)
  | udp s sock =>
    have hmoves := DatagramMoves.checkUdpSession (env.after out) sessions maxsessions ⟨s, sock, []⟩
    have hreleases := checkUdpSession_releases (env.after out) sessions maxsessions ⟨s, sock, []⟩
    simp only [checkEntry]
    generalize checkUdpSession (env.after out) sessions maxsessions ⟨s, sock, []⟩ = r
      at hmoves hreleases
    obtain ⟨d, _ | _⟩ := r
    · exact .kept (.udp hmoves)
    · exact .dropped (.udp hmoves) (hreleases rfl)
  | tcp s sock events =>
    have htouched : Touched args (.tcp s sock events) _ _ :=
      .tcp s sock events (env.after out) (.sweep sessions maxsessions)
    have hreleases := checkTcpSession_releases (env.after out) sessions maxsessions
      ⟨s, sock, events, []⟩
    simp only [TcpEvent.handle] at htouched
    simp only [checkEntry]
    generalize checkTcpSession (env.after out) sessions maxsessions ⟨s, sock, events, []⟩ = r
      at htouched hreleases
    obtain ⟨c, _ | _⟩ := r
    · exact .kept htouched
    · exact .dropped htouched (hreleases rfl)

theorem checkSocket_touched (ev : Events) :
    Touched args s (checkSocket env args ev s).2 (checkSocket env args ev s).1 := by
  cases s with
  | icmp s sock => exact .icmp (EchoMoves.checkIcmpSocket env args ev ⟨s, sock, []⟩)
  | udp s sock =>
    simp only [checkSocket]
    split
    · exact .udp (DatagramMoves.checkUdpSocket env args ev ⟨s, sock, []⟩)
    · exact .udp (d := ⟨s, sock, []⟩) .refl
  | tcp s sock events => exact .tcp s sock events env (.socket ev)

end Calls

section Sweeps
variable {args : Arguments} {f : NgSession → Trace → Option NgSession × Trace}

theorem sweep_later (hf : ∀ s out, Swept args s out (f s out)) (list : List NgSession)
    (out : Trace) : List.SublistForall₂ (Later args) (Table.sweep f list out).1 list := by
  apply Table.sweep_later
  intro s out t h
  have hswept := hf s out
  generalize f s out = r at h hswept
  obtain ⟨kept, out'⟩ := r
  obtain rfl : kept = some t := h
  exact hswept.later

end Sweeps

/-- Every event but a packet of the tun only drops entries and lets the others go on. -/
theorem EventLoop.step_later (l : EventLoop) (e : Env × LoopEvent) (hnot : ∀ p, e.2 ≠ .tun p) :
    List.SublistForall₂ (Later (l.step e).args) (l.step e).ngSession l.ngSession := by
  obtain ⟨env, event⟩ := e
  simp only [EventLoop.step]
  cases event with
  | start args soft => exact sweep_later (checkAllowedEntry_swept env args) l.ngSession []
  | head =>
    have hmonitored := sweep_later (monitorEntry_swept env l.args) l.ngSession []
    simp only [LoopEvent.handle, EventLoop.head]
    split
    · refine IsTrans.trans _ _ _ ?_ hmonitored
      exact sweep_later (fun s out => checkEntry_swept env l.args s out _ _) _ _
    · exact hmonitored
  | tun p => exact absurd rfl (hnot p)
  | socket i ev =>
    simp only [LoopEvent.handle, EventLoop.socket]
    split
    next before s rest heq =>
      rw [Table.eq_append_of_splitAt heq]
      exact Table.replace_later (.single ⟨_, checkSocket_touched _ _ s ev⟩) _ rest
    next => exact Std.Refl.refl _
  | clear => exact sweep_later (fun _ _ => .cleared) l.ngSession []

end NetGuard.Engine
