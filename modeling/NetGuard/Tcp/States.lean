import NetGuard.Tcp.Session

/-! # The TCP state machine

The edges a session can follow, and the socket it has in each state. A session is
reachable when a SYN opened it and any events came after, under any settings.
-/
namespace NetGuard.Engine
open Relation (ReflTransGen)

inductive TcpState.Edge : TcpState → TcpState → Prop
  | connected : Edge .listen .synRecv
  | confirmed : Edge .synRecv .established
  | appClosed : Edge .established .closeWait
  | bothClosed : Edge .closeWait .lastAck
  | serverClosed : Edge .established .finWait1
  | allClosed : Edge .finWait1 .close
  | aborted (state : TcpState) : Edge state .closing
  | closed : Edge .closing .close

abbrev TcpState.Edges : TcpState → TcpState → Prop := ReflTransGen TcpState.Edge

def TcpState.Over (state : TcpState) : Prop := state = .closing ∨ state = .close

theorem TcpState.Edges.over {state next : TcpState} (h : state.Edges next) :
    state.Over → next.Over := by
  refine Run.chain_invariant (P := TcpState.Over) ?_ h
  intro state next hedge hover
  rcases hover with rfl | rfl
  · cases hedge with
    | aborted => exact .inl rfl
    | closed => exact .inr rfl
  · cases hedge with
    | aborted => exact .inl rfl

/-- The socket of a session in its state: open while data may come from the server, closed
once the server is done. -/
def TcpState.Socket : TcpState → Int → Prop
  | .listen, sock | .synRecv, sock | .established, sock | .closeWait, sock => 0 ≤ sock
  | .finWait1, sock | .lastAck, sock | .close, sock => sock = -1
  | .closing, sock => -1 ≤ sock
  | .unset, _ => False

def Conn.Fits (c : Conn) : Prop := c.tcp.state.Socket c.socket

theorem Conn.Fits.lower {c : Conn} (h : c.Fits) : -1 ≤ c.socket := by
  unfold Conn.Fits at h
  cases hstate : c.tcp.state with
  | unset =>
    rw [hstate] at h
    exact h.elim
  | _ =>
    rw [hstate] at h
    simp only [TcpState.Socket] at h
    omega

section Move
variable {a : Cause} {s t : Stage}

theorem TcpState.Edges.keepOrAbort (state : TcpState) (written : Bool) :
    state.Edges (if written then state else .closing) := by
  cases written with
  | false => exact .single (.aborted state)
  | true => exact .refl

theorem TcpState.Edges.moveOrAbort {state next : TcpState} (h : TcpState.Edge state next)
    (written : Bool) : state.Edges (if written then next else .closing) := by
  cases written with
  | false => exact .single (.aborted state)
  | true => exact .single h

theorem Move.edges (h : Move a s t) : s.conn.tcp.state.Edges t.conn.tcp.state := by
  cases h with
  | tidy => exact .refl
  | quiet => exact .refl
  | window => exact .refl
  | queue => rw [queueTcp_eq]
  | abort => exact .single (.aborted _)
  | @reset c fwd written =>
    simp only [Conn.wrote_tcp]
    split
    next hclose => rw [hclose]
    next => exact .single (.aborted _)
  | countFin ha hfin hadmitted hstate hforward written =>
    simp only [Conn.wrote_tcp, hstate]
    exact .moveOrAbort .appClosed written
  | holdFin ha hfin hadmitted hstate hforward =>
    simp only [Conn.setState_tcp, hstate]
    exact .single .appClosed
  | lastFin ha hfin hadmitted hstate written =>
    simp only [Conn.wrote_tcp, hstate]
    exact .moveOrAbort .allClosed written
  | ackAll ha hfin hack state hstate =>
    simp only
    rcases hstate with rfl | ⟨hold, rfl⟩ | ⟨hold, rfl⟩
    · exact .refl
    · rw [hold]
      exact .single .confirmed
    · exact .single (.aborted _)
  | ackSome => exact .refl
  | synAck ha hstate time written =>
    simp only [Conn.wrote_tcp, hstate]
    exact .moveOrAbort .connected written
  | send => exact .refl
  | confirmFin ha hstate hforward written => exact .keepOrAbort _ written
  | ack ha hforward hlisten written => exact .keepOrAbort _ written
  | keepAlive ha hstate written => exact .keepOrAbort _ written
  | data ha hstate bytes hbytes hsize dns hdns written => exact .keepOrAbort _ written
  | fin ha hstate hforward written state hnext =>
    simp only [Conn.emit_tcp, Conn.wrote_tcp]
    rcases hnext with ⟨-, rfl⟩ | ⟨-, hold, rfl⟩ | ⟨-, hold, rfl⟩
    · exact .single (.aborted _)
    · rw [hold]
      exact .single .serverClosed
    · rw [hold]
      exact .single .bothClosed
  | close => exact .refl
  | closed ha hstate hsocket =>
    simp only [Conn.setState_tcp, hstate]
    exact .single .closed

theorem Conn.Fits.keepOrAbort {c d : Conn} (h : c.Fits) {written : Bool}
    (hstate : d.tcp.state = if written then c.tcp.state else .closing)
    (hsocket : d.socket = c.socket) : d.Fits := by
  cases written with
  | false =>
    unfold Conn.Fits
    rw [hstate, hsocket]
    exact h.lower
  | true =>
    unfold Conn.Fits
    rw [hstate, hsocket]
    exact h

theorem Move.fits (h : Move a s t) (hs : s.conn.Fits) : t.conn.Fits := by
  have hlower := hs.lower
  cases h with
  | tidy => exact hs
  | quiet => exact hs
  | window => exact hs
  | queue =>
    rw [queueTcp_eq]
    exact hs
  | abort => exact hlower
  | @reset c fwd written =>
    simp only [Conn.Fits, Conn.wrote_tcp, Conn.wrote_socket, countSyn_socket]
    split
    next hclose => simpa [Conn.Fits, hclose] using hs
    next => exact hlower
  | countFin ha hfin hadmitted hstate hforward written =>
    simp only [Conn.Fits, hstate] at hs
    cases written with
    | false => exact hlower
    | true => exact hs
  | holdFin ha hfin hadmitted hstate hforward =>
    simp only [Conn.Fits, hstate] at hs
    exact hs
  | lastFin ha hfin hadmitted hstate written =>
    simp only [Conn.Fits, hstate] at hs
    cases written with
    | false => exact hlower
    | true => exact hs
  | ackAll ha hfin hack state hstate =>
    rcases hstate with rfl | ⟨hold, rfl⟩ | ⟨hold, rfl⟩
    · exact hs
    · simp only [Conn.Fits, hold] at hs
      exact hs
    · exact hlower
  | ackSome => exact hs
  | synAck ha hstate time written =>
    simp only [Conn.Fits, hstate] at hs
    cases written with
    | false => exact hlower
    | true => exact hs
  | send => exact hs
  | confirmFin => exact hs.keepOrAbort rfl rfl
  | ack => exact hs.keepOrAbort rfl rfl
  | keepAlive => exact hs.keepOrAbort rfl rfl
  | data => exact hs.keepOrAbort rfl rfl
  | fin ha hstate hforward written state hnext =>
    rcases hnext with ⟨-, rfl⟩ | ⟨-, -, rfl⟩ | ⟨-, -, rfl⟩
    · exact Int.le_refl (-1)
    · rfl
    · rfl
  | @close c fwd ha hstate =>
    simp only [Conn.Fits, Conn.emit_tcp, hstate]
    exact Int.le_refl (-1)
  | @closed c fwd ha hstate hsocket =>
    dsimp only at hlower
    simp only [Conn.Fits, Conn.setState_tcp, Conn.setState_socket, TcpState.Socket]
    omega

end Move

section Reachable

inductive Conn.Reachable : Conn → Prop
  | opened {args : Arguments} {syn : Syn} {c : Conn} (hopens : syn.Opens args c) : Reachable c
  | step {c : Conn} (args : Arguments) (e : Env × TcpEvent) (h : Reachable c) :
      Reachable (c.step args e)

variable {c : Conn}

theorem Conn.Reachable.invariant {P : Conn → Prop} (hopened : ∀ args (syn : Syn) c, syn.Opens args c → P c)
    (hmove : ∀ a s t, Move a s t → P s.conn → P t.conn) (h : c.Reachable) :
    c.Dialing ∧ P c := by
  induction h with
  | opened hopens => exact ⟨hopens.dialing, hopened _ _ _ hopens⟩
  | @step c args e _ ih =>
    have hmoves := Moves.step args e ih.1
    constructor
    · exact Run.chain_invariant (P := fun s : Stage => s.conn.Dialing) (fun _ _ => Move.dialing)
        hmoves ih.1
    · exact Run.chain_invariant (P := fun s : Stage => P s.conn) (fun s t => hmove _ s t)
        hmoves ih.2

theorem Syn.Opens.fits {args : Arguments} {syn : Syn} (h : syn.Opens args c) : c.Fits := by
  obtain ⟨d, hd, hmoves⟩ := h.listening True
  apply Run.chain_invariant (P := fun s : Stage => s.conn.Fits) (fun _ _ => Move.fits) hmoves
  simp only [Conn.Fits, hd.state]
  exact hd.socket

/-- In every reachable session each step follows the edges, and the socket is the one that
belongs to the state. A session that is over stays over. -/
theorem Conn.Reachable.state_machine (h : c.Reachable) :
    c.tcp.state.Socket c.socket ∧ ∀ (args : Arguments) (e : Env × TcpEvent),
      c.tcp.state.Edges (c.step args e).tcp.state ∧
        (c.tcp.state.Over → (c.step args e).tcp.state.Over) := by
  obtain ⟨hdialing, hfits⟩ := h.invariant (P := Conn.Fits) (fun _ _ _ => Syn.Opens.fits)
    (fun _ _ _ => Move.fits)
  refine ⟨hfits, ?_⟩
  intro args e
  have hedges : c.tcp.state.Edges (c.step args e).tcp.state := by
    have hmoves := Moves.step args e hdialing
    exact Run.chain_invariant (P := fun s : Stage => c.tcp.state.Edges s.conn.tcp.state)
      (fun s t hmove hs => hs.trans hmove.edges) hmoves .refl
  exact ⟨hedges, hedges.over⟩

/-- The server has accepted, and the app has acknowledged that. -/
theorem Conn.Reachable.state_machine_sample :
    ((Conn.sample 100 ⟨[], by decide⟩).run .direct (connected 100)).tcp.state = .established ∧
      ∀ (args : Arguments) (e : Env × TcpEvent), TcpState.Edges .established
        (((Conn.sample 100 ⟨[], by decide⟩).run .direct (connected 100)).step args e).tcp.state := by
  have hopened : (Conn.sample 100 ⟨[], by decide⟩).Reachable := .opened (Syn.sample_opens 100)
  have hreachable : ((Conn.sample 100 ⟨[], by decide⟩).run .direct (connected 100)).Reachable :=
    .step .direct _ (.step .direct _ hopened)
  have hstate : ((Conn.sample 100 ⟨[], by decide⟩).run .direct (connected 100)).tcp.state =
      .established := rfl
  refine ⟨hstate, fun args e => ?_⟩
  have hedges := (Conn.Reachable.state_machine hreachable).2 args e
  rw [hstate] at hedges
  exact hedges.1

end Reachable

end NetGuard.Engine
