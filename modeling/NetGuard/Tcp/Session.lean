import NetGuard.Engine.Handlers
import NetGuard.Tcp.Chain

/-! # Sessions from their SYN on

What holds of a session right after its SYN, and the rule by which an invariant of the
moves becomes an invariant of every run.
-/
namespace NetGuard.Engine
open Relation (ReflTransGen)

variable {args : Arguments} {c : Conn}

section Opening

def Output.opening : Output → Bool
  | .socket _ | .protect _ _ | .nonBlocking _ _ | .connect _ _ _ _ => true
  | .probe _ | .epollCtl _ _ _ => true
  | _ => false

structure Syn.Listening (syn : Syn) (c : Conn) : Prop where
  state : c.tcp.state = .listen
  socks5 : c.tcp.socks5 = .none
  remoteSeq : c.tcp.remoteSeq = syn.tcphdr.seq
  localSeq : c.tcp.localSeq = c.tcp.localStart
  recvScale : c.tcp.recvScale = syn.ws
  sendScale : c.tcp.sendScale = syn.ws
  sendWindow : c.tcp.sendWindow = syn.tcphdr.window.toUInt32 <<< syn.ws.toUInt32
  forward : c.tcp.forward =
    if syn.data.val.isEmpty then [] else [⟨syn.tcphdr.seq, 0, syn.tcphdr.psh, syn.data⟩]
  socket : 0 ≤ c.socket
  out : ∀ o ∈ c.out, o.opening = true
  flow : c.tcp.toFlow = syn.flow

theorem openTcpSocket_opening (args : Arguments) (env : Env) (cur : TcpSession) (out : Trace) :
    ∃ os, (openTcpSocket env args cur out).2 = out ++ os ∧ ∀ o ∈ os, o.opening = true := by
  simp only [openTcpSocket_eq]
  split
  · exact ⟨_, rfl, by simp [Output.opening]⟩
  simp only [List.append_assoc]
  split
  · exact ⟨_, rfl, by simp [Output.opening]⟩
  split <;> split <;> exact ⟨_, rfl, by simp [Output.opening]⟩

/-- A new session is listening, and reset at once when its SYN is not allowed. -/
theorem newTcpSession_listening {env : Env} (syn : Syn) {out : Trace}
    (h : newTcpSession env args syn.flow syn.tcphdr syn.data syn.mss syn.ws syn.uid syn.allowed [] =
      (some c, out)) :
    ∃ d, syn.Listening d ∧ c = (if syn.allowed then d else writeRst env d) ∧ out = c.out := by
  obtain ⟨hsock, window, ok, d, hd, hc, hlast⟩ := newTcpSession_some h
  obtain ⟨os, hout, hos⟩ := openTcpSocket_opening args env
    (synSession env syn.flow syn.tcphdr syn.data syn.mss syn.ws syn.uid []) []
  refine ⟨d, ?_, hc, hlast⟩
  rw [hd]
  refine ⟨rfl, rfl, rfl, rfl, rfl, rfl, rfl, rfl, hsock, ?_, rfl⟩
  intro o ho
  rw [hout] at ho
  rcases List.mem_append.mp ho with ho | ho
  · exact hos o (by simpa using ho)
  rcases List.mem_cons.mp ho with rfl | ho
  · rfl
  · obtain rfl := List.mem_singleton.mp ho
    rfl

theorem Syn.Opens.listening (dial : Prop) {syn : Syn} (h : syn.Opens args c) :
    ∃ d, syn.Listening d ∧ Acts dial .other ⟨d, false⟩ ⟨c, false⟩ := by
  obtain ⟨env, out, h⟩ := h
  obtain ⟨d, hd, hc, -⟩ := newTcpSession_listening _ h
  refine ⟨d, hd, ?_⟩
  rw [hc]
  split
  · exact .refl
  · exact Acts.writeRst

end Opening

section Rule

def Conn.Dialing (c : Conn) : Prop := c.tcp.state = .listen → c.tcp.socks5 ≠ .connected

theorem Move.dialing {a : Cause} {s t : Stage} (h : Move a s t) (hs : s.conn.Dialing) :
    t.conn.Dialing := by
  intro hlisten
  have hstate : s.conn.tcp.state = .listen := by
    by_contra hne
    exact h.not_listen hne hlisten
  have hsocks := hs hstate
  cases h with
  | tidy uid time recvWindow sent received lastKeepAlive socks5 events hnew =>
    intro h
    exact hsocks (hnew h)
  | @queue c fwd seg ha hdata hsocket hnot => simpa [queueTcp_eq] using hsocks
  | @reset c fwd written => unfold countSyn; split <;> exact hsocks
  | synAck ha _ time written => cases written <;> simp [Conn.wrote] at hlisten
  | _ => exact hsocks

variable {P : List (Env × TcpEvent) → Conn → Prop}
  {Q : List (Env × TcpEvent) → Cause → Stage → Prop} {C : Conn → Env × TcpEvent → Prop}

/-- What every move preserves, under what an event meets, every run preserves. The
invariant may speak of the events so far. -/
theorem Conn.run_history (hmove : ∀ past a s t, Move a s t → Q past a s → Q past a t)
    (hstart : ∀ past c e, C c e → P past c → Q (past ++ [e]) e.2.cause ⟨c, false⟩)
    (hend : ∀ past a c, Q past a ⟨c, false⟩ → P past c) {es : List (Env × TcpEvent)}
    (hdialing : c.Dialing) (h : P [] c) (hrun : Run.Along (Conn.step args) C c es) :
    P es (c.run args es) := by
  have hboth := hrun.history (P := fun past c => c.Dialing ∧ P past c)
    (fun past c e hC hc => by
      have hmoves := Moves.step args e hc.1
      exact ⟨Run.chain_invariant (P := fun s : Stage => s.conn.Dialing)
          (fun _ _ => Move.dialing) hmoves hc.1,
        hend _ _ _ (Run.chain_invariant (fun s t => hmove (past ++ [e]) e.2.cause s t) hmoves
          (hstart past c e hC hc.2))⟩)
    [] ⟨hdialing, h⟩
  simpa [Conn.run] using hboth.2

theorem Syn.Opens.dialing {syn : Syn} (h : syn.Opens args c) : c.Dialing := by
  obtain ⟨d, hd, hmoves⟩ := h.listening True
  exact Run.chain_invariant (P := fun s : Stage => s.conn.Dialing) (fun _ _ => Move.dialing) hmoves
    (fun _ => by simp [hd.socks5])

/-- The rule for a session from its SYN on. -/
theorem Syn.Opens.run_history {syn : Syn} (hopens : syn.Opens args c)
    (hmove : ∀ past a s t, Move a s t → Q past a s → Q past a t)
    (hstart : ∀ past c e, C c e → P past c → Q (past ++ [e]) e.2.cause ⟨c, false⟩)
    (hend : ∀ past a c, Q past a ⟨c, false⟩ → P past c)
    (hfresh : ∀ d, syn.Listening d → Q [] .other ⟨d, false⟩) {es : List (Env × TcpEvent)}
    (hrun : Run.Along (Conn.step args) C c es) : P es (c.run args es) := by
  obtain ⟨d, hd, hmoves⟩ := hopens.listening True
  have hc : P [] c := hend _ _ _ (Run.chain_invariant (hmove [] .other) hmoves (hfresh d hd))
  exact Conn.run_history hmove hstart hend hopens.dialing hc hrun

end Rule

end NetGuard.Engine
