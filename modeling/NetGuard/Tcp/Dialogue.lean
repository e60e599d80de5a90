import NetGuard.Tcp.Handshake
import NetGuard.Tcp.Queue

/-! # What is said to the proxy

Behind a proxy the engine greets it, gives the password when the proxy asks for one, and
asks for the connection to the server of the session. A message is sent only when the proxy
has said what makes it due, and no byte of the app goes before the proxy has connected.
-/
namespace NetGuard.Engine
open Run (Timed)

/-- What the proxy has said so far; a read that fails says nothing. -/
def Trace.heard (out : Trace) : List (List UInt8) := (Trace.replies out).filter (· ≠ [])

def Output.said? : Output → Option (List UInt8)
  | .socksSend _ message _ => some message
  | _ => none

/-- The message of a state of the dialogue. -/
inductive Due (args : Arguments) (flow : Flow) : Socks5 → List UInt8 → Prop
  | hello : Due args flow .hello socksHello
  | auth : Due args flow .auth (socksAuth args)
  | connect (cur : TcpSession) (hflow : cur.toFlow = flow) :
      Due args flow .connect (socksConnect cur)

section Heard
variable {proxy : Bool} {version : IpVersion} {socks5 : Socks5} {out os : Trace}

theorem Trace.heard_append (out os : Trace) :
    Trace.heard (out ++ os) = Trace.heard out ++ Trace.heard os := by
  rw [Trace.heard, Trace.replies_append, List.filter_append]
  rfl

theorem Trace.heard_aside (hos : ∀ o ∈ os, o.reply? = none) :
    Trace.heard (out ++ os) = Trace.heard out := by
  rw [Trace.heard, Trace.replies_aside hos]
  rfl

theorem Negotiated.ne_nil {replies : List (List UInt8)}
    (h : Negotiated proxy version socks5 replies) : ∀ reply ∈ replies, reply ≠ [] := by
  induction h with
  | connected _ hreply ih =>
    intro reply hmem
    rcases List.mem_append.mp hmem with hmem | hmem
    · exact ih reply hmem
    · obtain rfl := List.mem_singleton.mp hmem
      have hlength := hreply.length
      rintro rfl
      simp only [List.length_nil] at hlength
      omega
  | _ => simp

theorem Negotiated.heard (h : Negotiated proxy version socks5 (Trace.replies out)) :
    Negotiated proxy version socks5 (Trace.heard out) := by
  rwa [Trace.heard, List.filter_eq_self.mpr fun reply hreply => by simpa using h.ne_nil reply hreply]

end Heard

section Still

/-- The dialogue is not carried on between the two. -/
structure Conn.Still (c d : Conn) : Prop where
  aside : c.Aside d
  flow : d.tcp.toFlow = c.tcp.toFlow
  waits : c.tcp.state = .listen → d.tcp.state = .listen ∨ d.tcp.state.Over
  out : ∃ os, d.out = c.out ++ os ∧ (∀ o ∈ os, o.said? = none ∧ o.reply? = none) ∧
    (c.tcp.state = .listen → ∀ o ∈ os, o.accepted = [])

variable {a : Cause} {c d : Conn} {s t : Stage}

theorem Output.said_of_permitted {o : Output} (h : o.Permitted False a) :
    o.said? = none ∧ o.reply? = none := by
  cases o with
  | socksSend => exact h.elim
  | socksRecv => exact h.elim
  | _ => exact ⟨rfl, rfl⟩

theorem Act.still (h : Act False a s t) : s.conn.Still t.conn := by
  have haside := h.aside
  have hsilent (hflow : t.conn.tcp.toFlow = s.conn.tcp.toFlow)
      (hwaits : s.conn.tcp.state = .listen → t.conn.tcp.state = .listen ∨ t.conn.tcp.state.Over)
      (hout : t.conn.out = s.conn.out) : s.conn.Still t.conn :=
    ⟨haside, hflow, hwaits, [], by simp [hout], by simp, by simp⟩
  have hwrote {packet : TunPacket} {written : Bool}
      (hflow : t.conn.tcp.toFlow = s.conn.tcp.toFlow)
      (hwaits : s.conn.tcp.state = .listen → t.conn.tcp.state = .listen ∨ t.conn.tcp.state.Over)
      (hout : t.conn.out = s.conn.out ++ [.tun packet written]) : s.conn.Still t.conn :=
    ⟨haside, hflow, hwaits, _, hout, by simp [Output.said?, Output.reply?],
      by simp [Output.accepted]⟩
  have hpast {state : TcpState} (hstate : s.conn.tcp.state = state)
      (hne : state ≠ .listen) (hlisten : s.conn.tcp.state = .listen) :
      t.conn.tcp.state = .listen ∨ t.conn.tcp.state.Over :=
    absurd (hstate.symm.trans hlisten) hne
  have hbusy (hstate : s.conn.tcp.state = .established ∨ s.conn.tcp.state = .closeWait)
      (hlisten : s.conn.tcp.state = .listen) :
      t.conn.tcp.state = .listen ∨ t.conn.tcp.state.Over :=
    hstate.elim (fun hstate => hpast hstate (by decide) hlisten)
      fun hstate => hpast hstate (by decide) hlisten
  cases h with
  | tidy => exact hsilent rfl .inl rfl
  | quiet o ho hpermitted =>
    refine ⟨haside, rfl, .inl, [o], rfl, ?_, ?_⟩
    · simpa using Output.said_of_permitted hpermitted
    · simpa using fun _ => Output.accepted_of_quiet ho
  | window => exact hsilent rfl .inl rfl
  | queue =>
    refine hsilent ?_ ?_ rfl
    · rw [queueTcp_eq]
    · rw [queueTcp_eq]
      exact .inl
  | abort => exact hsilent rfl (fun _ => .inr (.inl rfl)) rfl
  | @reset c fwd written =>
    refine hwrote (by simp) (fun hlisten => .inr (.inl ?_)) (by simp; exact ⟨rfl, rfl⟩)
    exact if_neg (by simp [show c.tcp.state = .listen from hlisten])
  | countFin ha hfin hadmitted hstate => exact hwrote rfl (hpast hstate (by decide)) rfl
  | holdFin ha hfin hadmitted hstate => exact hsilent rfl (hpast hstate (by decide)) rfl
  | lastFin ha hfin hadmitted hstate => exact hwrote rfl (hpast hstate (by decide)) rfl
  | ackAll ha hfin hack state hstate =>
    refine hsilent rfl (fun hlisten => ?_) rfl
    rcases hstate with rfl | ⟨hstate, -⟩ | ⟨hstate, -⟩
    · exact .inl hlisten
    · exact hpast hstate (by decide) hlisten
    · exact hpast hstate (by decide) hlisten
  | ackSome => exact hsilent rfl .inl rfl
  | synAck ha hstate time written hdial => exact hdial.elim
  | send ha n hforward hseq hsent hn hnot =>
    exact ⟨haside, rfl, .inl, [_], rfl, by simp [Output.said?, Output.reply?],
      fun hlisten => absurd hlisten hnot⟩
  | confirmFin ha hstate => exact hwrote rfl (hpast hstate (by decide)) rfl
  | ack ha hforward hnot => exact hwrote rfl (fun hlisten => absurd hlisten hnot) rfl
  | keepAlive ha hstate => exact hwrote rfl (hbusy hstate) rfl
  | @data c fwd ha hstate bytes hbytes hsize dns hdns written hupcalls =>
    refine ⟨haside, rfl, hbusy hstate, .recv c.socket bytes :: dns ++ [_], by simp; rfl, ?_, ?_⟩
    · intro o ho
      simp only [List.mem_append, List.mem_cons, List.not_mem_nil, or_false] at ho
      rcases ho with (rfl | ho) | rfl
      · exact ⟨rfl, rfl⟩
      · obtain ⟨u, rfl⟩ := hupcalls o ho
        exact ⟨rfl, rfl⟩
      · exact ⟨rfl, rfl⟩
    · intro hlisten
      rcases hstate with hstate | hstate
      · exact absurd (hstate.symm.trans hlisten) (by decide)
      · exact absurd (hstate.symm.trans hlisten) (by decide)
  | @fin c fwd ha hstate =>
    exact ⟨haside, rfl, hbusy hstate, [_, _], by simp; exact ⟨rfl, rfl⟩,
      by simp [Output.said?, Output.reply?], by simp [Output.accepted]⟩
  | close ha hstate =>
    exact ⟨haside, rfl, .inl, [_], rfl, by simp [Output.said?, Output.reply?],
      by simp [Output.accepted]⟩
  | closed ha hstate => exact hsilent rfl (hpast hstate (by decide)) rfl

end Still

section Dialogue

/-- A message to the proxy is due for what the proxy has said before. -/
def Told (args : Arguments) (flow : Flow) (before : Trace) (o : Output) : Prop :=
  ∀ message, o.said? = some message → ∃ socks5,
    Negotiated args.proxy flow.version socks5 before.heard ∧ Due args flow socks5 message

/-- A byte of the app goes once the proxy, if there is one, has connected. -/
def Passed (args : Arguments) (flow : Flow) (before : Trace) (o : Output) : Prop :=
  o.accepted ≠ [] → Negotiated args.proxy flow.version .connected before.heard

variable {args : Arguments} {flow : Flow} {past : List (Env × TcpEvent)} {pre os : Trace}
  {c d : Conn}

/-- The state of the dialogue after the events `past`, with the calls `pre` made before the
session's own. -/
structure Dialogue (args : Arguments) (flow : Flow) (past : List (Env × TcpEvent)) (pre : Trace)
    (c : Conn) : Prop where
  handshake : Handshake args flow.version past pre c
  ends : c.tcp.toFlow = flow
  beyond : c.tcp.state = .listen ∨ c.tcp.state.Over ∨
    Negotiated args.proxy flow.version .connected (Trace.heard (pre ++ c.out))
  told : Timed (Told args flow) (pre ++ c.out)
  passed : c.tcp.state.Over ∨ Timed (Passed args flow) (pre ++ c.out)

/-- What a step has to show when it says nothing to the proxy. -/
theorem Dialogue.keep (h : Dialogue args flow past pre c)
    (hhandshake : Handshake args flow.version past pre d) (hflow : d.tcp.toFlow = c.tcp.toFlow)
    (hout : d.out = c.out ++ os) (hsaid : ∀ o ∈ os, o.said? = none)
    (hbeyond : d.tcp.state = .listen ∨ d.tcp.state.Over ∨
      Negotiated args.proxy flow.version .connected (Trace.heard (pre ++ d.out)))
    (hended : c.tcp.state.Over → d.tcp.state.Over)
    (hpassed : d.tcp.state.Over ∨ ∀ before o after, os = before ++ o :: after →
      Passed args flow (pre ++ c.out ++ before) o) : Dialogue args flow past pre d := by
  have hlonger : pre ++ d.out = pre ++ c.out ++ os := by rw [hout, List.append_assoc]
  refine ⟨hhandshake, hflow.trans h.ends, hbeyond, ?_, ?_⟩
  · rw [hlonger]
    apply h.told.append
    intro o ho before message hmessage
    rw [hsaid o ho] at hmessage
    cases hmessage
  · rw [hlonger]
    rcases h.passed with hover | hbefore
    · exact .inl (hended hover)
    · exact hpassed.imp_right hbefore.extend

theorem Dialogue.still (h : Dialogue args flow past pre c) (hstill : c.Still d) :
    Dialogue args flow past pre d := by
  obtain ⟨os, hout, hos, hlisten⟩ := hstill.out
  have hheard : Trace.heard (pre ++ d.out) = Trace.heard (pre ++ c.out) := by
    rw [hout, ← List.append_assoc]
    exact Trace.heard_aside fun o ho => (hos o ho).2
  have hended := hstill.aside.ended
  refine h.keep (h.handshake.aside hstill.aside) hstill.flow hout (fun o ho => (hos o ho).1) ?_
    hended ?_
  · rw [hheard]
    rcases h.beyond with hstate | hover | hconnected
    · exact (hstill.waits hstate).imp_right .inl
    · exact .inr (.inl (hended hover))
    · exact .inr (.inr hconnected)
  · rcases h.beyond with hstate | hover | hconnected
    · refine .inr fun before o after heq htaken => absurd (hlisten hstate o ?_) htaken
      simp [heq]
    · exact .inl (hended hover)
    · refine .inr fun before o after heq _ => ?_
      rwa [Trace.heard_aside fun o' ho' => (hos o' (by simp [heq, ho'])).2]

theorem Dialogue.reset (h : Dialogue args flow past pre c) (env : Env) :
    Dialogue args flow past pre (writeRst env c) := by
  have hacts : Acts False .other ⟨c, false⟩ ⟨writeRst env c, false⟩ := Acts.writeRst
  exact Run.chain_invariant (P := fun s : Stage => Dialogue args flow past pre s.conn)
    (fun _ _ hact hs => hs.still hact.still) hacts h

theorem Dialogue.later (h : Dialogue args flow past pre c) (e : Env × TcpEvent) :
    Dialogue args flow (past ++ [e]) pre c :=
  ⟨h.handshake.later e, h.ends, h.beyond, h.told, h.passed⟩

end Dialogue

section Speaking
variable {env : Env} {args : Arguments} {flow : Flow} {past : List (Env × TcpEvent)} {pre : Trace}
  {c : Conn}

/-- Between the answer of the proxy and the next message. A session that was reset because
the answer could not be read still has the message of its state. -/
structure Speaking (args : Arguments) (flow : Flow) (past : List (Env × TcpEvent)) (pre : Trace)
    (c : Conn) : Prop where
  dialogue : Dialogue args flow past pre c
  due : c.tcp.socks5 ≠ .failed →
    Negotiated args.proxy flow.version c.tcp.socks5 (Trace.heard (pre ++ c.out))
  listen : c.tcp.socks5 = .connected → c.tcp.state = .listen

theorem Dialogue.speaking (h : Dialogue args flow past pre c) (hstate : c.tcp.state = .listen) :
    Speaking args flow past pre c :=
  ⟨h, fun _ => (h.handshake.listening hstate).1.heard, fun _ => hstate⟩

/-- The proxy's answer goes on with the dialogue or resets the session. -/
theorem socksReply_cases (env : Env) (buffer : List UInt8) (c : Conn) : ∃ socks5,
    socksReply env buffer c = { c with tcp.socks5 := socks5 } ∨
      socksReply env buffer c = writeRst env { c with tcp.socks5 := socks5 } ∧
        socks5 = .failed := by
  have hnext (socks5 : Socks5) : ∃ socks5', { c with tcp.socks5 := socks5 } =
        { c with tcp.socks5 := socks5' } ∨ { c with tcp.socks5 := socks5 } =
        writeRst env { c with tcp.socks5 := socks5' } ∧ socks5' = .failed :=
    ⟨socks5, .inl rfl⟩
  have hfailed : ∃ socks5, socksFailed env c = { c with tcp.socks5 := socks5 } ∨
      socksFailed env c = writeRst env { c with tcp.socks5 := socks5 } ∧ socks5 = .failed :=
    ⟨.failed, .inr ⟨rfl, rfl⟩⟩
  simp only [socksReply]
  generalize (6 + if c.tcp.version = .v4 then 4 else 16) = size
  split
  · split
    · exact hnext .connect
    · split
      · exact hnext .auth
      · exact hfailed
  · split
    · split
      · exact hnext .connect
      · exact hfailed
    · split
      · split
        · exact hnext .connected
        · exact hfailed
      · exact hfailed

theorem socksRecv_cases (env : Env) (c : Conn) : ∃ reply socks5,
    socksRecv env c = { c.emit (.socksRecv c.socket reply) with tcp.socks5 := socks5 } ∨
    (socksRecv env c =
        writeRst env { c.emit (.socksRecv c.socket reply) with tcp.socks5 := socks5 } ∧
      (socks5 = .failed ∨ socks5 = c.tcp.socks5 ∧ reply = [])) := by
  have hreply (reply : List UInt8) :=
    socksReply_cases env reply (c.emit (.socksRecv c.socket reply))
  unfold socksRecv
  split
  next bytes _ _ =>
    obtain ⟨socks5, hnext | ⟨hreset, hfailed⟩⟩ := hreply bytes
    · exact ⟨bytes, socks5, .inl hnext⟩
    · exact ⟨bytes, socks5, .inr ⟨hreset, .inl hfailed⟩⟩
  · obtain ⟨socks5, hnext | ⟨hreset, hfailed⟩⟩ := hreply []
    · exact ⟨[], socks5, .inl hnext⟩
    · exact ⟨[], socks5, .inr ⟨hreset, .inl hfailed⟩⟩
  all_goals exact ⟨[], c.tcp.socks5, .inr ⟨rfl, .inr ⟨rfl, rfl⟩⟩⟩

theorem socksRecv_speaking (h : Dialogue args flow past pre c) (hwritable : Writable past)
    (hstate : c.tcp.state = .listen) (hsocks : c.tcp.socks5 ≠ .connected) :
    Speaking args flow past pre (socksRecv env c) := by
  obtain ⟨hhandshake, hlisten⟩ : Answering args flow.version past pre (socksRecv env c) :=
    socksRecv_answering h.handshake hwritable hstate hsocks
  have hlive : ¬ c.tcp.state.Over := by
    rw [hstate]
    rintro (hclosing | hclose)
    · cases hclosing
    · cases hclose
  obtain ⟨reply, socks5, hnext | ⟨hreset, hsocks5⟩⟩ := socksRecv_cases env c
  · rw [hnext] at hhandshake hlisten ⊢
    have hdialogue : Dialogue args flow past pre
        { c.emit (.socksRecv c.socket reply) with tcp.socks5 := socks5 } := by
      refine h.keep hhandshake rfl rfl (by simp [Output.said?]) (.inl hstate)
        (fun hover => absurd hover hlive) (.inr fun before o after heq htaken => ?_)
      obtain rfl : o = .socksRecv c.socket reply := by
        have hmem : o ∈ [Output.socksRecv c.socket reply] := by simp [heq]
        exact List.mem_singleton.mp hmem
      exact absurd rfl htaken
    exact hdialogue.speaking hstate
  · rw [hreset] at hhandshake hlisten ⊢
    have hover : (writeRst env
        { c.emit (.socksRecv c.socket reply) with tcp.socks5 := socks5 }).tcp.state = .closing :=
      writeRst_state (by simp [hstate])
    obtain ⟨packet, written, hout⟩ : ∃ packet written, (writeRst env
        { c.emit (.socksRecv c.socket reply) with tcp.socks5 := socks5 }).out =
          c.out ++ [.socksRecv c.socket reply, .tun packet written] := by
      rw [writeRst_eq]
      simp [Conn.wrote]
    refine ⟨h.keep hhandshake ?_ hout (by simp [Output.said?]) (.inr (.inl (.inl hover)))
      (fun _ => .inl hover) (.inl (.inl hover)), ?_, hlisten⟩
    · rw [writeRst_eq]
      unfold countSyn
      split <;> rfl
    · rw [writeRst_socks5]
      rintro hfailed
      obtain ⟨rfl, rfl⟩ := hsocks5.resolve_left hfailed
      have hheard : Trace.heard (pre ++ (c.out ++ [.socksRecv c.socket [], .tun packet written])) =
          Trace.heard (pre ++ c.out) := by
        rw [← List.append_assoc, Trace.heard_append]
        simp [Trace.heard, Trace.replies, Output.reply?]
      rw [hout, hheard]
      exact (h.handshake.listening hstate).1.heard

theorem socksSend_dialogue {message : List UInt8} {socks5 : Socks5}
    (h : Dialogue args flow past pre c)
    (hdue : Negotiated args.proxy flow.version socks5 (Trace.heard (pre ++ c.out)))
    (hmessage : Due args flow socks5 message) :
    Dialogue args flow past pre (socksSend env message c) := by
  have hemit (accepted : Option Nat) :
      Dialogue args flow past pre (c.emit (.socksSend c.socket message accepted)) := by
    have haside : c.Aside (c.emit (.socksSend c.socket message accepted)) :=
      ⟨rfl, rfl, id, id, [_], rfl, by simp [Output.isSynAck, Output.reply?]⟩
    refine ⟨h.handshake.aside haside, h.ends, ?_, ?_, ?_⟩
    all_goals rw [Conn.emit_out, ← List.append_assoc]
    · rw [Trace.heard_aside (by simp [Output.reply?])]
      exact h.beyond
    · refine h.told.snoc fun message' hmessage' => ⟨socks5, hdue, ?_⟩
      obtain rfl : message = message' := Option.some.inj hmessage'
      exact hmessage
    · exact h.passed.imp_right fun hpassed => hpassed.snoc fun htaken => absurd rfl htaken
  unfold socksSend
  split
  · exact hemit _
  all_goals exact (hemit none).reset env

theorem confirmConnect_dialogue (h : Speaking args flow past pre c)
    (hsocks : c.tcp.socks5 = .connected) :
    Dialogue args flow past pre (confirmConnect env c) := by
  have hstate := h.listen hsocks
  have hhandshake : Handshake args flow.version past pre (confirmConnect env c) :=
    confirmConnect_handshake h.dialogue.handshake hstate hsocks
  have hconnected := h.due (by simp [hsocks])
  rw [hsocks] at hconnected
  obtain ⟨packet, written, hflow, hout⟩ : ∃ packet written,
      (confirmConnect env c).tcp.toFlow = c.tcp.toFlow ∧
        (confirmConnect env c).out = c.out ++ [.tun packet written] := by
    cases hw : env.tunWrite c.out with
    | false =>
      rw [confirmConnect_refused hw]
      exact ⟨_, _, rfl, rfl⟩
    | true =>
      simp only [confirmConnect, writeSynAck, writeOrClose_eq, hw, if_true]
      exact ⟨_, _, rfl, rfl⟩
  have hheard : Trace.heard (pre ++ (confirmConnect env c).out) = Trace.heard (pre ++ c.out) := by
    rw [hout, ← List.append_assoc]
    exact Trace.heard_aside (by simp [Output.reply?])
  refine h.dialogue.keep hhandshake hflow hout (by simp [Output.said?]) ?_ ?_ ?_
  · rw [hheard]
    exact .inr (.inr hconnected)
  · rintro (hclosing | hclose)
    · rw [hstate] at hclosing
      cases hclosing
    · rw [hstate] at hclose
      cases hclose
  · refine .inr fun before o after heq htaken => absurd ?_ htaken
    have hmem : o ∈ [Output.tun packet written] := by simp [heq]
    rw [List.mem_singleton.mp hmem]
    rfl

theorem socksNext_dialogue (h : Speaking args flow past pre c) :
    Dialogue args flow past pre (socksNext env args c) := by
  cases hsocks : c.tcp.socks5 with
  | connected =>
    simp only [socksNext, hsocks]
    exact confirmConnect_dialogue h hsocks
  | hello =>
    simp only [socksNext, hsocks]
    exact socksSend_dialogue h.dialogue (hsocks ▸ h.due (by simp [hsocks])) .hello
  | auth =>
    simp only [socksNext, hsocks]
    exact socksSend_dialogue h.dialogue (hsocks ▸ h.due (by simp [hsocks])) .auth
  | connect =>
    simp only [socksNext, hsocks]
    exact socksSend_dialogue h.dialogue (hsocks ▸ h.due (by simp [hsocks]))
      (.connect c.tcp h.dialogue.ends)
  | failed | none =>
    simp only [socksNext, hsocks]
    exact h.dialogue

theorem checkListen_dialogue {ev : Events} (h : Dialogue args flow past pre c)
    (hstate : c.tcp.state = .listen) (hsocks : c.tcp.socks5 ≠ .connected)
    (hready : ev.epollOut = true → Writable past) :
    Dialogue args flow past pre (checkListen env args ev c) := by
  obtain ⟨hnegotiated, hwritable⟩ := h.handshake.listening hstate
  apply socksNext_dialogue
  split
  next hnone =>
    split
    next hout =>
      rw [hnone] at hnegotiated
      have hreplies := hnegotiated.of_none
      have hstart : Negotiated args.proxy flow.version (if args.proxy then .hello else .connected)
          (Trace.replies (pre ++ c.out)) := by
        rw [hreplies]
        cases hproxy : args.proxy with
        | true => exact .hello rfl
        | false => exact .direct rfl
      obtain ⟨hhandshake, hends, hbeyond, htold, hpassed⟩ := h
      have hnow : Dialogue args flow past pre
          { c with tcp.socks5 := if args.proxy then .hello else .connected } :=
        ⟨⟨hhandshake.family, fun _ => ⟨hstart, .inr (hready hout)⟩, .inr ⟨_, hstart⟩,
          hhandshake.accepted, hhandshake.writable⟩, hends, hbeyond, htold, hpassed⟩
      exact hnow.speaking hstate
    next => exact h.speaking hstate
  next hdialogue =>
    split
    · exact socksRecv_speaking h (hwritable.resolve_left hdialogue) hstate hsocks
    · exact h.speaking hstate

end Speaking

section Run
variable {args : Arguments} {flow : Flow} {past : List (Env × TcpEvent)} {c : Conn}

theorem Dialogue.step (h : Dialogue args flow past [] c) (hdialing : c.Dialing)
    (e : Env × TcpEvent) : Dialogue args flow (past ++ [e]) [] (c.step args e) := by
  by_cases hdials : e.2.Dials c
  · obtain ⟨env, event⟩ := e
    obtain ⟨hstate, ev, rfl, herr⟩ := hdials
    have hhandshake := h.handshake.step hdialing (env, .socket ev)
    have hlisten : TcpEvent.handle env args (.socket ev) { c with out := [] } =
        checkListen env args ev { c with out := [] } := by
      simp [TcpEvent.handle, checkTcpSocket, herr, hstate]
    have hnow : Dialogue args flow (past ++ [(env, .socket ev)]) c.out { c with out := [] } := by
      obtain ⟨hhandshake, hends, hbeyond, htold, hpassed⟩ := h.later (env, .socket ev)
      obtain ⟨hfamily, hlistening, hwelcome, haccepted, hwritable⟩ := hhandshake
      refine ⟨⟨hfamily, ?_, ?_, ?_, ?_⟩, hends, ?_, ?_, ?_⟩
      all_goals rwa [List.append_nil]
    have hready : ev.epollOut = true → Writable (past ++ [(env, .socket ev)]) :=
      fun hout => ⟨_, List.mem_append_right _ (List.mem_singleton_self _), ev, rfl, hout, herr⟩
    obtain ⟨-, hends, hbeyond, htold, hpassed⟩ :=
      checkListen_dialogue hnow hstate (hdialing hstate) hready
    refine ⟨hhandshake, ?_, ?_, ?_, ?_⟩
    all_goals simp only [Conn.step, hlisten]
    · exact hends
    · exact hbeyond
    · exact htold
    · exact hpassed
  · exact Run.chain_invariant (P := fun s : Stage => Dialogue args flow (past ++ [e]) [] s.conn)
      (fun _ _ hact hs => hs.still hact.still) (Acts.step args e hdials hdialing) (h.later e)

theorem Syn.Listening.dialogue {syn : Syn} (h : syn.Listening c) :
    Dialogue args syn.flow [] [] c := by
  have hquiet : ∀ o ∈ c.out, o.said? = none ∧ o.accepted = [] := by
    intro o ho
    have hopening := h.out o ho
    cases o with
    | socksSend => exact absurd hopening Bool.false_ne_true
    | send => exact absurd hopening Bool.false_ne_true
    | _ => exact ⟨rfl, rfl⟩
  refine ⟨h.handshake, h.flow, .inl h.state, ?_, .inr ?_⟩
  · apply Timed.of_forall
    intro o ho before message hmessage
    rw [(hquiet o ho).1] at hmessage
    cases hmessage
  · apply Timed.of_forall
    intro o ho before htaken
    exact absurd (hquiet o ho).2 htaken

/-- The proxy is told each message only when its answers so far call for it: the greeting
before any answer, the password after it asked for one, the server of the session after it
let the engine in. While the session lasts, no byte of the app goes before the proxy has
connected. -/
theorem Syn.Opens.told_in_order {syn : Syn} (hopens : syn.Opens args c)
    (es : List (Env × TcpEvent)) :
    Timed (Told args syn.flow) (c.run args es).out ∧
      (¬ (c.run args es).tcp.state.Over → Timed (Passed args syn.flow) (c.run args es).out) := by
  obtain ⟨d, hd, hacts⟩ := hopens.listening False
  have hstart : Dialogue args syn.flow [] [] c :=
    Run.chain_invariant (P := fun s : Stage => Dialogue args syn.flow [] [] s.conn)
      (fun _ _ hact hs => hs.still hact.still) hacts hd.dialogue
  have hrun : Run.Along (Conn.step args) (fun _ _ => True) c es :=
    Run.Along.of_forall (fun _ _ => trivial) c es
  obtain ⟨-, hend⟩ := hrun.history
    (P := fun past c => c.Dialing ∧ Dialogue args syn.flow past [] c)
    (fun past c e _ h => ⟨Run.chain_invariant (P := fun s : Stage => s.conn.Dialing)
      (fun _ _ => Move.dialing) (Moves.step args e h.1) h.1, h.2.step h.1 e⟩)
    [] ⟨hopens.dialing, hstart⟩
  exact ⟨hend.told, hend.passed.resolve_left⟩

/-- The proxy asks for the password, which the engine then gives. -/
theorem Syn.Opens.told_in_order_sample : ∃ before after socks5,
    (Conn.proxied.run .proxied
        [(.calm, .ready false true), (.answering [5, 2] (by decide), .ready true true)]).out =
      before ++ .socksSend 7 (socksAuth .proxied) (some 3) :: after ∧
    Negotiated true .v4 socks5 (Trace.heard before) ∧
    Due .proxied (Syn.sample 100 ⟨[], length_nil_lt⟩).flow socks5 (socksAuth .proxied) := by
  have htold := (Syn.Opens.told_in_order Conn.proxied_opens
    [(.calm, .ready false true), (.answering [5, 2] (by decide), .ready true true)]).1
  obtain ⟨socks5, hnegotiated, hdue⟩ := htold
    (Conn.proxied.out ++ [.socksSend 7 socksHello (some 4), .socksRecv 7 [5, 2]])
    (.socksSend 7 (socksAuth .proxied) (some 3)) [] rfl _ rfl
  exact ⟨_, _, socks5, rfl, hnegotiated, hdue⟩

end Run

end NetGuard.Engine
