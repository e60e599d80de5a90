import NetGuard.Tcp.States

/-! # The handshake with the server and the SYN-ACK for the app

In `LISTEN` the engine waits until the socket is connected and, behind a proxy, until the
proxy has connected. Nothing but a readiness event of the socket goes on with that, and
only its end writes the SYN-ACK.
-/
namespace NetGuard.Engine
open Run (Timed)
open Relation (ReflTransGen)

def Output.isSynAck : Output → Bool
  | .tun (.tcp _ _ syn ack _ _) _ => syn && ack
  | _ => false

def Output.reply? : Output → Option (List UInt8)
  | .socksRecv _ bytes => some bytes
  | _ => none

/-- What the proxy has said so far. -/
def Trace.replies (out : Trace) : List (List UInt8) := out.filterMap Output.reply?

structure ConnectReply (version : IpVersion) (reply : List UInt8) : Prop where
  length : reply.length = 6 + (if version = .v4 then 4 else 16)
  version : reply.getD 0 0 = 5
  succeeded : reply.getD 1 0 = 0

/-- The states of the dialogue, each with the replies that lead there. -/
inductive Negotiated (proxy : Bool) (version : IpVersion) : Socks5 → List (List UInt8) → Prop
  | waiting : Negotiated proxy version .none []
  | direct (hproxy : proxy = false) : Negotiated proxy version .connected []
  | hello (hproxy : proxy = true) : Negotiated proxy version .hello []
  | password (hproxy : proxy = true) : Negotiated proxy version .auth [[5, 2]]
  | unguarded (hproxy : proxy = true) : Negotiated proxy version .connect [[5, 0]]
  | authenticated (hproxy : proxy = true) (first : UInt8) (hfirst : first = 1 ∨ first = 5) :
      Negotiated proxy version .connect [[5, 2], [first, 0]]
  | connected {replies : List (List UInt8)} (h : Negotiated proxy version .connect replies)
      {reply : List UInt8} (hreply : ConnectReply version reply) :
      Negotiated proxy version .connected (replies ++ [reply])

section Negotiated
variable {proxy : Bool} {version : IpVersion} {replies : List (List UInt8)}

theorem Negotiated.of_none (h : Negotiated proxy version .none replies) : replies = [] := by
  cases h
  rfl

theorem Negotiated.of_hello (h : Negotiated proxy version .hello replies) :
    proxy = true ∧ replies = [] := by
  cases h with
  | hello hproxy => exact ⟨hproxy, rfl⟩

theorem Negotiated.of_auth (h : Negotiated proxy version .auth replies) :
    proxy = true ∧ replies = [[5, 2]] := by
  cases h with
  | password hproxy => exact ⟨hproxy, rfl⟩

end Negotiated

section Aside

/-- Nothing of the handshake happens between the two. -/
structure Conn.Aside (c d : Conn) : Prop where
  version : d.tcp.version = c.tcp.version
  socks5 : d.tcp.socks5 = c.tcp.socks5
  listen : d.tcp.state = .listen → c.tcp.state = .listen
  ended : c.tcp.state.Over → d.tcp.state.Over
  out : ∃ os, d.out = c.out ++ os ∧ ∀ o ∈ os, o.isSynAck = false ∧ o.reply? = none

variable {a : Cause} {c d e : Conn} {s t : Stage}

theorem Conn.Aside.refl : c.Aside c := ⟨rfl, rfl, id, id, [], by simp, by simp⟩

theorem Conn.Aside.trans (h : c.Aside d) (h' : d.Aside e) : c.Aside e := by
  obtain ⟨os, hout, hos⟩ := h.out
  obtain ⟨os', hout', hos'⟩ := h'.out
  refine ⟨h'.version.trans h.version, h'.socks5.trans h.socks5, h.listen ∘ h'.listen,
    h'.ended ∘ h.ended, os ++ os', by rw [hout', hout, List.append_assoc], ?_⟩
  intro o ho
  rcases List.mem_append.mp ho with ho | ho
  · exact hos o ho
  · exact hos' o ho

theorem Output.aside_of_permitted {o : Output} (hquiet : o.quiet = true)
    (hpermitted : o.Permitted False a) : o.isSynAck = false ∧ o.reply? = none := by
  cases o with
  | tun => exact absurd hquiet Bool.false_ne_true
  | socksRecv => exact hpermitted.elim
  | _ => exact ⟨rfl, rfl⟩

theorem Output.noReply_of_opening {o : Output} (h : o.opening = true) :
    o.isSynAck = false ∧ o.reply? = none := by
  cases o with
  | tun | socksRecv => exact absurd h Bool.false_ne_true
  | _ => exact ⟨rfl, rfl⟩

theorem Act.aside (h : Act False a s t) : s.conn.Aside t.conn := by
  have hover : s.conn.tcp.state.Over → t.conn.tcp.state.Over := by
    intro hs
    have hmove : Move a s t := h.mono False.elim
    exact hmove.edges.over hs
  have hlisten : t.conn.tcp.state = .listen → s.conn.tcp.state = .listen := by
    intro ht
    by_contra hs
    exact h.not_listen hs ht
  cases h with
  | tidy uid time recvWindow sent received lastKeepAlive socks5 events hsocks hdial =>
    have hsame := hdial.resolve_left id
    exact ⟨rfl, hsame, hlisten, hover, [], by simp, by simp⟩
  | quiet o ho hpermitted =>
    have haside := Output.aside_of_permitted ho hpermitted
    exact ⟨rfl, rfl, hlisten, hover, [o], rfl, by simpa using haside⟩
  | window ha => exact ⟨rfl, rfl, hlisten, hover, [], by simp, by simp⟩
  | queue ha hdata hsocket hstate =>
    refine ⟨?_, ?_, hlisten, hover, [], by simp, by simp⟩
    all_goals rw [queueTcp_eq]
  | abort => exact ⟨rfl, rfl, hlisten, hover, [], by simp, by simp⟩
  | @reset c fwd written =>
    refine ⟨by simp, by simp, hlisten, hover, [_], by simp; rfl, ?_⟩
    simp [Output.isSynAck, Output.reply?]
  | countFin ha hfin hadmitted hstate hforward written =>
    exact ⟨rfl, rfl, hlisten, hover, [_], rfl, by simp [Output.isSynAck, Output.reply?]⟩
  | holdFin ha hfin hadmitted hstate hforward =>
    exact ⟨rfl, rfl, hlisten, hover, [], by simp, by simp⟩
  | lastFin ha hfin hadmitted hstate written =>
    exact ⟨rfl, rfl, hlisten, hover, [_], rfl, by simp [Output.isSynAck, Output.reply?]⟩
  | ackAll ha hfin hack state hstate => exact ⟨rfl, rfl, hlisten, hover, [], by simp, by simp⟩
  | ackSome ha hlocal hacked => exact ⟨rfl, rfl, hlisten, hover, [], by simp, by simp⟩
  | synAck ha hstate time written hdial => exact hdial.elim
  | send ha n hforward hseq hsent hn hnot sent =>
    exact ⟨rfl, rfl, hlisten, hover, [_], rfl, by simp [Output.isSynAck, Output.reply?]⟩
  | confirmFin ha hstate hforward written =>
    exact ⟨rfl, rfl, hlisten, hover, [_], rfl, by simp [Output.isSynAck, Output.reply?]⟩
  | ack ha hforward hnot written =>
    exact ⟨rfl, rfl, hlisten, hover, [_], rfl, by simp [Output.isSynAck, Output.reply?]⟩
  | keepAlive ha hstate written =>
    exact ⟨rfl, rfl, hlisten, hover, [_], rfl, by simp [Output.isSynAck, Output.reply?]⟩
  | @data c fwd ha hstate bytes hbytes hsize dns hdns written haside =>
    refine ⟨rfl, rfl, hlisten, hover, .recv c.socket bytes :: dns ++ [_], by simp; rfl, ?_⟩
    intro o ho
    simp only [List.mem_append, List.mem_cons, List.not_mem_nil, or_false] at ho
    rcases ho with (rfl | ho) | rfl
    · exact ⟨rfl, rfl⟩
    · obtain ⟨u, rfl⟩ := haside o ho
      exact ⟨rfl, rfl⟩
    · exact ⟨rfl, rfl⟩
  | fin ha hstate hforward written state hnext =>
    refine ⟨rfl, rfl, hlisten, hover, [_, _], by simp; exact ⟨rfl, rfl⟩, ?_⟩
    simp [Output.isSynAck, Output.reply?]
  | close ha hstate =>
    exact ⟨rfl, rfl, hlisten, hover, [_], rfl, by simp [Output.isSynAck, Output.reply?]⟩
  | closed ha hstate hsocket => exact ⟨rfl, rfl, hlisten, hover, [], by simp, by simp⟩

theorem Acts.aside (h : Acts False a s t) : s.conn.Aside t.conn := by
  induction h with
  | refl => exact .refl
  | tail _ hlast ih => exact ih.trans hlast.aside

theorem writeRst_aside (env : Env) (c : Conn) : c.Aside (writeRst env c) := by
  have hacts : Acts False .other ⟨c, false⟩ ⟨writeRst env c, false⟩ := Acts.writeRst
  exact hacts.aside

theorem socksSend_aside (env : Env) (message : List UInt8) (c : Conn) :
    c.Aside (socksSend env message c) := by
  have hemit (accepted : Option Nat) : c.Aside (c.emit (.socksSend c.socket message accepted)) :=
    ⟨rfl, rfl, id, id, [_], rfl, by simp [Output.isSynAck, Output.reply?]⟩
  unfold socksSend
  split
  · exact hemit _
  all_goals exact (hemit none).trans (writeRst_aside env _)

end Aside

section Handshake
variable {args : Arguments} {version : IpVersion} {past : List (Env × TcpEvent)} {pre : Trace}
  {c d : Conn}

theorem Trace.replies_append (out os : Trace) :
    Trace.replies (out ++ os) = Trace.replies out ++ Trace.replies os := List.filterMap_append

theorem Trace.replies_aside {out os : Trace} (hos : ∀ o ∈ os, o.reply? = none) :
    Trace.replies (out ++ os) = Trace.replies out := by
  have hnone : Trace.replies os = [] := List.filterMap_eq_nil_iff.mpr hos
  rw [Trace.replies_append, hnone, List.append_nil]

/-- The socket was reported writable, and not failed. -/
def Writable (past : List (Env × TcpEvent)) : Prop :=
  ∃ e ∈ past, ∃ ev, e.2 = .socket ev ∧ ev.epollOut = true ∧ ev.epollErr = false

/-- The state of the handshake after the events `past`, with the calls `pre` made before
the session's own. -/
structure Handshake (args : Arguments) (version : IpVersion) (past : List (Env × TcpEvent))
    (pre : Trace) (c : Conn) : Prop where
  family : c.tcp.version = version
  listening : c.tcp.state = .listen →
    Negotiated args.proxy version c.tcp.socks5 (Trace.replies (pre ++ c.out)) ∧
      (c.tcp.socks5 = .none ∨ Writable past)
  welcome : c.tcp.state.Over ∨ ∃ socks5, Negotiated args.proxy version socks5 (Trace.replies (pre ++ c.out))
  accepted : Timed (fun before o => o.isSynAck = true →
    Negotiated args.proxy version .connected (Trace.replies before)) (pre ++ c.out)
  writable : ∀ o ∈ pre ++ c.out, o.isSynAck = true → Writable past

theorem Handshake.later (h : Handshake args version past pre c) (e : Env × TcpEvent) :
    Handshake args version (past ++ [e]) pre c := by
  have hlater (hpast : Writable past) : Writable (past ++ [e]) := by
    obtain ⟨e', he', hready⟩ := hpast
    exact ⟨e', List.mem_append_left _ he', hready⟩
  refine ⟨h.family, ?_, h.welcome, h.accepted, ?_⟩
  · intro hlisten
    exact (h.listening hlisten).imp_right (Or.imp_right hlater)
  · intro o ho hack
    exact hlater (h.writable o ho hack)

theorem Handshake.aside (h : Handshake args version past pre c) (haside : c.Aside d) :
    Handshake args version past pre d := by
  obtain ⟨os, hout, hos⟩ := haside.out
  have hlonger : pre ++ d.out = (pre ++ c.out) ++ os := by rw [hout, List.append_assoc]
  have hreplies : Trace.replies (pre ++ d.out) = Trace.replies (pre ++ c.out) := by
    rw [hlonger]
    exact Trace.replies_aside fun o ho => (hos o ho).2
  refine ⟨haside.version.trans h.family, ?_, ?_, ?_, ?_⟩
  · intro hlisten
    rw [haside.socks5, hreplies]
    exact h.listening (haside.listen hlisten)
  · rw [hreplies]
    exact h.welcome.imp_left haside.ended
  · rw [hlonger]
    apply h.accepted.append
    intro o ho before hack
    rw [(hos o ho).1] at hack
    exact absurd hack Bool.false_ne_true
  · rw [hlonger]
    intro o ho hack
    rcases List.mem_append.mp ho with ho | ho
    · exact h.writable o ho hack
    · rw [(hos o ho).1] at hack
      exact absurd hack Bool.false_ne_true

/-- A dialogue that fails: whatever the proxy said, the session is over. -/
theorem Handshake.fail (h : Handshake args version past pre c) {os : Trace}
    (hversion : d.tcp.version = c.tcp.version) (hout : d.out = c.out ++ os)
    (hos : ∀ o ∈ os, o.isSynAck = false) (hstate : d.tcp.state = .closing) :
    Handshake args version past pre d := by
  have hlonger : pre ++ d.out = (pre ++ c.out) ++ os := by rw [hout, List.append_assoc]
  refine ⟨hversion.trans h.family, ?_, .inl (.inl hstate), ?_, ?_⟩
  · intro hlisten
    simp [hstate] at hlisten
  · rw [hlonger]
    apply h.accepted.append
    intro o ho before hack
    rw [hos o ho] at hack
    exact absurd hack Bool.false_ne_true
  · rw [hlonger]
    intro o ho hack
    rcases List.mem_append.mp ho with ho | ho
    · exact h.writable o ho hack
    · rw [hos o ho] at hack
      exact absurd hack Bool.false_ne_true

/-- A step of the dialogue, with what the proxy said. -/
theorem Handshake.negotiate (h : Handshake args version past pre c) (hwritable : Writable past)
    {reply : List UInt8} {socks5 : Socks5}
    (hnegotiated : Negotiated args.proxy version socks5
      (Trace.replies (pre ++ c.out) ++ [reply])) :
    Handshake args version past pre
      { c.emit (.socksRecv c.socket reply) with tcp.socks5 := socks5 } := by
  have hreplies : Trace.replies (pre ++ c.out ++ [.socksRecv c.socket reply]) =
      Trace.replies (pre ++ c.out) ++ [reply] := Trace.replies_append _ _
  rw [← hreplies] at hnegotiated
  refine ⟨h.family, fun _ => ?_, .inr ⟨socks5, ?_⟩, ?_, ?_⟩
  all_goals rw [Conn.emit_out, ← List.append_assoc]
  · exact ⟨hnegotiated, .inr hwritable⟩
  · exact hnegotiated
  · apply h.accepted.append
    simp [Output.isSynAck]
  · intro o ho hack
    rcases List.mem_append.mp ho with ho | ho
    · exact h.writable o ho hack
    · simp only [List.mem_singleton] at ho
      simp [ho, Output.isSynAck] at hack

theorem Handshake.reset (h : Handshake args version past pre c) (env : Env) (reply : List UInt8)
    (socks5 : Socks5) (hstate : c.tcp.state = .listen) :
    Handshake args version past pre
      (writeRst env { c.emit (.socksRecv c.socket reply) with tcp.socks5 := socks5 }) := by
  have haside := writeRst_aside env
    { c.emit (.socksRecv c.socket reply) with tcp.socks5 := socks5 }
  obtain ⟨os, hout, hos⟩ := haside.out
  have hcalls : (writeRst env { c.emit (.socksRecv c.socket reply) with tcp.socks5 := socks5 }).out =
      c.out ++ .socksRecv c.socket reply :: os := by
    rw [hout]
    simp
  apply h.fail haside.version hcalls
  · intro o ho
    rcases List.mem_cons.mp ho with rfl | ho
    · rfl
    · exact (hos o ho).1
  · exact writeRst_state (by simp [hstate])

end Handshake

section Dialogue
variable {env : Env} {args : Arguments} {version : IpVersion} {past : List (Env × TcpEvent)}
  {pre : Trace} {c : Conn}

/-- Between the two halves of a readiness event the dialogue may be complete, while the
session is still in `LISTEN`. -/
structure Answering (args : Arguments) (version : IpVersion) (past : List (Env × TcpEvent))
    (pre : Trace) (c : Conn) : Prop where
  handshake : Handshake args version past pre c
  listen : c.tcp.socks5 = .connected → c.tcp.state = .listen

theorem eq_pair {buffer : List UInt8} (h : buffer.length = 2) :
    buffer = [buffer.getD 0 0, buffer.getD 1 0] := by
  obtain ⟨x, y, rfl⟩ := List.length_eq_two.mp h
  rfl

theorem socksReply_answering (h : Handshake args version past pre c) (hwritable : Writable past)
    (hstate : c.tcp.state = .listen) (reply : List UInt8) :
    Answering args version past pre
      (socksReply env reply (c.emit (.socksRecv c.socket reply))) := by
  obtain ⟨hnegotiated, -⟩ := h.listening hstate
  have hfailed : Answering args version past pre
      (socksFailed env (c.emit (.socksRecv c.socket reply))) := by
    refine ⟨h.reset env reply .failed hstate, ?_⟩
    intro hsocks
    simp [socksFailed, writeRst_socks5] at hsocks
  have hnext {socks5 : Socks5}
      (hnegotiated : Negotiated args.proxy version socks5
      (Trace.replies (pre ++ c.out) ++ [reply])) :
      Answering args version past pre
        { c.emit (.socksRecv c.socket reply) with tcp.socks5 := socks5 } :=
    ⟨h.negotiate hwritable hnegotiated, fun _ => hstate⟩
  simp only [socksReply]
  generalize hsize : 6 + (if (c.emit (.socksRecv c.socket reply)).tcp.version = .v4 then 4
    else 16) = size
  simp only [Conn.emit_tcp, h.family] at hsize
  split
  next hhello =>
    obtain ⟨hsocks, hlength, hfirst⟩ := hhello
    rw [show c.tcp.socks5 = .hello from hsocks] at hnegotiated
    have hpair := eq_pair hlength
    rw [hfirst] at hpair
    obtain ⟨hproxy, hreplies⟩ := hnegotiated.of_hello
    rw [hreplies] at hnext
    split
    next hnone =>
      rw [hnone] at hpair
      exact hnext (hpair ▸ .unguarded hproxy)
    next =>
      split
      next hpassword =>
        rw [hpassword] at hpair
        exact hnext (hpair ▸ .password hproxy)
      next => exact hfailed
  next =>
    split
    next hauth =>
      obtain ⟨hsocks, hlength, hfirst⟩ := hauth
      rw [show c.tcp.socks5 = .auth from hsocks] at hnegotiated
      have hpair := eq_pair hlength
      obtain ⟨hproxy, hreplies⟩ := hnegotiated.of_auth
      rw [hreplies] at hnext
      split
      next hsucceeded =>
        rw [hsucceeded] at hpair
        exact hnext (hpair ▸ .authenticated hproxy _ hfirst)
      next => exact hfailed
    next =>
      split
      next hconnect =>
        obtain ⟨hsocks, hlength, hfirst⟩ := hconnect
        rw [show c.tcp.socks5 = .connect from hsocks] at hnegotiated
        rw [← hsize] at hlength
        split
        next hsucceeded => exact hnext (hnegotiated.connected ⟨hlength, hfirst, hsucceeded⟩)
        next => exact hfailed
      next => exact hfailed

theorem socksRecv_answering (h : Handshake args version past pre c) (hwritable : Writable past)
    (hstate : c.tcp.state = .listen) (hsocks : c.tcp.socks5 ≠ .connected) :
    Answering args version past pre (socksRecv env c) := by
  unfold socksRecv
  split
  · exact socksReply_answering h hwritable hstate _
  · exact socksReply_answering h hwritable hstate []
  all_goals
    refine ⟨h.reset env [] c.tcp.socks5 hstate, ?_⟩
    intro hconnected
    rw [writeRst_socks5] at hconnected
    exact absurd hconnected hsocks

theorem confirmConnect_handshake (h : Handshake args version past pre c)
    (hstate : c.tcp.state = .listen) (hsocks : c.tcp.socks5 = .connected) :
    Handshake args version past pre (confirmConnect env c) := by
  obtain ⟨hnegotiated, hwritable⟩ := h.listening hstate
  rw [hsocks] at hnegotiated hwritable
  have hwritable : Writable past := hwritable.resolve_left (by decide)
  have hwrote {d : Conn} (hversion : d.tcp.version = c.tcp.version) {o : Output}
      (hout : d.out = c.out ++ [o]) (ho : o.reply? = none) (hlisten : d.tcp.state ≠ .listen) :
      Handshake args version past pre d := by
    have hlonger : pre ++ d.out = (pre ++ c.out) ++ [o] := by rw [hout, List.append_assoc]
    have hreplies : Trace.replies (pre ++ d.out) = Trace.replies (pre ++ c.out) := by
      rw [hlonger]
      exact Trace.replies_aside (by simpa using ho)
    refine ⟨hversion.trans h.family, fun hstate => absurd hstate hlisten, ?_, ?_, ?_⟩
    · rw [hreplies]
      exact .inr ⟨_, hnegotiated⟩
    · rw [hlonger]
      exact h.accepted.snoc fun _ => hnegotiated
    · exact fun _ _ _ => hwritable
  cases hw : env.tunWrite c.out with
  | false =>
    rw [confirmConnect_refused hw]
    exact hwrote rfl rfl rfl (by simp)
  | true =>
    simp only [confirmConnect, writeSynAck, writeOrClose_eq, hw, if_true]
    exact hwrote rfl rfl rfl (by simp)

theorem socksNext_handshake (h : Answering args version past pre c) :
    Handshake args version past pre (socksNext env args c) := by
  cases hsocks : c.tcp.socks5 with
  | connected =>
    simp only [socksNext, hsocks]
    exact confirmConnect_handshake h.handshake (h.listen hsocks) hsocks
  | hello | auth | connect =>
    simp only [socksNext, hsocks]
    exact h.handshake.aside (socksSend_aside env _ c)
  | failed | none =>
    simp only [socksNext, hsocks]
    exact h.handshake

theorem checkListen_handshake {ev : Events} (h : Handshake args version past pre c)
    (hstate : c.tcp.state = .listen) (hsocks : c.tcp.socks5 ≠ .connected)
    (hready : ev.epollOut = true → Writable past) :
    Handshake args version past pre (checkListen env args ev c) := by
  obtain ⟨hnegotiated, hwritable⟩ := h.listening hstate
  apply socksNext_handshake
  split
  next hnone =>
    split
    next hout =>
      rw [hnone] at hnegotiated
      have hreplies := hnegotiated.of_none
      have hstart : Negotiated args.proxy version (if args.proxy then .hello else .connected)
          (Trace.replies (pre ++ c.out)) := by
        rw [hreplies]
        cases hproxy : args.proxy with
        | true => exact .hello rfl
        | false => exact .direct rfl
      refine ⟨⟨h.family, fun _ => ⟨hstart, .inr (hready hout)⟩, .inr ⟨_, hstart⟩, h.accepted,
        h.writable⟩, fun _ => hstate⟩
    next => exact ⟨h, fun hconnected => absurd hconnected hsocks⟩
  next hdialogue =>
    split
    · exact socksRecv_answering h (hwritable.resolve_left hdialogue) hstate hsocks
    · exact ⟨h, fun hconnected => absurd hconnected hsocks⟩

end Dialogue

section Run
variable {args : Arguments} {version : IpVersion} {past : List (Env × TcpEvent)} {c : Conn}

theorem Handshake.step (h : Handshake args version past [] c) (hdialing : c.Dialing)
    (e : Env × TcpEvent) : Handshake args version (past ++ [e]) [] (c.step args e) := by
  by_cases hdials : e.2.Dials c
  · obtain ⟨env, event⟩ := e
    obtain ⟨hstate, ev, rfl, herr⟩ := hdials
    have hlisten : TcpEvent.handle env args (.socket ev) { c with out := [] } =
        checkListen env args ev { c with out := [] } := by
      simp [TcpEvent.handle, checkTcpSocket, herr, hstate]
    have hnow : Handshake args version (past ++ [(env, .socket ev)]) c.out
        { c with out := [] } := by
      obtain ⟨hfamily, hlistening, hwelcome, haccepted, hwritable⟩ := h.later (env, .socket ev)
      refine ⟨hfamily, ?_, ?_, ?_, ?_⟩
      all_goals rwa [List.append_nil]
    have hready : ev.epollOut = true → Writable (past ++ [(env, .socket ev)]) :=
      fun hout => ⟨_, List.mem_append_right _ (List.mem_singleton_self _), ev, rfl, hout, herr⟩
    obtain ⟨hfamily, hlistening, hwelcome, haccepted, hwritable⟩ :=
      checkListen_handshake hnow hstate (hdialing hstate) hready
    simp only [Conn.step, hlisten]
    exact ⟨hfamily, hlistening, hwelcome, haccepted, hwritable⟩
  · exact (h.later e).aside (Acts.step args e hdials hdialing).aside

theorem Syn.Listening.handshake {syn : Syn} (h : syn.Listening c) :
    Handshake args syn.flow.version [] [] c := by
  have haside : ∀ o ∈ c.out, o.isSynAck = false ∧ o.reply? = none :=
    fun o ho => Output.noReply_of_opening (h.out o ho)
  have hreplies : Trace.replies ([] ++ c.out) = [] :=
    Trace.replies_aside fun o ho => (haside o ho).2
  refine ⟨congrArg (fun flow => flow.version) h.flow, fun _ => ⟨?_, .inl h.socks5⟩,
    .inr ⟨.none, ?_⟩, ?_, ?_⟩
  · rw [hreplies, h.socks5]
    exact .waiting
  · rw [hreplies]
    exact .waiting
  · apply Timed.of_forall
    intro o ho before hack
    rw [(haside o ho).1] at hack
    exact absurd hack Bool.false_ne_true
  · intro o ho hack
    rw [(haside o ho).1] at hack
    exact absurd hack Bool.false_ne_true

/-- A SYN-ACK is written only once the socket was reported writable and the proxy, if there
is one, has connected; after any other reply of the proxy the session is over. -/
theorem Syn.Opens.synAck_after_connect {syn : Syn} (hopens : syn.Opens args c)
    (es : List (Env × TcpEvent)) :
    Timed (fun pre o => o.isSynAck = true →
      Negotiated args.proxy syn.flow.version .connected (Trace.replies pre)) (c.run args es).out ∧
    (∀ o ∈ (c.run args es).out, o.isSynAck = true → Writable es) ∧
    ((∀ socks5, ¬ Negotiated args.proxy syn.flow.version socks5 (c.run args es).out.replies) →
      (c.run args es).tcp.state.Over) := by
  obtain ⟨d, hd, hacts⟩ := hopens.listening False
  have hstart : Handshake args syn.flow.version [] [] c := hd.handshake.aside hacts.aside
  have hrun : Run.Along (Conn.step args) (fun _ _ => True) c es :=
    Run.Along.of_forall (fun _ _ => trivial) c es
  obtain ⟨-, hend⟩ := hrun.history
    (P := fun past c => c.Dialing ∧ Handshake args syn.flow.version past [] c)
    (fun past c e _ h => ⟨Run.chain_invariant (P := fun s : Stage => s.conn.Dialing)
      (fun _ _ => Move.dialing) (Moves.step args e h.1) h.1, h.2.step h.1 e⟩)
    [] ⟨hopens.dialing, hstart⟩
  refine ⟨hend.accepted, hend.writable, ?_⟩
  intro hnone
  exact hend.welcome.resolve_right (fun ⟨socks5, hnegotiated⟩ => hnone socks5 hnegotiated)

/-- Settings with a proxy, and the sample session opened through it. -/
def Arguments.proxied : Arguments :=
  { Arguments.direct with socks5Addr := [10, 8, 0, 1], socks5Port := 1080 }

def Conn.proxied : Conn :=
  { Conn.sample 100 ⟨[], length_nil_lt⟩ with
    out := [.socket 7, .nonBlocking 7 true,
      .connect 7 [10, 8, 0, 1] 1080 true, .probe 7, .epollCtl 7 ⟨false, true, true⟩ true] }

theorem Conn.proxied_opens : (Syn.sample 100 ⟨[], length_nil_lt⟩).Opens .proxied .proxied := by
  have hbuffer : getReceiveBuffer 7 0 0 = 163840 := rfl
  refine ⟨.calm, Conn.proxied.out, ?_⟩
  simp [newTcpSession, openTcpSocket, probeBuffer, Env.calm, Arguments.proxy, Arguments.proxied,
    Arguments.direct, Syn.sample, Conn.proxied, Conn.sample, Conn.emit, hbuffer, getReceiveWindow,
    synSession, toForward]

/-- The proxy says what fits into the buffer. -/
def Env.answering (reply : List UInt8) (hreply : reply ≠ []) : Env :=
  { Env.calm with recv := fun _ size =>
      if h : reply.length ≤ size then .data reply ⟨hreply, h⟩ else .retry }

/-- A proxy lets the engine in without a password and connects. -/
def dialled : List (Env × TcpEvent) :=
  [(.calm, .ready false true), (.answering [5, 0] (by decide), .ready true true),
    (.answering [5, 0, 0, 1, 10, 8, 0, 1, 4, 56] (by decide), .ready true true)]

theorem Syn.Opens.synAck_after_connect_sample : ∃ before o after,
    (Conn.proxied.run .proxied dialled).out = before ++ o :: after ∧ o.isSynAck = true ∧
      Negotiated true .v4 .connected (Trace.replies before) ∧ Writable dialled := by
  have hwritten : (Conn.proxied.run .proxied dialled).out.any Output.isSynAck = true := rfl
  obtain ⟨o, ho, hack⟩ := List.any_eq_true.mp hwritten
  obtain ⟨before, after, hsplit⟩ := List.append_of_mem ho
  have hconnects := Syn.Opens.synAck_after_connect Conn.proxied_opens dialled
  exact ⟨before, o, after, hsplit, hack, hconnects.1 before o after hsplit hack,
    hconnects.2.1 o ho hack⟩

end Run

end NetGuard.Engine
