import NetGuard.Loop.Creators

/-! # Echo replies

A reply is addressed to the request that caused it by its identifier. Each ICMP session is
labelled with the identifiers of the requests that went out on its socket and that may still
be answered, in order; a reply says how many of them it passes over.
-/
namespace NetGuard.Engine
open Relation (ReflTransGen)

section Messages

/-- The identifier of an ICMP message. -/
def icmpId (message : List UInt8) : UInt16 :=
  (message.getD 4 0).toUInt16 * 256 + (message.getD 5 0).toUInt16

theorem netWord_word (w : UInt16) :
    (UInt8.ofNat (w.toNat / 256)).toUInt16 * 256 + (UInt8.ofNat w.toNat).toUInt16 = w := by
  have hw := w.toNat_lt
  rw [← UInt16.toNat_inj]
  simp only [UInt16.toNat_add, UInt16.toNat_mul, UInt8.toNat_toUInt16, UInt8.toNat_ofNat',
    UInt16.reduceToNat]
  omega

theorem icmpId_rewriteIcmp (csum id : UInt16) {message : List UInt8} (hlength : 8 ≤ message.length) :
    icmpId (rewriteIcmp csum id message) = id := by
  rcases message with _ | ⟨a, _ | ⟨b, _ | ⟨c, _ | ⟨d, _ | ⟨e, _ | ⟨f, rest⟩⟩⟩⟩⟩⟩
  all_goals try simp at hlength
  simpa [icmpId, rewriteIcmp, patchIcmp, hostWord, netWord] using netWord_word id

end Messages

section Silence

def Output.isReply : Output → Bool
  | .tun (.icmp _ _) _ => true
  | _ => false

/-- No ICMP message is written to the tun. -/
def Trace.Silent (out : Trace) : Prop := ∀ o ∈ out, o.isReply = false

theorem Trace.For.silent {key : SessionKey} {out : Trace} (h : Trace.For key out)
    (hkey : ∀ ends, key ≠ .icmp ends) : Trace.Silent out := by
  intro o ho
  have hfor := h o ho
  cases o with
  | tun packet written =>
    cases packet with
    | icmp cur data => exact absurd hfor.symm (hkey _)
    | _ => rfl
  | _ => rfl

theorem Trace.Silent.append {out out' : Trace} (h : Trace.Silent out) (h' : Trace.Silent out') :
    Trace.Silent (out ++ out') := by
  intro o ho
  rcases List.mem_append.mp ho with ho | ho
  · exact h o ho
  · exact h' o ho

theorem Output.isReply_of_upcall {o : Output} (h : o.isUpcall = true) : o.isReply = false := by
  cases o with
  | upcall => rfl
  | _ => exact absurd h Bool.false_ne_true

variable {env : Env} {args : Arguments} {s t : NgSession} {os out : Trace}

theorem Touched.silent (h : Touched args s os t) (hs : s.Tcp Conn.Dialing)
    (hicmp : ∀ cur sock, s ≠ .icmp cur sock) : Trace.Silent os := by
  apply (h.for hs).2.1.silent
  cases s with
  | icmp cur sock => exact absurd rfl (hicmp cur sock)
  | udp => exact fun _ => SessionKey.noConfusion
  | tcp => exact fun _ => SessionKey.noConfusion

theorem checkAllowedEntry_silent (cur : IcmpSession) (sock : Int) (out : Trace) :
    ∃ os, (checkAllowedEntry env args (.icmp cur sock) out).2 = out ++ os ∧ Trace.Silent os := by
  simp only [checkAllowedEntry]
  split
  · exact ⟨[], by simp, by simp [Trace.Silent]⟩
  · exact ⟨_, rfl, by simp [Trace.Silent, Output.isReply]⟩

theorem checkEntry_silent (sessions maxsessions : Int) (cur : IcmpSession) (sock : Int)
    (out : Trace) : ∃ os,
      (checkEntry env sessions maxsessions (.icmp cur sock) out).2 = out ++ os ∧
        Trace.Silent os := by
  simp only [checkEntry, checkIcmpSession]
  split
  · exact ⟨_, rfl, by simp [Trace.Silent, Echo.emit, Output.isReply]⟩
  · exact ⟨_, rfl, by simp [Trace.Silent]⟩

theorem clearEntry_silent (s : NgSession) (out : Trace) :
    ∃ os, (clearEntry s out).2 = out ++ os ∧ Trace.Silent os := by
  rw [clearEntry_eq]
  dsimp only
  split
  · exact ⟨_, rfl, by simp [Trace.Silent, Output.isReply]⟩
  · exact ⟨[], by simp, by simp [Trace.Silent]⟩

end Silence

section Asked
variable {args : Arguments} {s t : NgSession} {os : Trace} {ids : List UInt16}

/-- The identifiers are the one the session puts on its replies. -/
def NgSession.Asked (s : NgSession) (ids : List UInt16) : Prop :=
  s.Tcp Conn.Dialing ∧ ∀ cur sock, s = .icmp cur sock → ∀ id ∈ ids, id = cur.id

abbrev Asked (list : List NgSession) (asked : List (List UInt16)) : Prop :=
  List.Forall₂ NgSession.Asked list asked

theorem EchoMoves.id {e e' : Echo} (h : EchoMoves e e') : e'.icmp.id = e.icmp.id := by
  refine Run.chain_invariant (P := fun x : Echo => x.icmp.id = e.icmp.id) ?_ h rfl
  intro x y hmove hx
  cases hmove <;> exact hx

theorem Touched.asked (h : Touched args s os t) (hs : s.Asked ids) : t.Asked ids := by
  refine ⟨(h.for hs.1).2.2, ?_⟩
  rintro cur sock rfl id hid
  cases h with
  | icmp hmoves =>
    rw [hmoves.id]
    exact hs.2 _ _ rfl id hid

theorem Swept.asked {r : Option NgSession × Trace} {out : Trace} (h : Swept args s out r)
    (hs : s.Asked ids) : ∀ t ∈ r.1, t.Asked ids := by
  cases h with
  | untouched =>
    rintro _ ⟨⟩
    exact hs
  | kept htouched =>
    rintro _ ⟨⟩
    exact htouched.asked hs
  | dropped => simp
  | cleared => simp [clearEntry_eq]

/-- A loop over the entries keeps the labels of those it keeps and writes no reply, if it
writes none for the ICMP entries. -/
theorem sweep_asked {f : NgSession → Trace → Option NgSession × Trace}
    (hf : ∀ s out, Swept args s out (f s out))
    (hicmp : ∀ cur sock out, ∃ os, (f (.icmp cur sock) out).2 = out ++ os ∧ Trace.Silent os)
    {list : List NgSession} {asked : List (List UInt16)} (h : Asked list asked) (out : Trace) :
    Asked (Table.sweep f list out).1 (Table.labels f list asked out) ∧
      ∃ os, (Table.sweep f list out).2 = out ++ os ∧ Trace.Silent os := by
  have hswept := Table.sweep_labels (f := f) (R := NgSession.Asked)
    (Q := fun _ o => o.isReply = false) ?_ h out
  · obtain ⟨hkept, os, hout, hos⟩ := hswept
    refine ⟨hkept, os, hout, ?_⟩
    intro o ho
    obtain ⟨_, -, hsilent⟩ := hos o ho
    exact hsilent
  · intro s ids out hs
    refine ⟨(hf s out).asked hs, ?_⟩
    have hother (hkey : ∀ ends, s.key ≠ .icmp ends) :
        ∃ os, (f s out).2 = out ++ os ∧ Trace.Silent os := by
      obtain ⟨-, os, hout, hos⟩ := (hf s out).for hs.1
      exact ⟨os, hout, hos.silent hkey⟩
    cases s with
    | icmp cur sock => exact hicmp cur sock out
    | udp => exact hother fun _ => SessionKey.noConfusion
    | tcp => exact hother fun _ => SessionKey.noConfusion

/-- What is read from the socket is written to the tun with the identifier of the session. -/
theorem readReply_out (env : Env) (args : Arguments) (bytes : List UInt8) (e : Echo) :
    ∃ written us, (readReply env args bytes e).out =
      e.out ++ .tun (.icmp e.icmp (rewriteIcmp (replyChecksum e.icmp bytes.length) e.icmp.id bytes))
        written :: us ∧ ∀ o ∈ us, ∃ u, o = .upcall u := by
  let answered := e.emit (.tun (.icmp e.icmp
    (rewriteIcmp (replyChecksum e.icmp bytes.length) e.icmp.id bytes)) (env.tunWrite e.out))
  let read := if env.tunWrite e.out then answered else { answered with icmp.stop := true }
  have hread : read.out = answered.out := by
    simp only [read]
    split <;> rfl
  obtain ⟨us, hlog, hus⟩ := logIncoming_upcalls env args read.icmp.query bytes.length
    read.icmp.uid read.out
  refine ⟨env.tunWrite e.out, us, ?_, hus⟩
  have hout : (readReply env args bytes e).out = logIncoming env args read.icmp.query bytes.length
    read.icmp.uid read.out := rfl
  rw [hout, hlog, hread]
  simp [answered, Echo.emit]

theorem checkIcmpSocket_out (env : Env) (args : Arguments) (ev : Events) (cur : IcmpSession)
    (sock : Int) : Trace.Silent (checkIcmpSocket env args ev ⟨cur, sock, []⟩).out ∨
      ∃ cur' csum bytes written us, bytes ≠ [] ∧
        (checkIcmpSocket env args ev ⟨cur, sock, []⟩).out =
          .recv sock bytes :: .tun (.icmp cur' (rewriteIcmp csum cur.id bytes)) written :: us ∧
        Trace.Silent us := by
  unfold checkIcmpSocket
  split
  · exact .inl (by simp [Trace.Silent])
  split
  · dsimp only
    split
    next bytes hbytes hrecv =>
      obtain ⟨written, us, hout, hus⟩ := readReply_out env args bytes
        (Echo.emit ⟨{ cur with time := env.time [] }, sock, []⟩ (.recv sock bytes))
      refine .inr ⟨_, _, bytes, written, us, hbytes.1, hout, ?_⟩
      intro o ho
      obtain ⟨u, rfl⟩ := hus o ho
      rfl
    · exact .inl (by simp [Trace.Silent, Echo.emit, Output.isReply])
    · exact .inl (by simp [Trace.Silent, Echo.emit, Output.isReply])
    · exact .inl (by simp [Trace.Silent, Echo.emit, Output.isReply])
  · exact .inl (by simp [Trace.Silent])

end Asked

section Requests

/-- The hosts and the identifier of an echo request. -/
def Packet.echoRequest (args : Arguments) (p : Packet) : Option (Endpoints × UInt16) :=
  match parseIp args p with
  | .ok h =>
    if h.isIcmp && p.mem h.payload == icmpEcho then
      some (⟨h.version, p.saddr h.version, p.daddr h.version⟩, p.be16 (h.payload + 4))
    else none
  | _ => none

def Output.isSent : Output → Bool
  | .sendto _ _ _ _ ok => ok
  | _ => false

/-- A live ICMP session between the hosts puts the identifier on its replies. -/
def NgSession.Restores (ends : Endpoints) (id : UInt16) (s : NgSession) : Prop :=
  ∀ cur sock, s = .icmp cur sock → s.isIcmp ends = true → cur.id = id

variable {env : Env} {args : Arguments} {p : Packet} {h : IpHdr} {through : Bool} {uid : Int}
  {ctx ctx' : Context} {asked : List (List UInt16)}

/-- What a handler leaves of the labelled list: at most one new entry, without requests yet. -/
def Filed (asked : List (List UInt16)) (list list' : List NgSession) : Prop :=
  (list'.length = list.length ∧ Asked list' asked) ∨
    (list'.length = list.length + 1 ∧ Asked list' ([] :: asked))

theorem Filed.found {before rest : List NgSession} {s t : NgSession}
    (h : Asked (before ++ s :: rest) asked) (ht : ∀ ids, s.Asked ids → t.Asked ids) :
    Filed asked (before ++ s :: rest) (before ++ t :: rest) :=
  .inl ⟨by simp, Table.replace_labels ht h⟩

theorem Filed.cons {list : List NgSession} {t : NgSession} (h : Asked list asked)
    (ht : t.Tcp Conn.Dialing) : Filed asked list (t :: list) :=
  .inr ⟨rfl, .cons ⟨ht, by simp⟩ h⟩

theorem IcmpHandled.filed (hhandled : IcmpHandled env args p h.version h.payload uid ctx ctx')
    (hasked : Asked ctx.ngSession asked) : Filed asked ctx.ngSession ctx'.ngSession := by
  cases hhandled with
  | ignored => exact .inl ⟨rfl, hasked⟩
  | @found before rest s s' sock e hecho hlist hends hstop hs' he =>
    rw [hlist] at hasked ⊢
    refine .found hasked fun ids hs => ⟨trivial, ?_⟩
    rintro _ _ ⟨⟩ id hid
    have hid' : s'.id = s.id := by
      rw [hs']
      split <;> rfl
    rw [he, (EchoMoves.sendRequest _ _ _ _).id, hid']
    exact hs.2 _ _ rfl id hid
  | refused => exact .inl ⟨rfl, hasked⟩
  | opened => exact .cons hasked trivial

/-- After an echo request was handled the live session between its hosts restores its
identifier, if it did before. -/
theorem IcmpHandled.restores (hhandled : IcmpHandled env args p h.version h.payload uid ctx ctx')
    (hbefore : ∀ s ∈ ctx.ngSession, s.Restores
      ⟨h.version, p.saddr h.version, p.daddr h.version⟩ (p.be16 (h.payload + 4))) :
    ∀ s ∈ ctx'.ngSession, s.Restores
      ⟨h.version, p.saddr h.version, p.daddr h.version⟩ (p.be16 (h.payload + 4)) := by
  cases hhandled with
  | ignored => exact hbefore
  | @found before rest s s' sock e hecho hlist hends hstop hs' he =>
    rw [hlist] at hbefore
    intro t ht
    rcases List.mem_append.mp ht with ht | ht
    · exact hbefore t (List.mem_append_left _ ht)
    rcases List.mem_cons.mp ht with rfl | ht
    · rintro _ _ ⟨⟩ -
      have hid' : s'.id = s.id := by
        rw [hs']
        split <;> rfl
      rw [he, (EchoMoves.sendRequest _ _ _ _).id, hid']
      exact hbefore (.icmp s sock) (by simp) s sock rfl (by simp [NgSession.isIcmp, hstop, hends])
    · exact hbefore t (List.mem_append_right _ (List.mem_cons_of_mem _ ht))
  | refused => exact hbefore
  | @opened e₀ e out hecho hnone hopened he =>
    obtain ⟨-, rfl⟩ := newIcmpSession_some hopened
    intro t ht
    rcases List.mem_cons.mp ht with rfl | ht
    · rintro _ _ ⟨⟩ -
      rw [he, (EchoMoves.sendRequest _ _ _ _).id]
    · exact hbefore t ht

theorem UdpHandled.filed (hhandled : UdpHandled env args p h.version h.payload uid ctx ctx')
    (hasked : Asked ctx.ngSession asked) : Filed asked ctx.ngSession ctx'.ngSession := by
  cases hhandled with
  | ignored => exact .inl ⟨rfl, hasked⟩
  | found hlist =>
    rw [hlist] at hasked ⊢
    exact .found hasked fun ids hs => ⟨trivial, nofun⟩
  | refused => exact .inl ⟨rfl, hasked⟩
  | opened => exact .cons hasked trivial

theorem TcpHandled.filed
    (hhandled : TcpHandled env args p h.version h.payload uid through ctx ctx')
    (hasked : Asked ctx.ngSession asked) : Filed asked ctx.ngSession ctx'.ngSession := by
  cases hhandled with
  | urgent => exact .inl ⟨rfl, hasked⟩
  | @found before rest s sock events c hurg hlist hflow hc =>
    have htouched : Touched args (.tcp s sock events) _ _ := .tcp s sock events (env.after ctx.out)
      (.segment (p.tcphdr h.payload) (p.payloadFrom (p.tcpData h.payload)) uid through)
    simp only [TcpEvent.handle, hurg, Bool.false_eq_true, if_false, ← hc] at htouched
    rw [hlist] at hasked ⊢
    exact .found hasked fun ids hs => htouched.asked hs
  | endless => exact .inl ⟨rfl, hasked⟩
  | @syn mss ws opened out hurg hnone hsyn hoptions hopened =>
    cases opened with
    | none => exact .inl ⟨rfl, hasked⟩
    | some c =>
      have hopens : Syn.Opens args ⟨p.flow h.payload h.version, p.tcphdr h.payload,
          p.payloadFrom (p.tcpData h.payload), mss, ws, uid, through⟩ c :=
        ⟨env.after ctx.out, out, hopened⟩
      exact .cons hasked hopens.dialing
  | unknown => exact .inl ⟨rfl, hasked⟩

end Requests

section Handlers
variable {env : Env} {args : Arguments} {p : Packet} {h : IpHdr} {through : Bool} {uid : Int}
  {ctx ctx' : Context} {asked : List (List UInt16)}

theorem openUdpSocket_silent (env : Env) (args : Arguments) :
    Trace.Silent (openUdpSocket env args []).2 :=
  (openUdpSocket_for (.udp ⟨⟨.v4, [], []⟩, 0, 0⟩) env args).silent fun _ => SessionKey.noConfusion

theorem watch_silent (env : Env) (args : Arguments) :
    Trace.Silent (env.watch (openUdpSocket env args [])) :=
  (openUdpSocket_silent env args).append (by simp [Trace.Silent, Output.isReply])

theorem sendRequest_silent {daddr : Address} {message : List UInt8} {e : Echo}
    (he : Trace.Silent e.out) : Trace.Silent (sendRequest env daddr message e).out := by
  simp only [sendRequest]
  split
  all_goals exact he.append (by simp [Trace.Silent, Output.isReply])

theorem Forwarded.silent {flow : Flow} {data : List UInt8} {d d' : Datagram}
    (h : Forwarded flow data d d') (hd : Trace.Silent d.out) : Trace.Silent d'.out := by
  cases h with
  | answered hanswers written => exact hd.append (by simp [Trace.Silent, Output.isReply])
  | ignored => exact hd
  | sent htakes hmoves ok hout =>
    rw [hout]
    exact hd.append (by simp [Trace.Silent, Output.isReply])

theorem IcmpHandled.silent (hhandled : IcmpHandled env args p h.version h.payload uid ctx ctx') :
    ∃ os, ctx'.out = ctx.out ++ os ∧ Trace.Silent os := by
  cases hhandled with
  | ignored => exact ⟨[], by simp, by simp [Trace.Silent]⟩
  | found hecho hlist hends hstop hs' he =>
    refine ⟨_, rfl, ?_⟩
    rw [he]
    exact sendRequest_silent (by simp [Trace.Silent])
  | refused hecho hnone hopened =>
    obtain ⟨-, rfl⟩ := newIcmpSession_none hopened
    exact ⟨_, rfl, openUdpSocket_silent _ _⟩
  | opened hecho hnone hopened he =>
    obtain ⟨-, rfl⟩ := newIcmpSession_some hopened
    refine ⟨_, rfl, ?_⟩
    rw [he]
    exact sendRequest_silent (watch_silent _ _)

theorem UdpHandled.silent (hhandled : UdpHandled env args p h.version h.payload uid ctx ctx') :
    ∃ os, ctx'.out = ctx.out ++ os ∧ Trace.Silent os := by
  have hforwarded (d : Datagram) := (forwardDatagram_forwarded (env.after ctx.out)
    (p.flow h.payload h.version) (p.udpData h.payload) d).silent
  cases hhandled with
  | ignored => exact ⟨[], by simp, by simp [Trace.Silent]⟩
  | found hlist hflow hstate hs' hd =>
    refine ⟨_, rfl, ?_⟩
    rw [hd]
    exact hforwarded _ (by simp [Trace.Silent])
  | refused hnone hopened =>
    obtain ⟨-, rfl⟩ := newUdpSession_none hopened
    exact ⟨_, rfl, openUdpSocket_silent _ _⟩
  | opened hnone hopened hd =>
    obtain ⟨-, rfl⟩ := newUdpSession_some hopened
    refine ⟨_, rfl, ?_⟩
    rw [hd]
    exact hforwarded _ (watch_silent _ _)

theorem TcpHandled.silent
    (hhandled : TcpHandled env args p h.version h.payload uid through ctx ctx')
    (htcp : h.protocol = ipprotoTcp) (hall : AllTcp Conn.Dialing ctx.ngSession) :
    ∃ os, ctx'.out = ctx.out ++ os ∧ Trace.Silent os := by
  have hcreated : CreatedBy ctx.ngSession (ctx.ngSession.map NgSession.key) := by
    rw [CreatedBy, List.forall₂_map_right_iff, List.forall₂_same]
    intro s hs
    exact ⟨rfl, hall s hs⟩
  obtain ⟨os, hout, hos⟩ := (hhandled.files htcp hcreated).out
  rw [IpHdr.key_tcp htcp] at hos
  exact ⟨os, hout, hos.silent fun _ => SessionKey.noConfusion⟩

theorem Asked.dialing {list : List NgSession} (h : Asked list asked) :
    AllTcp Conn.Dialing list := Table.forall_of_labels (fun _ _ hs => hs.1) h

theorem PacketHandled.filed (hhandled : PacketHandled env args p h through uid ctx ctx')
    (hasked : Asked ctx.ngSession asked) :
    Filed asked ctx.ngSession ctx'.ngSession ∧
      ∃ os, ctx'.out = ctx.out ++ os ∧ Trace.Silent os := by
  cases hhandled with
  | icmp hthrough hicmp hhandled => exact ⟨hhandled.filed hasked, hhandled.silent⟩
  | udp hthrough hudp hhandled => exact ⟨hhandled.filed hasked, hhandled.silent⟩
  | tcp htcp hhandled => exact ⟨hhandled.filed hasked, hhandled.silent htcp hasked.dialing⟩
  | blocked =>
    exact ⟨.cons hasked trivial, [], by simp [blockUdp], by simp [Trace.Silent]⟩
  | other => exact ⟨.inl ⟨rfl, hasked⟩, [], by simp, by simp [Trace.Silent]⟩

end Handlers

section Loop

/-- The calls of one event. -/
def EventLoop.outputs (l : EventLoop) (e : Env × LoopEvent) : Trace :=
  (l.step e).out.drop l.out.length

theorem EventLoop.outputs_eq (l : EventLoop) (e : Env × LoopEvent) :
    l.outputs e = (e.2.handle e.1 { l with out := [] }).out := by
  simp [EventLoop.outputs, EventLoop.step]

/-- The labels after an event: a request that went out is added to those of the live session
between its hosts, and a reply takes away the one it answers and those it passes over. -/
def EventLoop.asked (l : EventLoop) (asked : List (List UInt16)) (e : Env × LoopEvent)
    (passed : Nat) : List (List UInt16) :=
  match e.2 with
  | .start args _ => Table.labels (checkAllowedEntry e.1 args) l.ngSession asked []
  | .head =>
    let (list, out) := Table.sweep (monitorEntry e.1) l.ngSession []
    let asked := Table.labels (monitorEntry e.1) l.ngSession asked []
    if e.1.ms out - l.lastCheck > epollMinCheck then
      Table.labels (checkEntry e.1 (countSessions l.ngSession) l.maxsessions) list asked out
    else asked
  | .tun p =>
    let list := (l.step e).ngSession
    let asked := if l.ngSession.length < list.length then [] :: asked else asked
    match p.echoRequest l.args with
    | some (ends, id) =>
      if (l.outputs e).any Output.isSent then
        asked.modify (list.findIdx (NgSession.isIcmp ends)) (· ++ [id])
      else asked
    | none => asked
  | .socket i _ =>
    if (l.outputs e).any Output.isReply then asked.modify i (List.drop (passed + 1)) else asked
  | .clear => Table.labels clearEntry l.ngSession asked []

/-- A state of the loop with its labels. -/
structure Pinged where
  loop : EventLoop
  asked : List (List UInt16)

/-- One event, and how many of the requests it passes over if it reads a reply. -/
abbrev PingEvent : Type := (Env × LoopEvent) × Nat

def Pinged.init (args : Arguments) : Pinged := ⟨.init args, []⟩

def Pinged.step (s : Pinged) (e : PingEvent) : Pinged :=
  ⟨s.loop.step e.1, s.loop.asked s.asked e.1 e.2⟩

/-- What is read from an ICMP socket is an ICMP message that answers one of the requests that
went out on the socket, behind those answered before. -/
def Pinged.Answers (s : Pinged) (e : PingEvent) : Prop :=
  ∀ i ev cur sock fd bytes, e.1.2 = .socket i ev → s.loop.ngSession[i]? = some (.icmp cur sock) →
    bytes ≠ [] → .recv fd bytes ∈ s.loop.outputs e.1 →
    8 ≤ bytes.length ∧ e.2 < (s.asked.getD i []).length

/-- Whatever ICMP message the next event writes to the tun has the identifier of the request
that it answers. -/
def Pinged.Returns (s : Pinged) : Prop :=
  ∀ e : PingEvent, s.Answers e → ∀ cur data written,
    .tun (.icmp cur data) written ∈ s.loop.outputs e.1 →
    ∃ i ev, e.1.2 = .socket i ev ∧ (s.asked.getD i [])[e.2]? = some (icmpId data)

/-- An echo request that is let through has the identifier that the live session between its
hosts has stored. -/
def EventLoop.OneId (l : EventLoop) (e : Env × LoopEvent) : Prop :=
  ∀ p h, e.2 = .tun p → Judged l.args p l.sessions l.maxsessions l.ngSession h →
    letThrough e.1 l.args p h ⟨l.ngSession, []⟩ = true → h.isIcmp = true →
    p.mem h.payload = icmpEcho →
    ∀ s ∈ l.ngSession, s.Restores ⟨h.version, p.saddr h.version, p.daddr h.version⟩
      (p.be16 (h.payload + 4))

variable {l : EventLoop} {asked : List (List UInt16)}

theorem handleIp_filed {env : Env} {args : Arguments} {p : Packet} {h : IpHdr} {ctx ctx' : Context}
    (hlogged : (handlePacket env args p h ctx).Asks ctx') (hasked : Asked ctx.ngSession asked) :
    Filed asked ctx.ngSession ctx'.ngSession ∧
      ∃ os, ctx'.out = ctx.out ++ os ∧ Trace.Silent os := by
  have hasks := judgePacket_asks env p h ctx
  have hjudged : Asked (judgePacket env p h ctx).2.2.2.ngSession asked := by
    rwa [hasks.ngSession]
  have hhandled : PacketHandled env args p h _ _ _ (handlePacket env args p h ctx) :=
    handlePacket_handled
  obtain ⟨hfiled, os, hout, hos⟩ := hhandled.filed hjudged
  rw [hasks.ngSession, ← hlogged.ngSession] at hfiled
  obtain ⟨us, hus, hupcalls⟩ := hasks
  obtain ⟨vs, hvs, hlogs⟩ := hlogged
  refine ⟨hfiled, us ++ os ++ vs, by rw [hvs, hout, hus]; simp, ?_⟩
  have hsilent {os : Trace} (h : ∀ o ∈ os, o.isUpcall = true) : Trace.Silent os :=
    fun o ho => Output.isReply_of_upcall (h o ho)
  exact ((hsilent hupcalls).append hos).append (hsilent hlogs)

/-- A request that went out is one on a session that restores its identifier. -/
theorem handlePacket_restores {env : Env} {args : Arguments} {p : Packet} {h : IpHdr}
    {ctx ctx' : Context} (hlogged : (handlePacket env args p h ctx).Asks ctx')
    (hout : ctx.out = []) (hicmp : h.isIcmp = true) (hsent : ctx'.out.any Output.isSent = true)
    (hone : letThrough env args p h ctx = true → ∀ s ∈ ctx.ngSession, s.Restores
      ⟨h.version, p.saddr h.version, p.daddr h.version⟩ (p.be16 (h.payload + 4))) :
    ∀ s ∈ ctx'.ngSession, s.Restores
      ⟨h.version, p.saddr h.version, p.daddr h.version⟩ (p.be16 (h.payload + 4)) := by
  have hasks := judgePacket_asks env p h ctx
  have hhandled : PacketHandled env args p h _ _ _ (handlePacket env args p h ctx) :=
    handlePacket_handled
  rw [hlogged.ngSession]
  generalize handlePacket env args p h ctx = handled at hhandled hlogged
  cases hhandled with
  | icmp hthrough _ hhandled =>
    apply hhandled.restores
    rw [hasks.ngSession]
    exact hone hthrough
  | udp hthrough hudp =>
    rw [IpHdr.isIcmp_udp hudp] at hicmp
    exact absurd hicmp Bool.false_ne_true
  | tcp htcp =>
    rw [IpHdr.isIcmp_tcp htcp] at hicmp
    exact absurd hicmp Bool.false_ne_true
  | blocked hthrough hudp =>
    rw [IpHdr.isIcmp_udp hudp] at hicmp
    exact absurd hicmp Bool.false_ne_true
  | other =>
    -- nothing but upcalls: no request went out
    obtain ⟨us, rfl, hus⟩ := hasks.trans hlogged
    rw [hout, List.nil_append, List.any_eq_true] at hsent
    obtain ⟨o, ho, hosent⟩ := hsent
    have hupcall := hus o ho
    cases o with
    | upcall => exact absurd hosent Bool.false_ne_true
    | _ => exact absurd hupcall Bool.false_ne_true

theorem EventLoop.tun_silent (env : Env) (p : Packet) (hasked : Asked l.ngSession asked) :
    Trace.Silent (l.outputs (env, .tun p)) := by
  rw [EventLoop.outputs_eq]
  have hhandled : IpHandled env l.args p l.sessions l.maxsessions ⟨l.ngSession, []⟩ _ :=
    handleIp_handled
  simp only [LoopEvent.handle, EventLoop.tun]
  generalize handleIp env l.args p l.sessions l.maxsessions ⟨l.ngSession, []⟩ = ctx' at hhandled
  cases hhandled with
  | dropped => simp [Trace.Silent]
  | endless => simp [Trace.Silent, Context.emit, Output.isReply]
  | handled hjudged hlogged =>
    obtain ⟨-, os, hout, hos⟩ := handleIp_filed hlogged hasked
    rw [hout]
    simpa using hos

theorem EventLoop.tun_asked (env : Env) (p : Packet) (passed : Nat)
    (hone : l.OneId (env, .tun p)) (hasked : Asked l.ngSession asked) :
    Asked (l.step (env, .tun p)).ngSession (l.asked asked (env, .tun p) passed) := by
  have hhandled : IpHandled env l.args p l.sessions l.maxsessions ⟨l.ngSession, []⟩ _ :=
    handleIp_handled
  generalize hctx : handleIp env l.args p l.sessions l.maxsessions ⟨l.ngSession, []⟩ = ctx'
    at hhandled
  have hlist : (l.step (env, .tun p)).ngSession = ctx'.ngSession := by rw [← hctx]; rfl
  have hout : l.outputs (env, .tun p) = ctx'.out := by
    rw [EventLoop.outputs_eq, ← hctx]
    rfl
  simp only [EventLoop.asked, hlist, hout]
  cases hhandled with
  | dropped =>
    rw [if_neg (Nat.lt_irrefl _)]
    split
    · simpa using hasked
    · exact hasked
  | endless =>
    rw [Context.emit, if_neg (Nat.lt_irrefl _)]
    split
    · simpa [Output.isSent] using hasked
    · exact hasked
  | @handled h _ hjudged hlogged =>
    obtain ⟨hfiled, -⟩ := handleIp_filed hlogged hasked
    generalize hnew : (if l.ngSession.length < ctx'.ngSession.length then [] :: asked else asked) =
      asked'
    have hasked' : Asked ctx'.ngSession asked' := by
      rw [← hnew]
      rcases hfiled with ⟨hlength, hkept⟩ | ⟨hlength, hkept⟩
      · rwa [hlength, if_neg (Nat.lt_irrefl _)]
      · rwa [hlength, if_pos (Nat.lt_succ_self _)]
    split
    next ends id hrequest =>
      split
      next hsent =>
        simp only [Packet.echoRequest, hjudged.parsed] at hrequest
        split at hrequest
        next hecho =>
          obtain ⟨hicmp, htype⟩ : h.isIcmp = true ∧ p.mem h.payload = icmpEcho := by
            simpa using hecho
          obtain ⟨rfl, rfl⟩ := Prod.mk.inj (Option.some.inj hrequest)
          have hrestores := handlePacket_restores hlogged rfl hicmp hsent
            fun hthrough => hone p h rfl hjudged hthrough hicmp htype
          refine Table.modify_labels (fun s ids hs hids => ⟨hids.1, ?_⟩) hasked'
          rintro cur sock rfl id hid
          have hlive := List.findIdx_of_getElem?_eq_some hs
          rcases List.mem_append.mp hid with hid | hid
          · exact hids.2 cur sock rfl id hid
          · rw [List.mem_singleton.mp hid]
            exact (hrestores _ (List.mem_of_getElem? hs) cur sock rfl hlive).symm
        next => cases hrequest
      next => exact hasked'
    next => exact hasked'

theorem EventLoop.step_asked (l : EventLoop) (e : Env × LoopEvent) (passed : Nat)
    (hone : l.OneId e) (hasked : Asked l.ngSession asked) :
    Asked (l.step e).ngSession (l.asked asked e passed) := by
  obtain ⟨env, event⟩ := e
  cases event with
  | start args soft =>
    exact (sweep_asked (checkAllowedEntry_swept env args) (checkAllowedEntry_silent) hasked []).1
  | head =>
    have hmonitored := (sweep_asked (monitorEntry_swept env l.args)
      (fun _ _ out => ⟨[], by simp [monitorEntry], by simp [Trace.Silent]⟩) hasked []).1
    simp only [EventLoop.asked, EventLoop.step, LoopEvent.handle, EventLoop.head]
    split
    · exact (sweep_asked (fun s out => checkEntry_swept env l.args s out _ _)
        (checkEntry_silent _ _) hmonitored _).1
    · exact hmonitored
  | tun p => exact l.tun_asked env p passed hone hasked
  | socket i ev =>
    have hlist : Asked (l.step (env, .socket i ev)).ngSession asked := by
      simp only [EventLoop.step, LoopEvent.handle, EventLoop.socket]
      split
      next before s rest heq =>
        rw [Table.eq_append_of_splitAt heq] at hasked
        exact Table.replace_labels
          (fun ids hs => (checkSocket_touched (env.after []) l.args s ev).asked hs) hasked
      next => exact hasked
    simp only [EventLoop.asked]
    split
    · refine Table.modify_labels (fun s ids _ hs => ⟨hs.1, ?_⟩) hlist
      intro cur sock hcur id hid
      exact hs.2 cur sock hcur id (List.mem_of_mem_drop hid)
    · exact hlist
  | clear =>
    have hcleared (s : NgSession) (out : Trace) : Swept l.args s out (clearEntry s out) := .cleared
    exact (sweep_asked hcleared (fun cur sock out => clearEntry_silent (.icmp cur sock) out)
      hasked []).1

theorem EventLoop.step_silent (l : EventLoop) (e : Env × LoopEvent)
    (hnot : ∀ i ev, e.2 ≠ .socket i ev) (hasked : Asked l.ngSession asked) :
    Trace.Silent (l.outputs e) := by
  obtain ⟨env, event⟩ := e
  cases event with
  | start args soft =>
    obtain ⟨-, os, hout, hos⟩ := sweep_asked (checkAllowedEntry_swept env args)
      checkAllowedEntry_silent hasked []
    rw [EventLoop.outputs_eq]
    simp only [LoopEvent.handle, EventLoop.start, hout]
    simpa using hos
  | head =>
    obtain ⟨hmonitored, os, hout, hos⟩ := sweep_asked (monitorEntry_swept env l.args)
      (fun _ _ out => ⟨[], by simp [monitorEntry], by simp [Trace.Silent]⟩) hasked []
    rw [EventLoop.outputs_eq]
    simp only [LoopEvent.handle, EventLoop.head]
    split
    · obtain ⟨-, os', hout', hos'⟩ := sweep_asked (fun s out => checkEntry_swept env l.args s out
        (countSessions l.ngSession) l.maxsessions) (checkEntry_silent _ _) hmonitored
        (Table.sweep (monitorEntry env) l.ngSession []).2
      rw [hout', hout]
      simpa using hos.append hos'
    · rw [hout]
      simpa using hos
  | tun p => exact EventLoop.tun_silent env p hasked
  | socket i ev => exact absurd rfl (hnot i ev)
  | clear =>
    have hcleared (s : NgSession) (out : Trace) : Swept l.args s out (clearEntry s out) := .cleared
    obtain ⟨-, os, hout, hos⟩ := sweep_asked hcleared
      (fun cur sock out => clearEntry_silent (.icmp cur sock) out) hasked []
    rw [EventLoop.outputs_eq]
    simp only [LoopEvent.handle, EventLoop.clear, hout]
    simpa using hos

theorem EventLoop.outputs_socket (l : EventLoop) (env : Env) (i : Nat) (ev : Events) :
    l.outputs (env, .socket i ev) = match l.ngSession[i]? with
      | some s => (checkSocket (env.after []) l.args ev s).2
      | none => [] := by
  rw [EventLoop.outputs_eq, ← List.head?_drop]
  simp only [LoopEvent.handle, EventLoop.socket, List.splitAt_eq]
  cases l.ngSession.drop i with
  | nil => rfl
  | cons s rest => simp

/-- While each session is asked for with its own identifier, whatever is written to the tun
has the identifier of the request it answers. -/
theorem Asked.returns {s : Pinged} (hasked : Asked s.loop.ngSession s.asked) : s.Returns := by
  obtain ⟨l, asked⟩ := s
  rintro ⟨⟨env, event⟩, passed⟩ hanswers cur data written hmem
  have hspoken (hsilent : Trace.Silent (l.outputs (env, event))) : False :=
    absurd (hsilent _ hmem) (by simp [Output.isReply])
  by_cases hsocket : ∀ i ev, event ≠ .socket i ev
  · exact (hspoken (l.step_silent (env, event) hsocket hasked)).elim
  obtain ⟨i, ev, rfl⟩ : ∃ i ev, event = .socket i ev := by simpa using hsocket
  refine ⟨i, ev, rfl, ?_⟩
  have hout := l.outputs_socket env i ev
  cases hs : l.ngSession[i]? with
  | none =>
    rw [hs] at hout
    exact (hspoken (by simp [hout, Trace.Silent])).elim
  | some s =>
    rw [hs] at hout
    obtain ⟨ids, hids, hsasked⟩ := Table.label_of_getElem? hasked hs
    cases s with
    | icmp cur₀ sock =>
      simp only [checkSocket] at hout
      rcases checkIcmpSocket_out (env.after []) l.args ev cur₀ sock with hsilent |
        ⟨cur', csum, bytes, written', us, hbytes, hread, hus⟩
      · exact (hspoken (hout ▸ hsilent)).elim
      · rw [hread] at hout
        obtain ⟨hlength, hpassed⟩ := hanswers i ev cur₀ sock sock bytes rfl hs hbytes
          (by simp [hout])
        have hdata : data = rewriteIcmp csum cur₀.id bytes := by
          rw [hout] at hmem
          rcases List.mem_cons.mp hmem with hmem | hmem
          · exact absurd hmem Output.noConfusion
          rcases List.mem_cons.mp hmem with hmem | hmem
          · injection hmem with hpacket
            injection hpacket
          · exact absurd (hus _ hmem) (by simp [Output.isReply])
        rw [hdata, icmpId_rewriteIcmp csum cur₀.id hlength]
        simp only [List.getD_eq_getElem?_getD, hids, Option.getD_some] at hpassed ⊢
        rw [List.getElem?_eq_getElem hpassed]
        exact congrArg some (hsasked.2 cur₀ sock rfl _ (List.getElem_mem hpassed))
    | udp cur₀ sock =>
      have hsilent := (checkSocket_touched (env.after []) l.args (.udp cur₀ sock) ev).silent
        hsasked.1 fun _ _ => NgSession.noConfusion
      exact (hspoken (hout ▸ hsilent)).elim
    | tcp cur₀ sock events =>
      have hsilent := (checkSocket_touched (env.after []) l.args (.tcp cur₀ sock events) ev).silent
        hsasked.1 fun _ _ => NgSession.noConfusion
      exact (hspoken (hout ▸ hsilent)).elim

theorem Pinged.foldl_loop (es : List PingEvent) (s : Pinged) :
    (es.foldl Pinged.step s).loop = s.loop.run (es.map Prod.fst) := by
  induction es generalizing s with
  | nil => rfl
  | cons e es ih => exact ih (s.step e)

/-- While every echo request on a live session has the identifier of the one that created it,
every echo reply goes back to the request that it answers. -/
theorem Pinged.replies_return (args : Arguments) {es : List PingEvent}
    (hrun : Run.Along Pinged.step (fun s e => s.Answers e ∧ s.loop.OneId e.1) (.init args) es) :
    (es.foldl Pinged.step (.init args)).loop = (EventLoop.init args).run (es.map Prod.fst) ∧
      (es.foldl Pinged.step (.init args)).Returns := by
  refine ⟨Pinged.foldl_loop es _, Asked.returns ?_⟩
  have hempty : Asked (Pinged.init args).loop.ngSession (Pinged.init args).asked := .nil
  exact hrun.invariant (P := fun s : Pinged => Asked s.loop.ngSession s.asked)
    (fun s e hcond hs => s.loop.step_asked e.1 e.2 hcond.2 hs) hempty

def Packet.sampleEcho (id : UInt8) : Packet := .sample 1 [8, 0, 0, 0, 0, id, 0, 1]

/-- The kernel hands out an echo reply, with an identifier of its own. -/
def Env.replying : Env :=
  { Env.calm with recv := fun _ size =>
      if h : 8 ≤ size then .data [0, 0, 0, 0, 0, 7, 0, 1] ⟨nofun, h⟩ else .retry }

def PingEvent.request (id : UInt8) : PingEvent := ((.calm, .tun (.sampleEcho id)), 0)

def PingEvent.reply : PingEvent := ((.replying, .socket 0 ⟨true, false, false⟩), 0)

theorem Pinged.request_answers (s : Pinged) (id : UInt8) : s.Answers (.request id) := by
  rintro i ev cur sock fd bytes ⟨⟩

theorem Pinged.reply_answers {s : Pinged} {packet : TunPacket} {written : Bool} {id : UInt16}
    {ids : List UInt16} (hout : s.loop.outputs PingEvent.reply.1 =
      [.recv 7 [0, 0, 0, 0, 0, 7, 0, 1], .tun packet written])
    (hasked : s.asked = [id :: ids]) : s.Answers .reply := by
  rintro i ev cur sock fd bytes ⟨⟩ hs hbytes hmem
  rw [hout] at hmem
  obtain ⟨-, rfl⟩ : fd = 7 ∧ bytes = [0, 0, 0, 0, 0, 7, 0, 1] := by simpa using hmem
  exact ⟨by decide, by simp [hasked, PingEvent.reply]⟩

theorem Pinged.replies_return_sample :
    ([PingEvent.request 1, .reply].foldl Pinged.step (.init .direct)).loop =
        (EventLoop.init .direct).run ([PingEvent.request 1, .reply].map Prod.fst) ∧
      ([PingEvent.request 1, .reply].foldl Pinged.step (.init .direct)).Returns := by
  have hreply : ((Pinged.init .direct).step (.request 1)).Answers .reply :=
    Pinged.reply_answers rfl rfl
  refine replies_return .direct
    ⟨⟨Pinged.request_answers _ 1, ?_⟩, ⟨hreply, fun p h => nofun⟩, trivial⟩
  rintro p h - - - - - s hs
  exact absurd hs List.not_mem_nil

/-- Two pings to one host at the same time: the second reply answers the second request, and
is written with the identifier of the first. -/
theorem Pinged.not_replies_return :
    Run.Along Pinged.step Pinged.Answers (.init .direct) [.request 1, .request 2, .reply] ∧
      ¬ ([PingEvent.request 1, .request 2, .reply].foldl Pinged.step (.init .direct)).Returns := by
  have hreply : (((Pinged.init .direct).step (.request 1)).step (.request 2)).Answers .reply :=
    Pinged.reply_answers rfl rfl
  refine ⟨⟨Pinged.request_answers _ 1, Pinged.request_answers _ 2, hreply, trivial⟩, ?_⟩
  obtain ⟨s, hs⟩ : ∃ s, s = [PingEvent.request 1, .request 2, .reply].foldl Pinged.step
    (.init .direct) := ⟨_, rfl⟩
  have hasked : s.asked = [[2]] := by rw [hs]; rfl
  obtain ⟨cur, csum, hout⟩ : ∃ cur csum, s.loop.outputs PingEvent.reply.1 =
      [.recv 7 [0, 0, 0, 0, 0, 7, 0, 1],
        .tun (.icmp cur (rewriteIcmp csum 1 [0, 0, 0, 0, 0, 7, 0, 1])) true] := by
    rw [hs]
    exact ⟨_, _, rfl⟩
  rw [← hs]
  intro hreturns
  obtain ⟨i, ev, hsocket, hid⟩ := hreturns .reply (Pinged.reply_answers hout hasked) cur _ true
    (by rw [hout]; exact List.mem_cons_of_mem _ List.mem_cons_self)
  obtain ⟨rfl, -⟩ := LoopEvent.socket.inj hsocket
  rw [hasked, icmpId_rewriteIcmp csum 1 (by decide)] at hid
  exact absurd hid (by decide)

end Loop

end NetGuard.Engine
