import NetGuard.Tcp.Loop
import NetGuard.Udp.Keys

/-! # The creators of the sessions

The key of a session is what its packets are found by and what the packets written for it
are addressed by. Each entry of the list is labelled with the key of the packet that created
it; the labels follow the list from event to event.
-/
namespace NetGuard.Engine
open Relation (ReflTransGen)

section Keys

/-- The version, the addresses and the ports of a session. -/
inductive SessionKey
  | icmp (ends : Endpoints)
  | udp (flow : Flow)
  | tcp (flow : Flow)
  deriving DecidableEq, Repr

def NgSession.key : NgSession → SessionKey
  | .icmp s _ => .icmp s.toEndpoints
  | .udp s _ => .udp s.toFlow
  | .tcp s _ _ => .tcp s.toFlow

/-- The key a packet for the tun is addressed by: to the source of its session. -/
def TunPacket.key : TunPacket → SessionKey
  | .icmp cur _ => .icmp cur.toEndpoints
  | .udp cur _ => .udp cur.toFlow
  | .tcp cur _ _ _ _ _ => .tcp cur.toFlow

def IpHdr.key (h : IpHdr) (p : Packet) : SessionKey :=
  if h.isIcmp then .icmp ⟨h.version, p.saddr h.version, p.daddr h.version⟩
  else if h.protocol = ipprotoUdp then .udp (p.flow h.payload h.version)
  else .tcp (p.flow h.payload h.version)

/-- Whatever the output writes to the tun is addressed by the key. -/
def Output.For (key : SessionKey) : Output → Prop
  | .tun packet _ => packet.key = key
  | _ => True

theorem Output.for_of_kind {kind : Output → Bool} {o : Output} (h : kind o = true)
    (hkind : ∀ packet written, kind (.tun packet written) = false) (key : SessionKey) :
    o.For key := by
  cases o with
  | tun packet written =>
    rw [hkind] at h
    exact absurd h Bool.false_ne_true
  | _ => trivial

end Keys

section Calls
variable {key : SessionKey} {args : Arguments}

/-- The calls of a trace that write to the tun write for the key. -/
def Trace.For (key : SessionKey) (out : Trace) : Prop := ∀ o ∈ out, o.For key

theorem Trace.For.emit {out : Trace} (h : Trace.For key out) {o : Output} (ho : o.For key) :
    Trace.For key (out ++ [o]) := by
  intro o' ho'
  rcases List.mem_append.mp ho' with ho' | ho'
  · exact h o' ho'
  · rwa [List.mem_singleton.mp ho']

theorem EchoMoves.for {e e' : Echo} (h : EchoMoves e e')
    (he : Trace.For (.icmp e.icmp.toEndpoints) e.out) :
    e'.icmp.toEndpoints = e.icmp.toEndpoints ∧ Trace.For (.icmp e.icmp.toEndpoints) e'.out := by
  refine Run.chain_invariant (P := fun x : Echo => x.icmp.toEndpoints = e.icmp.toEndpoints ∧
    Trace.For (.icmp e.icmp.toEndpoints) x.out) ?_ h ⟨rfl, he⟩
  rintro x y hmove ⟨hends, hx⟩
  cases hmove with
  | tidy => exact ⟨hends, hx⟩
  | aside o ho => exact ⟨hends, hx.emit (Output.for_of_kind ho (fun _ _ => rfl) _)⟩
  | answer buffer written =>
    have hread : Trace.For (.icmp e.icmp.toEndpoints) (x.emit (.recv x.socket buffer)).out :=
      hx.emit trivial
    exact ⟨hends, hread.emit (congrArg SessionKey.icmp hends)⟩
  | close => exact ⟨hends, hx.emit trivial⟩

theorem DatagramMoves.for {d d' : Datagram} (h : DatagramMoves d d')
    (hd : Trace.For (.udp d.udp.toFlow) d.out) :
    d'.udp.toFlow = d.udp.toFlow ∧ Trace.For (.udp d.udp.toFlow) d'.out := by
  refine Run.chain_invariant (P := fun x : Datagram => x.udp.toFlow = d.udp.toFlow ∧
    Trace.For (.udp d.udp.toFlow) x.out) ?_ h ⟨rfl, hd⟩
  rintro x y hmove ⟨hflow, hx⟩
  cases hmove with
  | tidy => exact ⟨hflow, hx⟩
  | aside o ho => exact ⟨hflow, hx.emit (Output.for_of_kind ho (fun _ _ => rfl) _)⟩
  | answer => exact ⟨hflow, hx.emit (congrArg SessionKey.udp hflow)⟩
  | close => exact ⟨hflow, hx.emit trivial⟩

/-- The datagram of a flow, unless it is answered as DHCP with another source address. -/
theorem Forwarded.for {flow : Flow} {data : List UInt8} {d d' : Datagram}
    (h : Forwarded flow data d d') (hflow : d.udp.toFlow = flow)
    (hanswers : answersDhcp flow data = true → flow.answered = flow)
    (hd : Trace.For (.udp flow) d.out) : d'.udp.toFlow = flow ∧ Trace.For (.udp flow) d'.out := by
  cases h with
  | answered hanswered written =>
    have hsame : (d.answerDhcp data written).udp.toFlow = flow :=
      (congrArg Flow.answered hflow).trans (hanswers hanswered)
    exact ⟨hsame, hd.emit (congrArg SessionKey.udp hsame)⟩
  | ignored => exact ⟨hflow, hd⟩
  | sent htakes hmoves =>
    rw [← hflow] at hd ⊢
    exact hmoves.for hd

theorem Move.for {a : Cause} {s t : Stage} {flow : Flow} (h : Move a s t)
    (hs : s.conn.tcp.toFlow = flow ∧ Trace.For (.tcp flow) s.conn.out) :
    t.conn.tcp.toFlow = flow ∧ Trace.For (.tcp flow) t.conn.out := by
  obtain ⟨hflow, hout⟩ := hs
  have hkey := congrArg SessionKey.tcp hflow
  cases h with
  | tidy => exact ⟨hflow, hout⟩
  | quiet o ho => exact ⟨hflow, hout.emit (Output.for_of_kind ho (fun _ _ => rfl) _)⟩
  | window => exact ⟨hflow, hout⟩
  | queue =>
    rw [queueTcp_eq]
    exact ⟨hflow, hout⟩
  | abort => exact ⟨hflow, hout⟩
  | reset =>
    rw [Conn.wrote_out, countSyn_out]
    refine ⟨by simpa using hflow, hout.emit ?_⟩
    simpa [Output.For, TunPacket.key] using hflow
  | countFin => exact ⟨hflow, hout.emit hkey⟩
  | holdFin => exact ⟨hflow, hout⟩
  | lastFin => exact ⟨hflow, hout.emit hkey⟩
  | ackAll => exact ⟨hflow, hout⟩
  | ackSome => exact ⟨hflow, hout⟩
  | synAck =>
    refine ⟨hflow, hout.emit ?_⟩
    exact hkey
  | send => exact ⟨hflow, hout.emit trivial⟩
  | confirmFin => exact ⟨hflow, hout.emit hkey⟩
  | ack => exact ⟨hflow, hout.emit hkey⟩
  | keepAlive =>
    refine ⟨hflow, hout.emit ?_⟩
    exact hkey
  | @data c fwd ha hstate bytes hbytes hsize dns hdns =>
    have hread : Trace.For (.tcp flow) (c.out ++ Output.recv c.socket bytes :: dns) := by
      intro o ho
      rcases List.mem_append.mp ho with ho | ho
      · exact hout o ho
      rcases List.mem_cons.mp ho with rfl | ho
      · trivial
      · exact Output.for_of_kind (hdns o ho) (fun _ _ => rfl) _
    exact ⟨hflow, hread.emit hkey⟩
  | fin =>
    refine ⟨hflow, Trace.For.emit (hout.emit ?_) trivial⟩
    exact hkey
  | close => exact ⟨hflow, hout.emit trivial⟩
  | closed => exact ⟨hflow, hout⟩

theorem Conn.dialing_invariant (args : Arguments) : TcpInvariant args Conn.Dialing where
  opened hopens := hopens.dialing
  handled {c} env e _ hdialing := by
    have hmoves : Moves e.cause ⟨c, false⟩ ⟨e.handle env args c, false⟩ :=
      Acts.handle e (fun _ => trivial) hdialing
    exact Run.chain_invariant (P := fun s : Stage => s.conn.Dialing) (fun _ _ => Move.dialing)
      hmoves hdialing

variable {s t : NgSession} {os out : Trace}

theorem Touched.for (h : Touched args s os t) (hs : s.Tcp Conn.Dialing) :
    t.key = s.key ∧ Trace.For s.key os ∧ t.Tcp Conn.Dialing := by
  have hempty (key : SessionKey) : Trace.For key [] := fun o ho => absurd ho List.not_mem_nil
  cases h with
  | icmp hmoves =>
    obtain ⟨hends, hout⟩ := hmoves.for (hempty _)
    exact ⟨congrArg SessionKey.icmp hends, hout, trivial⟩
  | udp hmoves =>
    obtain ⟨hflow, hout⟩ := hmoves.for (hempty _)
    exact ⟨congrArg SessionKey.udp hflow, hout, trivial⟩
  | tcp cur sock events env e =>
    have hmoves : Moves e.cause ⟨⟨cur, sock, events, []⟩, false⟩
        ⟨e.handle env args ⟨cur, sock, events, []⟩, false⟩ :=
      Acts.handle e (fun _ => trivial) hs
    obtain ⟨hflow, hout⟩ := Run.chain_invariant (P := fun s : Stage =>
      s.conn.tcp.toFlow = cur.toFlow ∧ Trace.For (.tcp cur.toFlow) s.conn.out)
      (fun _ _ => Move.for) hmoves ⟨rfl, hempty _⟩
    exact ⟨congrArg SessionKey.tcp hflow, hout, (Conn.dialing_invariant args).handled env e rfl hs⟩

theorem Swept.for {r : Option NgSession × Trace} (h : Swept args s out r)
    (hs : s.Tcp Conn.Dialing) :
    (∀ t ∈ r.1, t.key = s.key ∧ t.Tcp Conn.Dialing) ∧
      ∃ os, r.2 = out ++ os ∧ Trace.For s.key os := by
  cases h with
  | untouched =>
    refine ⟨?_, [], by simp, by simp [Trace.For]⟩
    rintro _ ⟨⟩
    exact ⟨rfl, hs⟩
  | kept htouched =>
    obtain ⟨hkey, hout, ht⟩ := htouched.for hs
    refine ⟨?_, _, rfl, hout⟩
    rintro _ ⟨⟩
    exact ⟨hkey, ht⟩
  | dropped htouched => exact ⟨by simp, _, rfl, (htouched.for hs).2.1⟩
  | cleared =>
    rw [clearEntry_eq]
    refine ⟨by simp, ?_⟩
    dsimp only
    split
    · exact ⟨_, rfl, by simp [Trace.For, Output.For]⟩
    · exact ⟨[], by simp, by simp [Trace.For]⟩

end Calls

section Labels

/-- The entry has the key it is labelled with. -/
def NgSession.CreatedBy (s : NgSession) (key : SessionKey) : Prop :=
  s.key = key ∧ s.Tcp Conn.Dialing

abbrev CreatedBy (list : List NgSession) (keys : List SessionKey) : Prop :=
  List.Forall₂ NgSession.CreatedBy list keys

theorem CreatedBy.key_mem {list : List NgSession} {keys : List SessionKey}
    (h : CreatedBy list keys) {s : NgSession} (hs : s ∈ list) : s.key ∈ keys := by
  induction h with
  | nil => exact absurd hs List.not_mem_nil
  | cons hfirst _ ih =>
    rcases List.mem_cons.mp hs with rfl | hs
    · exact hfirst.1 ▸ List.mem_cons_self
    · exact List.mem_cons_of_mem _ (ih hs)

theorem CreatedBy.dialing {list : List NgSession} {keys : List SessionKey}
    (h : CreatedBy list keys) : AllTcp Conn.Dialing list :=
  Table.forall_of_labels (fun _ _ hs => hs.2) h

/-- The labels after an event: an entry that is kept keeps its label, and a new one gets the
key of the packet. -/
def EventLoop.creators (l : EventLoop) (keys : List SessionKey) (e : Env × LoopEvent) :
    List SessionKey :=
  match e.2 with
  | .start args _ => Table.labels (checkAllowedEntry e.1 args) l.ngSession keys []
  | .head =>
    let (list, out) := Table.sweep (monitorEntry e.1) l.ngSession []
    let keys := Table.labels (monitorEntry e.1) l.ngSession keys []
    if e.1.ms out - l.lastCheck > epollMinCheck then
      Table.labels (checkEntry e.1 (countSessions l.ngSession) l.maxsessions) list keys out
    else keys
  | .tun p =>
    match parseIp l.args p with
    | .ok h =>
      if l.ngSession.length < (l.step e).ngSession.length then h.key p :: keys else keys
    | _ => keys
  | .socket _ _ => keys
  | .clear => Table.labels clearEntry l.ngSession keys []

/-- A state of the loop with its labels. -/
abbrev Labelled : Type := EventLoop × List SessionKey

def Labelled.step (s : Labelled) (e : Env × LoopEvent) : Labelled :=
  (s.1.step e, s.1.creators s.2 e)

def Labelled.init (args : Arguments) : Labelled := (.init args, [])

/-- What is written to the tun is addressed by one of the keys. -/
def Trace.Within (keys : List SessionKey) (out : Trace) : Prop :=
  ∀ packet written, .tun packet written ∈ out → packet.key ∈ keys

theorem Trace.Within.append {keys : List SessionKey} {os os' : Trace} (h : Trace.Within keys os)
    (h' : Trace.Within keys os') : Trace.Within keys (os ++ os') := by
  intro packet written hmem
  rcases List.mem_append.mp hmem with hmem | hmem
  · exact h packet written hmem
  · exact h' packet written hmem

theorem sweep_createdBy {args : Arguments} {f : NgSession → Trace → Option NgSession × Trace}
    (hf : ∀ s out, Swept args s out (f s out)) {list : List NgSession} {keys : List SessionKey}
    (h : CreatedBy list keys) (out : Trace) :
    CreatedBy (Table.sweep f list out).1 (Table.labels f list keys out) ∧
      ∃ os, (Table.sweep f list out).2 = out ++ os ∧ Trace.Within keys os := by
  have hswept := Table.sweep_labels (f := f) (R := NgSession.CreatedBy)
    (Q := fun key o => o.For key) ?_ h out
  · obtain ⟨hkept, os, hout, hos⟩ := hswept
    refine ⟨hkept, os, hout, ?_⟩
    intro packet written hmem
    obtain ⟨key, hkey, hfor⟩ := hos _ hmem
    exact hfor ▸ hkey
  · rintro s key out ⟨rfl, hs⟩
    exact (hf s out).for hs

end Labels

section Handlers
variable {env : Env} {args : Arguments} {p : Packet} {h : IpHdr} {uid : Int} {allowed : Bool}
  {ctx ctx' : Context} {keys : List SessionKey}

theorem IpHdr.key_icmp (hicmp : h.isIcmp = true) :
    h.key p = .icmp ⟨h.version, p.saddr h.version, p.daddr h.version⟩ := by
  rw [IpHdr.key, if_pos hicmp]

theorem IpHdr.key_udp (hudp : h.protocol = ipprotoUdp) :
    h.key p = .udp (p.flow h.payload h.version) := by
  rw [IpHdr.key, IpHdr.isIcmp_udp hudp, if_neg Bool.false_ne_true, if_pos hudp]

theorem IpHdr.key_tcp (htcp : h.protocol = ipprotoTcp) :
    h.key p = .tcp (p.flow h.payload h.version) := by
  rw [IpHdr.key, IpHdr.isIcmp_tcp htcp, if_neg Bool.false_ne_true, if_neg (IpHdr.not_udp htcp)]

/-- What a handler does for a packet with the key: it registers at most one session, for the
key, and writes for the key. -/
structure Files (key : SessionKey) (keys : List SessionKey) (ctx ctx' : Context) : Prop where
  created : (ctx'.ngSession.length = ctx.ngSession.length ∧ CreatedBy ctx'.ngSession keys) ∨
    (ctx'.ngSession.length = ctx.ngSession.length + 1 ∧ CreatedBy ctx'.ngSession (key :: keys))
  out : ∃ os, ctx'.out = ctx.out ++ os ∧ Trace.For key os

theorem Files.refl {key : SessionKey} (h : CreatedBy ctx.ngSession keys) :
    Files key keys ctx ctx := ⟨.inl ⟨rfl, h⟩, [], by simp, by simp [Trace.For]⟩

theorem Files.found {key : SessionKey} {before rest : List NgSession} {s t : NgSession}
    {os : Trace} (hlist : ctx.ngSession = before ++ s :: rest)
    (hcreated : CreatedBy ctx.ngSession keys) (hkey : t.key = s.key)
    (ht : s.Tcp Conn.Dialing → t.Tcp Conn.Dialing) (hos : Trace.For key os) :
    Files key keys ctx ⟨before ++ t :: rest, ctx.out ++ os⟩ where
  created := by
    refine .inl ⟨by simp [hlist], ?_⟩
    rw [hlist] at hcreated
    refine Table.replace_labels ?_ hcreated
    rintro _ ⟨rfl, hs⟩
    exact ⟨hkey, ht hs⟩
  out := ⟨os, rfl, hos⟩

theorem Files.registered {key : SessionKey} {t : NgSession} {os : Trace}
    (hcreated : CreatedBy ctx.ngSession keys) (hkey : t.key = key) (ht : t.Tcp Conn.Dialing)
    (hos : Trace.For key os) : Files key keys ctx ⟨t :: ctx.ngSession, ctx.out ++ os⟩ where
  created := .inr ⟨rfl, .cons ⟨hkey, ht⟩ hcreated⟩
  out := ⟨os, rfl, hos⟩

theorem Files.wrote {key : SessionKey} {os : Trace} (hcreated : CreatedBy ctx.ngSession keys)
    (hos : Trace.For key os) : Files key keys ctx ⟨ctx.ngSession, ctx.out ++ os⟩ where
  created := .inl ⟨rfl, hcreated⟩
  out := ⟨os, rfl, hos⟩

theorem Files.asked {key : SessionKey} {ctx₀ : Context} (hasks : ctx₀.Asks ctx)
    (h : Files key keys ctx ctx') : Files key keys ctx₀ ctx' := by
  obtain ⟨us, rfl, hus⟩ := hasks
  obtain ⟨hcreated, os, hout, hos⟩ := h
  refine ⟨hcreated, us ++ os, by rw [hout, List.append_assoc], ?_⟩
  intro o ho
  rcases List.mem_append.mp ho with ho | ho
  · exact Output.for_of_kind (hus o ho) (fun _ _ => rfl) key
  · exact hos o ho

theorem Files.logged {key : SessionKey} {ctx'' : Context} (h : Files key keys ctx ctx')
    (hasks : ctx'.Asks ctx'') : Files key keys ctx ctx'' := by
  obtain ⟨us, rfl, hus⟩ := hasks
  obtain ⟨hcreated, os, hout, hos⟩ := h
  refine ⟨hcreated, os ++ us, by simp [hout], ?_⟩
  intro o ho
  rcases List.mem_append.mp ho with ho | ho
  · exact hos o ho
  · exact Output.for_of_kind (hus o ho) (fun _ _ => rfl) key

theorem openUdpSocket_for (key : SessionKey) (env : Env) (args : Arguments) :
    Trace.For key (openUdpSocket env args []).2 := by
  simp [openUdpSocket_eq, Trace.For, Output.For]

theorem openIcmpSocket_for (key : SessionKey) (env : Env) (args : Arguments) :
    Trace.For key (openIcmpSocket env args []).2 :=
  openUdpSocket_for key env args

theorem IcmpHandled.files (hhandled : IcmpHandled env args p h.version h.payload uid ctx ctx')
    (hicmp : h.isIcmp = true) (hcreated : CreatedBy ctx.ngSession keys) :
    Files (h.key p) keys ctx ctx' := by
  rw [IpHdr.key_icmp hicmp]
  have hsent (e : Echo) := (EchoMoves.sendRequest (env.after ctx.out) (p.daddr h.version)
    (p.icmpMessage h.version h.payload) e).for
  cases hhandled with
  | ignored => exact .refl hcreated
  | @found before rest s s' sock e hecho hlist hends hstop hs' he =>
    have hsame : s'.toEndpoints = s.toEndpoints := by
      rw [hs']
      split <;> rfl
    obtain ⟨hkept, hout⟩ := hsent ⟨s', sock, []⟩ (by simp [Trace.For])
    rw [← he] at hkept hout
    rw [hsame] at hkept hout
    rw [← hends]
    exact .found hlist hcreated (congrArg SessionKey.icmp hkept) (fun _ => trivial) hout
  | refused hecho hnone hopened =>
    obtain ⟨hsock, rfl⟩ := newIcmpSession_none hopened
    exact .wrote hcreated (openIcmpSocket_for _ _ _)
  | @opened e₀ e out hecho hnone hopened he =>
    obtain ⟨hsock, he₀⟩ := newIcmpSession_some hopened
    have hends : e₀.icmp.toEndpoints = ⟨h.version, p.saddr h.version, p.daddr h.version⟩ := by
      rw [he₀]
    have hopen : Trace.For (.icmp e₀.icmp.toEndpoints) e₀.out := by
      rw [he₀]
      exact (openIcmpSocket_for _ _ _).emit trivial
    obtain ⟨hkept, hout⟩ := hsent e₀ hopen
    rw [← he] at hkept hout
    rw [← hends]
    exact .registered hcreated (congrArg SessionKey.icmp hkept) trivial hout

/-- The datagram gets to `check_dhcp` or to the server: the first session of its flow is
active, or a new one gets a socket. -/
def Served (env : Env) (flow : Flow) (list : List NgSession) : Prop :=
  match list.find? (NgSession.isUdp flow) with
  | some s => s.live = true
  | none => 0 ≤ env.socket []

theorem UdpHandled.files (hhandled : UdpHandled env args p h.version h.payload uid ctx ctx')
    (hudp : h.protocol = ipprotoUdp)
    (hdhcp : answersDhcp (p.flow h.payload h.version) (p.udpData h.payload) = true →
      Served (env.after ctx.out) (p.flow h.payload h.version) ctx.ngSession →
      (p.flow h.payload h.version).answered = p.flow h.payload h.version)
    (hcreated : CreatedBy ctx.ngSession keys) : Files (h.key p) keys ctx ctx' := by
  rw [IpHdr.key_udp hudp]
  have hsent (d : Datagram) := (forwardDatagram_forwarded (env.after ctx.out)
    (p.flow h.payload h.version) (p.udpData h.payload) d).for
  cases hhandled with
  | ignored => exact .refl hcreated
  | @found before rest s s' sock d hlist hflow hstate hs' hd hfirst =>
    have hsame : s'.toFlow = p.flow h.payload h.version := by
      rw [← hflow, hs']
      split <;> rfl
    have hserved : Served (env.after ctx.out) (p.flow h.payload h.version) ctx.ngSession := by
      have hfind : ctx.ngSession.find? (NgSession.isUdp (p.flow h.payload h.version)) =
          some (.udp s sock) := by
        rw [hlist, List.find?_append, List.find?_eq_none.mpr (by simpa using hfirst)]
        simp [NgSession.isUdp, NgSession.udpFlow?, hflow]
      rw [Served, hfind]
      simpa [NgSession.live] using hstate
    obtain ⟨hkept, hout⟩ := hsent ⟨s', sock, []⟩ hsame
      (fun hanswers => hdhcp hanswers hserved) (by simp [Trace.For])
    rw [← hd] at hkept hout
    exact .found hlist hcreated (congrArg SessionKey.udp (hkept.trans hflow.symm))
      (fun _ => trivial) hout
  | refused hnone hopened =>
    obtain ⟨hsock, rfl⟩ := newUdpSession_none hopened
    exact .wrote hcreated (openUdpSocket_for _ _ _)
  | @opened d₀ d out hnone hopened hd =>
    obtain ⟨hsock, hd₀⟩ := newUdpSession_some hopened
    have hserved : Served (env.after ctx.out) (p.flow h.payload h.version) ctx.ngSession := by
      rw [Served, List.find?_eq_none.mpr (by simpa using hnone)]
      exact (openUdpSocket_nonneg ..).mp hsock
    have hopen : Trace.For (.udp (p.flow h.payload h.version)) d₀.out := by
      rw [hd₀]
      exact (openUdpSocket_for _ _ _).emit trivial
    obtain ⟨hkept, hout⟩ := hsent d₀ (by rw [hd₀]; rfl) (fun hanswers => hdhcp hanswers hserved) hopen
    rw [← hd] at hkept hout
    exact .registered hcreated (congrArg SessionKey.udp hkept) trivial hout

theorem TcpHandled.files
    (hhandled : TcpHandled env args p h.version h.payload uid allowed ctx ctx')
    (htcp : h.protocol = ipprotoTcp) (hcreated : CreatedBy ctx.ngSession keys) :
    Files (h.key p) keys ctx ctx' := by
  rw [IpHdr.key_tcp htcp]
  cases hhandled with
  | urgent => exact .refl hcreated
  | @found before rest s sock events c hurg hlist hflow hc =>
    have hs : NgSession.Tcp Conn.Dialing (.tcp s sock events) :=
      hcreated.dialing _ (by simp [hlist])
    have htouched : Touched args (.tcp s sock events) _ _ := .tcp s sock events (env.after ctx.out)
      (.segment (p.tcphdr h.payload) (p.payloadFrom (p.tcpData h.payload)) uid allowed)
    simp only [TcpEvent.handle, hurg, Bool.false_eq_true, if_false, ← hc] at htouched
    obtain ⟨hkey, hout, ht⟩ := htouched.for hs
    rw [← hflow]
    exact .found hlist hcreated hkey (fun _ => ht) hout
  | endless => exact .wrote hcreated (by simp [Trace.For, Output.For])
  | @syn mss ws opened out hurg hnone hsyn hoptions hopened =>
    cases opened with
    | none =>
      obtain ⟨hsock, rfl⟩ := newTcpSession_none hopened
      obtain ⟨os, hout, hos⟩ := openTcpSocket_opening args (env.after ctx.out)
        (synSession (env.after ctx.out) (p.flow h.payload h.version) (p.tcphdr h.payload)
          (p.payloadFrom (p.tcpData h.payload)) mss ws uid []) []
      rw [hout]
      exact .wrote hcreated
        fun o ho => Output.for_of_kind (hos o (by simpa using ho)) (fun _ _ => rfl) _
    | some c =>
      have hopens : Syn.Opens args ⟨p.flow h.payload h.version, p.tcphdr h.payload,
          p.payloadFrom (p.tcpData h.payload), mss, ws, uid, allowed⟩ c :=
        ⟨env.after ctx.out, out, hopened⟩
      obtain ⟨-, -, -, -, -, -, rfl⟩ := newTcpSession_some hopened
      obtain ⟨d, hd, hmoves⟩ := hopens.listening True
      have hlistening : d.tcp.toFlow = p.flow h.payload h.version ∧
          Trace.For (.tcp (p.flow h.payload h.version)) d.out :=
        ⟨hd.flow, fun o ho => Output.for_of_kind (hd.out o ho) (fun _ _ => rfl) _⟩
      obtain ⟨hkept, hout⟩ := Run.chain_invariant (P := fun s : Stage =>
        s.conn.tcp.toFlow = p.flow h.payload h.version ∧
          Trace.For (.tcp (p.flow h.payload h.version)) s.conn.out)
        (fun _ _ => Move.for) hmoves hlistening
      exact .registered hcreated (congrArg SessionKey.tcp hkept) hopens.dialing hout
  | unknown =>
    refine .wrote hcreated ?_
    rw [writeRst_eq]
    simp [Trace.For, Output.For, TunPacket.key, resetSession]

theorem handlePacket_files
    (hdhcp : h.protocol = ipprotoUdp → letThrough env args p h ctx = true →
      answersDhcp (p.flow h.payload h.version) (p.udpData h.payload) = true →
      Served (env.after (judgePacket env p h ctx).2.2.2.out) (p.flow h.payload h.version)
        ctx.ngSession →
      (p.flow h.payload h.version).answered = p.flow h.payload h.version)
    (hcreated : CreatedBy ctx.ngSession keys) :
    Files (h.key p) keys ctx (handlePacket env args p h ctx) := by
  have hasks := judgePacket_asks env p h ctx
  have hsame := hasks.ngSession
  have hjudged : CreatedBy (judgePacket env p h ctx).2.2.2.ngSession keys := by rwa [hsame]
  rw [← hsame] at hdhcp
  apply Files.asked hasks
  have hhandled : PacketHandled env args p h _ _ _ (handlePacket env args p h ctx) :=
    handlePacket_handled
  generalize handlePacket env args p h ctx = ctx' at hhandled
  cases hhandled with
  | icmp hthrough hicmp hhandled => exact hhandled.files hicmp hjudged
  | udp hthrough hudp hhandled => exact hhandled.files hudp (hdhcp hudp hthrough) hjudged
  | tcp htcp hhandled => exact hhandled.files htcp hjudged
  | blocked hthrough hudp =>
    rw [IpHdr.key_udp hudp]
    exact ⟨.inr ⟨rfl, .cons ⟨rfl, trivial⟩ hjudged⟩, [], by simp [blockUdp], by simp [Trace.For]⟩
  | other => exact .refl hjudged

/-- What `handle_ip` leaves of the list and writes to the tun, for a packet that passes. -/
theorem Judged.files {sessions maxsessions : Int}
    (hjudged : Judged args p sessions maxsessions ctx.ngSession h)
    (hhandled : Files (h.key p) keys ctx (handlePacket env args p h ctx)) :
    Files (h.key p) keys ctx (handleIp env args p sessions maxsessions ctx) :=
  hhandled.logged (hjudged.handleIp_asks env)

end Handlers

section Loop

/-- No DHCP request is answered on a session that has another source address than the
answers give it. -/
def EventLoop.KeepsAddress (l : EventLoop) (e : Env × LoopEvent) : Prop :=
  ∀ p h, e.2 = .tun p → Judged l.args p l.sessions l.maxsessions l.ngSession h →
    h.protocol = ipprotoUdp → letThrough e.1 l.args p h ⟨l.ngSession, []⟩ = true →
    answersDhcp (p.flow h.payload h.version) (p.udpData h.payload) = true →
    Served (e.1.after (judgePacket e.1 p h ⟨l.ngSession, []⟩).2.2.2.out)
      (p.flow h.payload h.version) l.ngSession →
    (p.flow h.payload h.version).answered = p.flow h.payload h.version

/-- The event is a packet with the key. -/
def EventLoop.Receives (l : EventLoop) (e : Env × LoopEvent) (key : SessionKey) : Prop :=
  ∃ p h, e.2 = .tun p ∧ parseIp l.args p = .ok h ∧ h.key p = key

variable {l : EventLoop} {keys : List SessionKey}

theorem EventLoop.tun_creators (env : Env) (p : Packet) (hkeeps : l.KeepsAddress (env, .tun p))
    (hcreated : CreatedBy l.ngSession keys) :
    CreatedBy (l.step (env, .tun p)).ngSession (l.creators keys (env, .tun p)) ∧
      ∃ os, (l.step (env, .tun p)).out = l.out ++ os ∧ ∀ packet written,
        .tun packet written ∈ os → l.Receives (env, .tun p) packet.key := by
  have hhandled : IpHandled env l.args p l.sessions l.maxsessions ⟨l.ngSession, []⟩ _ :=
    handleIp_handled
  generalize hctx : handleIp env l.args p l.sessions l.maxsessions ⟨l.ngSession, []⟩ = ctx'
    at hhandled
  simp only [EventLoop.creators, EventLoop.step, LoopEvent.handle, EventLoop.tun, hctx]
  have hsame : (match parseIp l.args p with
      | .ok h => if l.ngSession.length < l.ngSession.length then h.key p :: keys else keys
      | _ => keys) = keys := by
    split
    · rw [if_neg (Nat.lt_irrefl _)]
    · rfl
  cases hhandled with
  | dropped => exact ⟨by rwa [hsame], [], rfl, by simp⟩
  | endless => exact ⟨by rwa [Context.emit, hsame], [.hang], rfl, by simp⟩
  | @handled h _ hjudged hlogged =>
    have hfiles : Files (h.key p) keys ⟨l.ngSession, []⟩ ctx' :=
      (handlePacket_files (hkeeps p h rfl hjudged) hcreated).logged hlogged
    obtain ⟨hlist, os, hout, hos⟩ := hfiles
    rw [hjudged.parsed]
    refine ⟨?_, os, by simp [hout], fun packet written hmem =>
      ⟨p, h, rfl, hjudged.parsed, (hos _ hmem).symm⟩⟩
    dsimp only
    rcases hlist with ⟨hlength, hkept⟩ | ⟨hlength, hkept⟩
    · rwa [hlength, if_neg (Nat.lt_irrefl _)]
    · rwa [hlength, if_pos (Nat.lt_succ_self _)]

theorem EventLoop.step_creators (l : EventLoop) (e : Env × LoopEvent) (hkeeps : l.KeepsAddress e)
    (hcreated : CreatedBy l.ngSession keys) :
    CreatedBy (l.step e).ngSession (l.creators keys e) ∧
      ∃ os, (l.step e).out = l.out ++ os ∧ ∀ packet written, .tun packet written ∈ os →
        packet.key ∈ keys ∨ l.Receives e packet.key := by
  obtain ⟨env, event⟩ := e
  cases event with
  | start args soft =>
    obtain ⟨hkept, os, hout, hos⟩ := sweep_createdBy (checkAllowedEntry_swept env args) hcreated []
    refine ⟨hkept, os, by simp [EventLoop.step, LoopEvent.handle, EventLoop.start, hout], ?_⟩
    intro packet written hmem
    exact .inl (hos packet written hmem)
  | head =>
    obtain ⟨hmonitored, os, hout, hos⟩ :=
      sweep_createdBy (monitorEntry_swept env l.args) hcreated []
    simp only [EventLoop.creators, EventLoop.step, LoopEvent.handle, EventLoop.head]
    split
    · obtain ⟨hkept, os', hout', hos'⟩ := sweep_createdBy (fun s out => checkEntry_swept env l.args
        s out (countSessions l.ngSession) l.maxsessions) hmonitored _
      refine ⟨hkept, os ++ os', by rw [hout', hout, List.nil_append],
        fun packet written hmem => .inl ?_⟩
      rcases List.mem_append.mp hmem with hmem | hmem
      · exact hos packet written hmem
      · exact (Table.labels_sublist ..).subset (hos' packet written hmem)
    · exact ⟨hmonitored, os, by simp [hout], fun packet written hmem => .inl (hos packet written hmem)⟩
  | tun p =>
    obtain ⟨hkept, os, hout, hos⟩ := EventLoop.tun_creators env p hkeeps hcreated
    exact ⟨hkept, os, hout, fun packet written hmem => .inr (hos packet written hmem)⟩
  | socket i ev =>
    simp only [EventLoop.creators, EventLoop.step, LoopEvent.handle, EventLoop.socket]
    split
    next before s rest heq =>
      have hlist := Table.eq_append_of_splitAt heq
      have hs : s ∈ l.ngSession := hlist ▸ List.mem_append_right _ List.mem_cons_self
      obtain ⟨hkey, hout, ht⟩ :=
        (checkSocket_touched (env.after []) l.args s ev).for (hcreated.dialing s hs)
      have hkept : CreatedBy (before ++ s :: rest) keys := by rwa [← hlist]
      refine ⟨Table.replace_labels ?_ hkept, _, rfl, fun packet written hmem => .inl ?_⟩
      · rintro _ ⟨rfl, -⟩
        exact ⟨hkey, ht⟩
      · have hfor : packet.key = s.key := hout _ hmem
        exact hfor ▸ hcreated.key_mem hs
    next => exact ⟨hcreated, [], by simp, by simp⟩
  | clear =>
    have hcleared (s : NgSession) (out : Trace) : Swept l.args s out (clearEntry s out) := .cleared
    obtain ⟨hkept, os, hout, hos⟩ := sweep_createdBy hcleared hcreated []
    refine ⟨hkept, os, by simp [EventLoop.step, LoopEvent.handle, EventLoop.clear, hout], ?_⟩
    intro packet written hmem
    exact .inl (hos packet written hmem)

theorem Labelled.foldl_fst (es : List (Env × LoopEvent)) (s : Labelled) :
    (es.foldl Labelled.step s).1 = es.foldl EventLoop.step s.1 := by
  induction es generalizing s with
  | nil => rfl
  | cons e es ih => exact ih (s.step e)

end Loop

end NetGuard.Engine
