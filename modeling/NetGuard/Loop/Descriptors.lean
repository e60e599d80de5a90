import NetGuard.Library.Ledger
import NetGuard.Tcp.Loop
import NetGuard.Udp.Keys

/-! # Socket descriptors

Each descriptor is acquired by `socket()` and released by `close()`, and in between it is
the socket of an entry. A call on an entry passes the descriptor on or closes it; only a
packet that opens a session acquires one.
-/
namespace NetGuard.Engine
open Relation (ReflTransGen)

section Calls

def holders (n : Int) (list : List NgSession) : Nat := list.countP fun s => s.descriptor = n

def Output.acquires (n : Int) : Output → Bool
  | .socket fd => fd = n
  | _ => false

def Output.releases (n : Int) : Output → Bool
  | .close fd => fd = n
  | _ => false

def Output.Idle (o : Output) : Prop := ∀ n ≥ 0, o.acquires n = false ∧ o.releases n = false

/-- Calls that leave the descriptor in the socket field or close it. -/
def Passes (sock : Int) (os : Trace) (sock' : Int) : Prop :=
  ∀ n ≥ 0, (∀ o ∈ os, o.acquires n = false) ∧
    os.countP (Output.releases n) + (if sock' = n then 1 else 0) = if sock = n then 1 else 0

variable {sock sock' sock'' : Int} {os os' : Trace}

theorem Output.releases_iff {o : Output} {n : Int} : o.releases n = true ↔ o = .close n := by
  cases o with
  | close fd => simp [Output.releases]
  | _ => exact ⟨nofun, nofun⟩

theorem Output.idle_of_ne {o : Output} (hsocket : ∀ fd, o ≠ .socket fd)
    (hclose : ∀ fd, o ≠ .close fd) : o.Idle := by
  intro n _
  cases o with
  | socket fd => exact absurd rfl (hsocket fd)
  | close fd => exact absurd rfl (hclose fd)
  | _ => exact ⟨rfl, rfl⟩

theorem Output.idle_of_quiet {o : Output} (h : o.quiet = true) : o.Idle := by
  apply Output.idle_of_ne <;> rintro fd rfl
  · exact absurd h Bool.false_ne_true
  · exact absurd h Bool.false_ne_true

theorem Output.idle_of_aside {o : Output} (h : o.aside = true) : o.Idle := by
  apply Output.idle_of_ne <;> rintro fd rfl
  · exact absurd h Bool.false_ne_true
  · exact absurd h Bool.false_ne_true

theorem Output.idle_of_upcall {o : Output} (h : o.isUpcall = true) : o.Idle := by
  apply Output.idle_of_ne <;> rintro fd rfl
  · exact absurd h Bool.false_ne_true
  · exact absurd h Bool.false_ne_true

theorem Output.idle_tun (packet : TunPacket) (written : Bool) : (Output.tun packet written).Idle :=
  fun _ _ => ⟨rfl, rfl⟩

theorem Passes.idle (hidle : ∀ o ∈ os, o.Idle) : Passes sock os sock := by
  intro n hn
  have hnone : os.countP (Output.releases n) = 0 :=
    List.countP_eq_zero.mpr fun o ho => by simp [(hidle o ho n hn).2]
  exact ⟨fun o ho => (hidle o ho n hn).1, by omega⟩

theorem Passes.refl : Passes sock [] sock := Passes.idle (by simp)

theorem Passes.trans (h : Passes sock os sock') (h' : Passes sock' os' sock'') :
    Passes sock (os ++ os') sock'' := by
  intro n hn
  obtain ⟨hnone, hcount⟩ := h n hn
  obtain ⟨hnone', hcount'⟩ := h' n hn
  refine ⟨?_, ?_⟩
  · intro o ho
    rcases List.mem_append.mp ho with ho | ho
    · exact hnone o ho
    · exact hnone' o ho
  · rw [List.countP_append]
    omega

theorem Passes.emit {o : Output} (h : Passes sock os sock') (ho : o.Idle) :
    Passes sock (os ++ [o]) sock' :=
  h.trans (Passes.idle (by simpa using ho))

theorem Passes.close (h : Passes sock os sock') : Passes sock (os ++ [.close sock']) (-1) := by
  refine h.trans fun n hn => ⟨by simp [Output.acquires], ?_⟩
  have hne : ¬ (-1 : Int) = n := by omega
  by_cases heq : sock' = n <;> simp [Output.releases, heq, hne]

end Calls

section Tcp
variable {a : Cause} {s t : Stage} {sock : Int}

theorem Move.passes (h : Move a s t) (hs : Passes sock s.conn.out s.conn.socket) :
    Passes sock t.conn.out t.conn.socket := by
  cases h with
  | tidy => exact hs
  | quiet o ho => exact hs.emit (Output.idle_of_quiet ho)
  | window => exact hs
  | queue => exact hs
  | abort => exact hs
  | reset => simpa using hs.emit (Output.idle_tun _ _)
  | countFin => exact hs.emit (Output.idle_tun _ _)
  | holdFin => exact hs
  | lastFin => exact hs.emit (Output.idle_tun _ _)
  | ackAll => exact hs
  | ackSome => exact hs
  | synAck => exact hs.emit (Output.idle_tun _ _)
  | send => exact hs.emit fun _ _ => ⟨rfl, rfl⟩
  | confirmFin => exact hs.emit (Output.idle_tun _ _)
  | ack => exact hs.emit (Output.idle_tun _ _)
  | keepAlive => exact hs.emit (Output.idle_tun _ _)
  | @data c fwd ha hstate bytes hbytes hsize dns hdns =>
    have hread : Passes sock (c.out ++ Output.recv c.socket bytes :: dns) c.socket := by
      refine hs.trans (Passes.idle ?_)
      intro o ho
      rcases List.mem_cons.mp ho with rfl | ho
      · exact fun _ _ => ⟨rfl, rfl⟩
      · exact Output.idle_of_quiet (hdns o ho)
    exact hread.emit (Output.idle_tun _ _)
  | fin => exact (hs.emit (Output.idle_tun _ _)).close
  | close => exact hs.close
  | closed => exact hs

end Tcp

section Passed

/-- What every entry of a run meets: one that is over has no socket. -/
def NgSession.Sound : NgSession → Prop
  | .icmp _ _ => True
  | .udp s sock => s.state = .closed ∨ s.state = .blocked → sock < 0
  | .tcp s sock events => ∃ past, Conn.Reachable ⟨s, sock, events, past⟩

/-- What became of an entry and of its descriptor in a call that made the outputs. -/
structure NgSession.Passed (s : NgSession) (os : Trace) (kept : Option NgSession) : Prop where
  passes : ∀ n ≥ 0, (∀ o ∈ os, o.acquires n = false) ∧
    os.countP (Output.releases n) + holders n kept.toList = holders n [s]
  sound : ∀ t ∈ kept, t.Sound

variable {s t : NgSession} {os : Trace}

theorem NgSession.Passed.kept (h : Passes s.descriptor os t.descriptor) (ht : t.Sound) :
    s.Passed os (some t) where
  passes n hn := by simpa [holders, List.countP_singleton] using h n hn
  sound := by
    rintro _ ⟨⟩
    exact ht

theorem NgSession.Passed.dropped {sock : Int} (h : Passes s.descriptor os sock) (hsock : sock < 0) :
    s.Passed os none where
  passes n hn := by
    have hne : ¬ sock = n := by omega
    simpa [holders, List.countP_singleton, hne] using h n hn
  sound := by simp

variable {env : Env} {args : Arguments} {out : Trace}

theorem EchoMoves.passes {e e' : Echo} (h : EchoMoves e e') :
    ∃ os, e'.out = e.out ++ os ∧ Passes e.socket os e'.socket := by
  refine Run.chain_invariant (P := fun x : Echo =>
    ∃ os, x.out = e.out ++ os ∧ Passes e.socket os x.socket) ?_ h ⟨[], by simp, .refl⟩
  rintro x y hmove ⟨os, hout, hx⟩
  cases hmove with
  | tidy => exact ⟨os, hout, hx⟩
  | aside o ho => exact ⟨os ++ [o], by simp [Echo.emit, hout], hx.emit (Output.idle_of_aside ho)⟩
  | answer buffer written =>
    have hread : Passes e.socket (os ++ [.recv x.socket buffer]) x.socket :=
      hx.emit fun _ _ => ⟨rfl, rfl⟩
    refine ⟨_, ?_, hread.emit (Output.idle_tun (.icmp x.icmp
      (rewriteIcmp (replyChecksum x.icmp buffer.length) x.icmp.id buffer)) written)⟩
    simp [Echo.answer, Echo.emit, hout]
  | close => exact ⟨os ++ [.close x.socket], by simp [Echo.emit, hout], hx.close⟩

theorem DatagramMoves.passes {d d' : Datagram} (h : DatagramMoves d d')
    (hd : (NgSession.udp d.udp d.socket).Sound) :
    ∃ os, d'.out = d.out ++ os ∧ Passes d.socket os d'.socket ∧
      (NgSession.udp d'.udp d'.socket).Sound := by
  refine Run.chain_invariant (P := fun x : Datagram => ∃ os, x.out = d.out ++ os ∧
    Passes d.socket os x.socket ∧ (NgSession.udp x.udp x.socket).Sound) ?_ h
    ⟨[], by simp, .refl, hd⟩
  rintro x y hmove ⟨os, hout, hx, hsound⟩
  cases hmove with
  | tidy uid time sent received state hstate =>
    refine ⟨os, hout, hx, ?_⟩
    intro hover
    rcases hstate with rfl | rfl
    · exact hsound hover
    · exact hover.elim UdpState.noConfusion UdpState.noConfusion
  | aside o ho =>
    exact ⟨os ++ [o], by simp [Datagram.emit, hout], hx.emit (Output.idle_of_aside ho), hsound⟩
  | answer data written =>
    exact ⟨os ++ [.tun (.udp x.udp data) written], by simp [Datagram.emit, hout],
      hx.emit (Output.idle_tun _ _), hsound⟩
  | close =>
    exact ⟨os ++ [.close x.socket], by simp [Datagram.emit, hout], hx.close,
      fun _ => Int.negSucc_lt_zero 0⟩

theorem Forwarded.passes {flow : Flow} {data : List UInt8} {d d' : Datagram}
    (h : Forwarded flow data d d') (hd : (NgSession.udp d.udp d.socket).Sound) :
    ∃ os, d'.out = d.out ++ os ∧ Passes d.socket os d'.socket ∧
      (NgSession.udp d'.udp d'.socket).Sound := by
  cases h with
  | answered hanswers written => exact ⟨[_], rfl, Passes.refl.emit (Output.idle_tun _ _), hd⟩
  | ignored => exact ⟨[], by simp, .refl, hd⟩
  | sent htakes hmoves => exact hmoves.passes hd

theorem handle_passes {cur : TcpSession} {sock : Int} {events : Events} (e : TcpEvent)
    (hs : (NgSession.tcp cur sock events).Sound) :
    Passes sock (e.handle env args ⟨cur, sock, events, []⟩).out
        (e.handle env args ⟨cur, sock, events, []⟩).socket ∧
      (e.handle env args ⟨cur, sock, events, []⟩).entry.Sound := by
  obtain ⟨past, hreachable⟩ := hs
  constructor
  · have hdialing : Conn.Dialing ⟨cur, sock, events, past⟩ :=
      (hreachable.invariant (P := fun _ => True) (fun _ _ _ _ => trivial)
        (fun _ _ _ _ _ => trivial)).1
    have hmoves : Moves e.cause ⟨⟨cur, sock, events, []⟩, false⟩
        ⟨e.handle env args ⟨cur, sock, events, []⟩, false⟩ :=
      Acts.handle e (fun _ => trivial) hdialing
    exact Run.chain_invariant (P := fun s : Stage => Passes sock s.conn.out s.conn.socket)
      (fun _ _ => Move.passes) hmoves Passes.refl
  · exact ⟨_, hreachable.step args (env, e)⟩

theorem Touched.passes (h : Touched args s os t) (hs : s.Sound) :
    Passes s.descriptor os t.descriptor ∧ t.Sound := by
  cases h with
  | icmp hmoves =>
    obtain ⟨os, hout, hpasses⟩ := hmoves.passes
    rw [hout]
    exact ⟨hpasses, trivial⟩
  | udp hmoves =>
    obtain ⟨os, hout, hpasses⟩ := hmoves.passes hs
    rw [hout]
    exact hpasses
  | tcp cur sock events env e => exact handle_passes e hs

theorem NgSession.Released.descriptor (h : t.Released) (ht : t.Sound) : t.descriptor < 0 := by
  cases t with
  | icmp s sock =>
    obtain rfl : sock = -1 := h
    exact Int.negSucc_lt_zero 0
  | udp s sock => exact ht h
  | tcp s sock events =>
    obtain ⟨past, hreachable⟩ := ht
    have hclose : s.state = .close := h
    have hsocket : sock = -1 := by
      simpa [hclose, TcpState.Socket] using hreachable.state_machine.1
    simp [NgSession.descriptor, hsocket]

theorem Swept.passed {kept : Option NgSession} {out' : Trace} (h : Swept args s out (kept, out'))
    (hs : s.Sound) : ∃ os, out' = out ++ os ∧ s.Passed os kept := by
  generalize hr : (kept, out') = r at h
  cases h with
  | untouched =>
    obtain ⟨rfl, rfl⟩ := Prod.mk.inj hr
    exact ⟨[], by simp, .kept .refl hs⟩
  | kept htouched =>
    obtain ⟨rfl, rfl⟩ := Prod.mk.inj hr
    obtain ⟨hpasses, ht⟩ := htouched.passes hs
    exact ⟨_, rfl, .kept hpasses ht⟩
  | dropped htouched hover =>
    obtain ⟨rfl, rfl⟩ := Prod.mk.inj hr
    obtain ⟨hpasses, ht⟩ := htouched.passes hs
    exact ⟨_, rfl, .dropped hpasses (hover.descriptor ht)⟩
  | cleared =>
    rw [clearEntry_eq] at hr
    obtain ⟨rfl, rfl⟩ := Prod.mk.inj hr
    split
    next => exact ⟨_, rfl, .dropped Passes.refl.close (Int.negSucc_lt_zero 0)⟩
    next hsock => exact ⟨[], by simp, .dropped .refl (Int.not_le.mp hsock)⟩

end Passed

section Held
open Ledger (Orderly)

/-- The account of a run: what was acquired is released or held, in order. -/
structure Held (list : List NgSession) (out : Trace) : Prop where
  balanced : ∀ n ≥ 0, out.countP (Output.acquires n) =
    out.countP (Output.releases n) + holders n list
  orderly : ∀ n ≥ 0, Orderly (Output.acquires n) (Output.releases n) out
  sound : ∀ s ∈ list, s.Sound

variable {list before rest : List NgSession} {s : NgSession} {out os : Trace}

theorem Held.pass {kept : Option NgSession} (h : Held (before ++ s :: rest) out)
    (hpassed : s.Passed os kept) : Held (before ++ (kept.toList ++ rest)) (out ++ os) where
  balanced n hn := by
    obtain ⟨hnone, hcount⟩ := hpassed.passes n hn
    have hbalanced := h.balanced n hn
    have hacquired : os.countP (Output.acquires n) = 0 :=
      List.countP_eq_zero.mpr fun o ho => by simp [hnone o ho]
    simp only [holders, List.countP_append, List.countP_cons, List.countP_nil] at hcount hbalanced ⊢
    omega
  orderly n hn := by
    obtain ⟨hnone, hcount⟩ := hpassed.passes n hn
    have hbalanced := h.balanced n hn
    apply (h.orderly n hn).release hnone
    simp only [holders, List.countP_append, List.countP_cons, List.countP_nil] at hcount hbalanced
    omega
  sound t ht := by
    rcases List.mem_append.mp ht with ht | ht
    · exact h.sound t (List.mem_append_left _ ht)
    rcases List.mem_append.mp ht with ht | ht
    · exact hpassed.sound t (Option.mem_toList.mp ht)
    · exact h.sound t (List.mem_append_right _ (List.mem_cons_of_mem _ ht))

theorem Held.idle (h : Held list out) (hidle : ∀ o ∈ os, o.Idle) :
    Held list (out ++ os) where
  balanced n hn := by
    have hacquired : os.countP (Output.acquires n) = 0 :=
      List.countP_eq_zero.mpr fun o ho => by simp [(hidle o ho n hn).1]
    have hreleased : os.countP (Output.releases n) = 0 :=
      List.countP_eq_zero.mpr fun o ho => by simp [(hidle o ho n hn).2]
    have hbalanced := h.balanced n hn
    simp only [List.countP_append]
    omega
  orderly n hn := by
    have hreleased : os.countP (Output.releases n) = 0 :=
      List.countP_eq_zero.mpr fun o ho => by simp [(hidle o ho n hn).2]
    have hbounds := (h.orderly n hn).bounds
    exact (h.orderly n hn).release (fun o ho => (hidle o ho n hn).1) (by omega)
  sound := h.sound

theorem Held.emit {o : Output} (h : Held list out) (ho : o.Idle) :
    Held list (out ++ [o]) := h.idle (by simpa using ho)

/-- A descriptor that was obtained and not closed since. -/
def Trace.IsOpen (n : Int) (out : Trace) : Prop :=
  out.countP (Output.releases n) < out.countP (Output.acquires n)

theorem Held.open (h : Held list out) (hfresh : ¬ Trace.IsOpen s.descriptor out)
    (hidle : ∀ o ∈ os, o.Idle) (hs : s.Sound) :
    Held (s :: list) (out ++ .socket s.descriptor :: os) := by
  have hacquired : Held (s :: list) (out ++ [.socket s.descriptor]) := by
    refine ⟨?_, ?_, ?_⟩
    · intro n hn
      have hbalanced := h.balanced n hn
      by_cases hdescriptor : s.descriptor = n <;>
        simp [Output.acquires, Output.releases, holders, hdescriptor] at hbalanced ⊢ <;> omega
    · intro n hn
      by_cases hdescriptor : s.descriptor = n
      · rw [hdescriptor] at hfresh ⊢
        have hbounds := (h.orderly n hn).bounds
        unfold Trace.IsOpen at hfresh
        exact (h.orderly n hn).acquire (by omega) rfl
      · have hbounds := (h.orderly n hn).bounds
        refine (h.orderly n hn).release ?_ ?_
        · simpa [Output.acquires] using hdescriptor
        · simpa [Output.releases] using hbounds.1
    · intro t ht
      rcases List.mem_cons.mp ht with rfl | ht
      · exact hs
      · exact h.sound t ht
  simpa using hacquired.idle hidle

/-- An entry without a socket has no part in the account. -/
theorem Held.cons (h : Held list out) (hsocket : s.descriptor < 0) (hs : s.Sound) :
    Held (s :: list) out where
  balanced n hn := by
    have hne : ¬ s.descriptor = n := by omega
    simpa [holders, hne] using h.balanced n hn
  orderly := h.orderly
  sound t ht := by
    rcases List.mem_cons.mp ht with rfl | ht
    · exact hs
    · exact h.sound t ht

theorem Held.sweep {args : Arguments} {f : NgSession → Trace → Option NgSession × Trace}
    (hf : ∀ s out, Swept args s out (f s out)) {past : Trace}
    (h : Held list (past ++ out)) :
    Held (Table.sweep f list out).1 (past ++ (Table.sweep f list out).2) := by
  refine Table.sweep_invariant (I := fun list out => Held list (past ++ out)) ?_ [] list out h
  intro before s rest out hlist
  have hs : s.Sound := hlist.sound s (by simp)
  obtain ⟨os, hout, hpassed⟩ := (hf s out).passed hs
  rw [hout, ← List.append_assoc past]
  exact hlist.pass hpassed

end Held

section Openers
variable {env : Env} {args : Arguments}

/-- The kernel refuses no call of `open_tcp_socket` on a descriptor it gave out: neither
`fcntl` nor `connect`. -/
def Env.Grants (env : Env) : Prop :=
  0 ≤ env.socket [] →
    env.nonBlocking [.socket (env.socket [])] = true ∧
      env.connect [.socket (env.socket []), .nonBlocking (env.socket []) true] = true

/-- `socket()` gives out no descriptor that is open. -/
def Env.Fresh (env : Env) (out : Trace) : Prop :=
  0 ≤ env.socket [] → ¬ Trace.IsOpen (env.socket []) out

/-- What an opener returns then: the descriptor, or none because `socket()` gave none. -/
inductive Opened (env : Env) : Int × Trace → Prop
  | refused {os : Trace} (hidle : ∀ o ∈ os, o.Idle) : Opened env (-1, os)
  | obtained {os : Trace} (hsock : 0 ≤ env.socket []) (hidle : ∀ o ∈ os, o.Idle) :
      Opened env (env.socket [], .socket (env.socket []) :: os)

theorem Output.idle_refused {sock : Int} (h : sock < 0) : (Output.socket sock).Idle := by
  intro n hn
  have hne : ¬ sock = n := by omega
  simp [Output.acquires, Output.releases, hne]

/-- The openers of UDP and ICMP sockets make no further call that could fail. -/
theorem openUdpSocket_opened (env : Env) (args : Arguments) :
    Opened env (openUdpSocket env args []) := by
  rw [openUdpSocket_eq]
  split
  next hsock => exact .refused (by simpa using Output.idle_refused hsock)
  next hsock => exact .obtained (Int.not_lt.mp hsock) (by simp)

theorem openIcmpSocket_opened (env : Env) (args : Arguments) :
    Opened env (openIcmpSocket env args []) :=
  openUdpSocket_opened env args

theorem openTcpSocket_opened (args : Arguments) (hgrants : env.Grants) (cur : TcpSession) :
    Opened env (openTcpSocket env args cur []) := by
  simp only [openTcpSocket_eq, List.nil_append]
  split
  next hsock => exact .refused (by simpa using Output.idle_refused hsock)
  next hsock =>
    have hsock := Int.not_lt.mp hsock
    obtain ⟨hnonBlocking, hconnect⟩ := hgrants hsock
    simp only [List.cons_append, List.nil_append, hnonBlocking, hconnect, Bool.not_true,
      Bool.false_eq_true, if_false]
    refine .obtained hsock ?_
    intro o ho
    rcases List.mem_cons.mp ho with rfl | ho
    · exact fun _ _ => ⟨rfl, rfl⟩
    obtain rfl := List.mem_singleton.mp ho
    split <;> exact fun _ _ => ⟨rfl, rfl⟩

variable {list : List NgSession} {out : Trace} {s : NgSession}

theorem Opened.refuse {r : Int × Trace} (h : Opened env r) (hsock : r.1 < 0)
    (hlist : Held list out) : Held list (out ++ r.2) := by
  cases h with
  | refused hidle => exact hlist.idle hidle
  | obtained hget => exact absurd hsock (Int.not_lt.mpr hget)

theorem Opened.open {r : Int × Trace} (h : Opened env r) (hsock : 0 ≤ r.1)
    (hlist : Held list out) (hfresh : env.Fresh out) (hdescriptor : s.descriptor = r.1)
    (hs : s.Sound) : Held (s :: list) (out ++ r.2) := by
  cases h with
  | refused => exact absurd hsock (Int.not_le.mpr (Int.negSucc_lt_zero 0))
  | obtained hget hidle =>
    have hopen := hlist.open (hdescriptor ▸ hfresh hget) hidle hs
    rwa [hdescriptor] at hopen

end Openers

section Handlers
variable {env : Env} {args : Arguments} {p : Packet} {h : IpHdr} {through : Bool} {uid : Int}
  {ctx ctx' : Context} {past : Trace}

theorem IcmpHandled.held (hhandled : IcmpHandled env args p h.version h.payload uid ctx ctx')
    (hicmp : h.isIcmp = true) (hthrough : through = true)
    (hnew : h.Opens p through ctx.ngSession →
      (env.after ctx.out).Fresh (past ++ ctx.out))
    (hctx : Held ctx.ngSession (past ++ ctx.out)) :
    Held ctx'.ngSession (past ++ ctx'.out) := by
  have hsent (e : Echo) := (EchoMoves.sendRequest (env.after ctx.out) (p.daddr h.version)
    (p.icmpMessage h.version h.payload) e).passes
  cases hhandled with
  | ignored => exact hctx
  | @found before rest s s' sock e hecho hlist hends hstop hs' he =>
    obtain ⟨os, hout, hpasses⟩ := hsent ⟨s', sock, []⟩
    rw [← he] at hout hpasses
    rw [hlist] at hctx
    have hpassed : NgSession.Passed (.icmp s sock) os (some (.icmp e.icmp e.socket)) :=
      .kept hpasses trivial
    simpa [hout] using hctx.pass hpassed
  | @refused out hecho hnone hopened =>
    obtain ⟨hsock, rfl⟩ := newIcmpSession_none hopened
    rw [← List.append_assoc]
    exact (openIcmpSocket_opened _ _).refuse hsock hctx
  | @opened e₀ e out hecho hnone hopened he =>
    have hfresh := hnew (.icmp hicmp hthrough hecho hnone)
    obtain ⟨hsock, he₀⟩ := newIcmpSession_some hopened
    obtain ⟨os, hout, hpasses⟩ := hsent e₀
    rw [← he] at hout hpasses
    have hopen := (openIcmpSocket_opened _ _).open (s := .icmp e₀.icmp e₀.socket)
      hsock hctx hfresh (by rw [he₀, NgSession.descriptor]) trivial
    have hwatched := hopen.emit (o := .epollCtl e₀.socket ⟨true, false, true⟩
      ((env.after ctx.out).epollCtl (openIcmpSocket (env.after ctx.out) args []).2)) fun _ _ => ⟨rfl, rfl⟩
    have hpassed : NgSession.Passed (.icmp e₀.icmp e₀.socket) os (some (.icmp e.icmp e.socket)) :=
      .kept hpasses trivial
    have hlisted : Held ([] ++ (_ ++ ctx.ngSession)) _ := Held.pass hwatched hpassed
    rw [hout]
    simpa [he₀, Env.watch] using hlisted

theorem UdpHandled.held (hhandled : UdpHandled env args p h.version h.payload uid ctx ctx')
    (hudp : h.protocol = ipprotoUdp) (hthrough : through = true)
    (hnew : h.Opens p through ctx.ngSession →
      (env.after ctx.out).Fresh (past ++ ctx.out))
    (hctx : Held ctx.ngSession (past ++ ctx.out)) :
    Held ctx'.ngSession (past ++ ctx'.out) := by
  have hsent (d : Datagram) := (forwardDatagram_forwarded (env.after ctx.out)
    (p.flow h.payload h.version) (p.udpData h.payload) d).passes
  cases hhandled with
  | ignored => exact hctx
  | @found before rest s s' sock d hlist hflow hstate hs' hd =>
    have hactive : s'.state = .active := by
      rw [hs']
      split <;> exact hstate
    obtain ⟨os, hout, hpasses, hsound⟩ := hsent ⟨s', sock, []⟩ (by simp [NgSession.Sound, hactive])
    rw [← hd] at hout hpasses hsound
    rw [hlist] at hctx
    have hpassed : NgSession.Passed (.udp s sock) os (some (.udp d.udp d.socket)) :=
      .kept hpasses hsound
    simpa [hout] using hctx.pass hpassed
  | @refused out hnone hopened =>
    obtain ⟨hsock, rfl⟩ := newUdpSession_none hopened
    rw [← List.append_assoc]
    exact (openUdpSocket_opened _ _).refuse hsock hctx
  | @opened d₀ d out hnone hopened hd =>
    have hfresh := hnew (.udp hudp hthrough hnone)
    obtain ⟨hsock, hd₀⟩ := newUdpSession_some hopened
    have hs₀ : (NgSession.udp d₀.udp d₀.socket).Sound := by simp [NgSession.Sound, hd₀, udpSession]
    obtain ⟨os, hout, hpasses, hsound⟩ := hsent d₀ hs₀
    rw [← hd] at hout hpasses hsound
    have hopen := (openUdpSocket_opened _ _).open (s := .udp d₀.udp d₀.socket)
      hsock hctx hfresh (by rw [hd₀, NgSession.descriptor]) hs₀
    have hwatched := hopen.emit (o := .epollCtl d₀.socket ⟨true, false, true⟩
      ((env.after ctx.out).epollCtl (openUdpSocket (env.after ctx.out) args []).2)) fun _ _ => ⟨rfl, rfl⟩
    have hpassed : NgSession.Passed (.udp d₀.udp d₀.socket) os (some (.udp d.udp d.socket)) :=
      .kept hpasses hsound
    have hlisted : Held ([] ++ (_ ++ ctx.ngSession)) _ := Held.pass hwatched hpassed
    rw [hout]
    simpa [hd₀, Env.watch] using hlisted

theorem TcpHandled.held {allowed : Bool}
    (hhandled : TcpHandled env args p h.version h.payload uid allowed ctx ctx')
    (htcp : h.protocol = ipprotoTcp)
    (hnew : h.Opens p through ctx.ngSession →
      (env.after ctx.out).Grants ∧ (env.after ctx.out).Fresh (past ++ ctx.out))
    (hctx : Held ctx.ngSession (past ++ ctx.out)) :
    Held ctx'.ngSession (past ++ ctx'.out) := by
  cases hhandled with
  | urgent => exact hctx
  | @found before rest s sock events c hurg hlist hflow hc =>
    rw [hlist] at hctx
    have hs : NgSession.Sound (.tcp s sock events) := hctx.sound _ (by simp)
    have htouched : Touched args (.tcp s sock events) _ _ := .tcp s sock events (env.after ctx.out)
      (.segment (p.tcphdr h.payload) (p.payloadFrom (p.tcpData h.payload)) uid allowed)
    simp only [TcpEvent.handle, hurg, Bool.false_eq_true, if_false, ← hc] at htouched
    obtain ⟨hpasses, hsound⟩ := htouched.passes hs
    simpa using hctx.pass (.kept hpasses hsound)
  | endless =>
    rw [Context.emit, ← List.append_assoc]
    exact hctx.emit fun _ _ => ⟨rfl, rfl⟩
  | @syn mss ws opened out hurg hnone hsyn hoptions hopened =>
    obtain ⟨hgrants, hfresh⟩ := hnew (.tcp htcp hurg hsyn (by simp [hoptions]) hnone)
    cases opened with
    | none =>
      obtain ⟨hsock, rfl⟩ := newTcpSession_none hopened
      rw [← List.append_assoc]
      exact (openTcpSocket_opened args hgrants _).refuse hsock hctx
    | some c =>
      have hopens : Syn.Opens args ⟨p.flow h.payload h.version, p.tcphdr h.payload,
          p.payloadFrom (p.tcpData h.payload), mss, ws, uid, allowed⟩ c :=
        ⟨env.after ctx.out, out, hopened⟩
      have hs : c.entry.Sound := ⟨c.out, .opened hopens⟩
      obtain ⟨hsock, window, ok, d, hd, hc, rfl⟩ := newTcpSession_some hopened
      obtain ⟨hsocket, os, hout, hidle⟩ : c.socket = d.socket ∧ ∃ os, c.out = d.out ++ os ∧
          ∀ o ∈ os, o.Idle := by
        rw [hc]
        split
        · exact ⟨rfl, [], by simp, by simp⟩
        · rw [writeRst_eq]
          exact ⟨by simp, _, by rw [Conn.wrote_out, countSyn_out],
            by simpa using Output.idle_tun _ _⟩
      have hopen := (openTcpSocket_opened args hgrants _).open (s := c.entry) hsock hctx
        hfresh (by rw [Conn.entry, NgSession.descriptor, hsocket, hd]) hs
      have hwatched : Held (c.entry :: ctx.ngSession) (past ++ ctx.out ++ d.out) := by
        have hprobed := (hopen.emit (o := .probe d.socket) fun _ _ => ⟨rfl, rfl⟩).emit
          (o := .epollCtl d.socket ⟨false, true, true⟩ ok) fun _ _ => ⟨rfl, rfl⟩
        simpa [hd] using hprobed
      simpa [hout] using hwatched.idle hidle
  | unknown =>
    rw [← List.append_assoc, writeRst_eq]
    simpa using hctx.emit (Output.idle_tun _ _)

theorem Context.Asks.idle (h : ctx.Asks ctx') :
    ∃ us, ctx' = ⟨ctx.ngSession, ctx.out ++ us⟩ ∧ ∀ o ∈ us, o.Idle := by
  obtain ⟨us, heq, hus⟩ := h
  exact ⟨us, heq, fun o ho => Output.idle_of_upcall (hus o ho)⟩

theorem handlePacket_held
    (hnew : h.Opens p (letThrough env args p h ctx) ctx.ngSession →
      (h.protocol = ipprotoTcp → (env.after (judgePacket env p h ctx).2.2.2.out).Grants) ∧
        (env.after (judgePacket env p h ctx).2.2.2.out).Fresh
          (past ++ (judgePacket env p h ctx).2.2.2.out))
    (hctx : Held ctx.ngSession (past ++ ctx.out)) :
    Held (handlePacket env args p h ctx).ngSession
      (past ++ (handlePacket env args p h ctx).out) := by
  obtain ⟨us, hasked, hus⟩ := (judgePacket_asks env p h ctx).idle
  have hjudged : Held (judgePacket env p h ctx).2.2.2.ngSession
      (past ++ (judgePacket env p h ctx).2.2.2.out) := by
    rw [hasked, ← List.append_assoc]
    exact hctx.idle hus
  have hsame := (judgePacket_asks env p h ctx).ngSession
  rw [← hsame] at hnew
  have hhandled : PacketHandled env args p h _ _ _ (handlePacket env args p h ctx) :=
    handlePacket_handled
  generalize handlePacket env args p h ctx = ctx' at hhandled
  cases hhandled with
  | icmp hthrough hicmp hhandled =>
    exact hhandled.held hicmp hthrough (fun hopens => (hnew hopens).2) hjudged
  | udp hthrough hudp hhandled =>
    exact hhandled.held hudp hthrough (fun hopens => (hnew hopens).2) hjudged
  | tcp htcp hhandled =>
    exact hhandled.held htcp (fun hopens => (hnew hopens).imp_left fun h => h htcp) hjudged
  | blocked => exact hjudged.cons (Int.negSucc_lt_zero 0) fun _ => Int.negSucc_lt_zero 0
  | other => exact hjudged

end Handlers

section Loop

/-- The condition at the `socket()` of a packet that opens a session: on the answers of the
kernel from there on and on the calls so far. -/
def EventLoop.OnOpen (C : Env → IpHdr → Trace → Prop) (l : EventLoop) (e : Env × LoopEvent) :
    Prop :=
  ∀ p h, e.2 = .tun p → Judged l.args p l.sessions l.maxsessions l.ngSession h →
    h.Opens p (letThrough e.1 l.args p h ⟨l.ngSession, []⟩) l.ngSession →
    C (e.1.after (judgePacket e.1 p h ⟨l.ngSession, []⟩).2.2.2.out) h
      (l.out ++ (judgePacket e.1 p h ⟨l.ngSession, []⟩).2.2.2.out)

def EventLoop.Fresh : EventLoop → Env × LoopEvent → Prop :=
  EventLoop.OnOpen fun env _ out => env.Fresh out

def EventLoop.Grants : EventLoop → Env × LoopEvent → Prop :=
  EventLoop.OnOpen fun env h _ => h.protocol = ipprotoTcp → env.Grants

theorem EventLoop.step_held (l : EventLoop) (e : Env × LoopEvent)
    (hkernel : l.Fresh e ∧ l.Grants e) (h : Held l.ngSession l.out) :
    Held (l.step e).ngSession (l.step e).out := by
  have hstart : Held l.ngSession (l.out ++ []) := by simpa using h
  obtain ⟨env, event⟩ := e
  simp only [EventLoop.step]
  cases event with
  | start args soft => exact hstart.sweep (checkAllowedEntry_swept env args)
  | head =>
    have hmonitored := hstart.sweep (monitorEntry_swept env l.args)
    simp only [LoopEvent.handle, EventLoop.head]
    split
    · exact hmonitored.sweep fun s out => checkEntry_swept env l.args s out _ _
    · exact hmonitored
  | tun p =>
    obtain ⟨hfresh, hgrants⟩ := hkernel
    have hhandled : IpHandled env l.args p l.sessions l.maxsessions ⟨l.ngSession, []⟩ _ :=
      handleIp_handled
    simp only [LoopEvent.handle, EventLoop.tun]
    generalize handleIp env l.args p l.sessions l.maxsessions ⟨l.ngSession, []⟩ = ctx' at hhandled
    cases hhandled with
    | dropped => exact hstart
    | endless => exact h.emit fun _ _ => ⟨rfl, rfl⟩
    | @handled h _ hjudged hlogged =>
      obtain ⟨us, rfl, hus⟩ := hlogged.idle
      rw [← List.append_assoc]
      refine Held.idle ?_ hus
      refine handlePacket_held ?_ hstart
      intro hopens
      exact ⟨hgrants p h rfl hjudged hopens, hfresh p h rfl hjudged hopens⟩
  | socket i ev =>
    simp only [LoopEvent.handle, EventLoop.socket]
    split
    next before s rest heq =>
      rw [Table.eq_append_of_splitAt heq] at h
      have hs : s.Sound := h.sound s (by simp)
      obtain ⟨hpasses, hsound⟩ := (checkSocket_touched (env.after []) l.args s ev).passes hs
      exact h.pass (.kept hpasses hsound)
    next => exact hstart
  | clear =>
    have hcleared (s : NgSession) (out : Trace) : Swept l.args s out (clearEntry s out) := .cleared
    exact hstart.sweep hcleared

end Loop

section Kept
variable {l : EventLoop}

/-- Every descriptor that was obtained is closed exactly once before the kernel gives it out
again; until then it is closed once or the socket of exactly one entry. And only open ones
are closed. -/
structure EventLoop.KeepsDescriptors (l : EventLoop) : Prop where
  obtained : ∀ n ≥ 0, ∀ before after, l.out = before ++ .socket n :: after →
    (after.takeWhile (fun o => !o.acquires n) ≠ after →
      (after.takeWhile (fun o => !o.acquires n)).countP (Output.releases n) = 1) ∧
    (after.takeWhile (fun o => !o.acquires n) = after →
      after.countP (Output.releases n) + holders n l.ngSession = 1)
  closed : ∀ n ≥ 0, ∀ before after, l.out = before ++ .close n :: after → Trace.IsOpen n before

/-- An entry with a socket passes it on or goes with it closed. -/
def EventLoop.FreesClosed (l : EventLoop) (e : Env × LoopEvent) : Prop :=
  ∀ s ∈ l.ngSession, 0 ≤ s.descriptor →
    (∃ t ∈ (l.step e).ngSession, t.descriptor = s.descriptor) ∨
      .close s.descriptor ∈ (l.step e).out.drop l.out.length

theorem Held.kept (h : Held l.ngSession l.out) : l.KeepsDescriptors where
  obtained n hn before after hout := by
    have horderly := h.orderly n hn
    have hbalanced := h.balanced n hn
    rw [hout] at horderly hbalanced
    obtain ⟨hagain, hlast⟩ := horderly.life (by simp [Output.acquires])
    refine ⟨hagain, ?_⟩
    intro hall
    have hcount := hlast hall
    omega
  closed n hn before after hout := (h.orderly n hn before _ after hout).2 (by simp [Output.releases])

theorem Held.freed {e : Env × LoopEvent} (h : Held l.ngSession l.out)
    (h' : Held (l.step e).ngSession (l.step e).out) : l.FreesClosed e := by
  intro s hs hsocket
  by_contra hnot
  obtain ⟨hnone, hopen⟩ := not_or.mp hnot
  have hout : (l.step e).out = l.out ++ (l.step e).out.drop l.out.length := by
    simp [EventLoop.step]
  generalize (l.step e).out.drop l.out.length = os at hopen hout
  have hheld : 0 < holders s.descriptor l.ngSession :=
    List.countP_pos_iff.mpr ⟨s, hs, by simp⟩
  have hfree : holders s.descriptor (l.step e).ngSession = 0 :=
    List.countP_eq_zero.mpr fun t ht => by
      simpa using fun hsame => hnone ⟨t, ht, hsame⟩
  have hreleased : os.countP (Output.releases s.descriptor) = 0 := by
    refine List.countP_eq_zero.mpr fun o ho hreleases => hopen ?_
    exact Output.releases_iff.mp hreleases ▸ ho
  have hbefore := h.balanced _ hsocket
  have hafter := h'.balanced _ hsocket
  rw [hout, List.countP_append, List.countP_append] at hafter
  omega

/-- While the kernel refuses neither `fcntl` nor `connect` on a descriptor that it gave out
for a SYN, none is leaked and none closed twice, in every state of every run. -/
theorem EventLoop.keepsDescriptors (args : Arguments) {es : List (Env × LoopEvent)}
    (hrun : Run.Along EventLoop.step (fun l e => l.Fresh e ∧ l.Grants e) (.init args) es) :
    ((EventLoop.init args).run es).KeepsDescriptors ∧
      ∀ e, ((EventLoop.init args).run es).Fresh e → ((EventLoop.init args).run es).Grants e →
        ((EventLoop.init args).run es).FreesClosed e := by
  have hinit : Held (EventLoop.init args).ngSession (EventLoop.init args).out :=
    ⟨fun n _ => rfl, fun n _ => .nil, fun s hs => absurd hs List.not_mem_nil⟩
  have hlist : Held ((EventLoop.init args).run es).ngSession
      ((EventLoop.init args).run es).out :=
    hrun.invariant (P := fun l => Held l.ngSession l.out) EventLoop.step_held hinit
  refine ⟨hlist.kept, ?_⟩
  intro e hfresh hgrants
  exact hlist.freed (EventLoop.step_held _ e ⟨hfresh, hgrants⟩ hlist)

theorem Judged.eq_of_parsed {args : Arguments} {p : Packet} {sessions maxsessions : Int}
    {list : List NgSession} {h h' : IpHdr} (hjudged : Judged args p sessions maxsessions list h)
    (hparsed : parseIp args p = .ok h') : h = h' :=
  Parsed.ok.inj (hjudged.parsed.symm.trans hparsed)

theorem sampleDatagram_judged {l : EventLoop} {h : IpHdr} (hargs : l.args = .direct)
    (hjudged : Judged l.args .sampleDatagram l.sessions l.maxsessions l.ngSession h) :
    h = ⟨.v4, 17, 20⟩ :=
  hjudged.eq_of_parsed (hargs ▸ rfl)

/-- An environment in which the kernel takes every `connect`, or none. -/
def Env.connecting (connects : Bool) : Env := { Env.calm with connect := fun _ => connects }

theorem sampleSyn_fresh (connects : Bool) :
    (EventLoop.init .direct).Fresh (.connecting connects, .tun .sampleSyn) := by
  rintro p h ⟨⟩ hjudged -
  obtain rfl : h = ⟨.v4, 6, 20⟩ := hjudged.eq_of_parsed rfl
  intro _ hopen
  exact absurd hopen (Nat.lt_irrefl 0)

theorem EventLoop.keepsDescriptors_sample :
    ((EventLoop.init .direct).run [(.connecting true, .tun .sampleSyn)]).KeepsDescriptors ∧
      ∀ e, ((EventLoop.init .direct).run [(.connecting true, .tun .sampleSyn)]).Fresh e →
        ((EventLoop.init .direct).run [(.connecting true, .tun .sampleSyn)]).Grants e →
        ((EventLoop.init .direct).run [(.connecting true, .tun .sampleSyn)]).FreesClosed e := by
  refine keepsDescriptors .direct ⟨⟨sampleSyn_fresh true, ?_⟩, trivial⟩
  rintro p h ⟨⟩ hjudged - -
  obtain rfl : h = ⟨.v4, 6, 20⟩ := hjudged.eq_of_parsed rfl
  exact fun _ => ⟨rfl, rfl⟩

/-- The kernel refuses `connect`: the descriptor is not closed, and no entry has it. -/
theorem EventLoop.not_keepsDescriptors :
    Run.Along EventLoop.step EventLoop.Fresh (.init .direct)
        [(.connecting false, .tun .sampleSyn)] ∧
      ¬ ((EventLoop.init .direct).run
        [(.connecting false, .tun .sampleSyn)]).KeepsDescriptors := by
  refine ⟨⟨sampleSyn_fresh false, trivial⟩, ?_⟩
  intro hkeeps
  have hlist : ((EventLoop.init .direct).run
      [(.connecting false, .tun .sampleSyn)]).ngSession = [] := by with_unfolding_all rfl
  obtain ⟨us, hout⟩ : ∃ us, ((EventLoop.init .direct).run
      [(.connecting false, .tun .sampleSyn)]).out =
        us ++ [.socket 7, .nonBlocking 7 true, .connect 7 [93, 184, 216, 34] 80 false] :=
    ⟨[_, _, _], by with_unfolding_all rfl⟩
  have hheld := (hkeeps.obtained 7 (by decide) _ _ hout).2 rfl
  rw [hlist] at hheld
  exact absurd hheld (by decide)

end Kept

end NetGuard.Engine
